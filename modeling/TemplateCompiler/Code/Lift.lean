import TemplateCompiler.Code.Basic

/-!
# Lifting

`Code.lift` takes hoisted code out into numbered functions and numbers the once marks, in the order
in which the code was generated. An inline template has functions and numbers of its own.
-/

namespace TemplateCompiler

/-- The functions lifted so far, and the number of the next once mark. -/
structure Lifted where
  functions : List Code := []
  marks : Nat := 0

namespace Code

def lift : Code → Lifted → Code × Lifted
  | append a b, s =>
    let (a, s) := a.lift s
    let (b, s) := b.lift s
    (append a b, s)
  | create owner true target data children, s =>
    let (children, s) := children.lift s
    let (data, s) := data.lift s
    (create owner true target data children, s)
  | create owner false target data children, s =>
    let (data, s) := data.lift s
    let (children, s) := children.lift s
    (create owner false target data children, s)
  | loop owner source params body, s =>
    let (body, s) := body.lift s
    (loop owner source params body, s)
  | branch owner test yes no, s =>
    let (yes, s) := yes.lift s
    let (no, s) := no.lift s
    (branch owner test yes no, s)
  | fragment owner body, s =>
    let (body, s) := body.lift s
    (fragment owner body, s)
  | outlet owner arguments, s =>
    let (arguments, s) := arguments.lift s
    (outlet owner arguments, s)
  | slots owner descriptors hint, s =>
    let (descriptors, s) := descriptors.lift s
    (slots owner descriptors hint, s)
  | hoist _ inLoop body, s =>
    let (body, s) := body.lift s
    (call s.functions.length inLoop, { s with functions := s.functions ++ [body] })
  | once _ key body, s =>
    let (body, s) := body.lift s
    (memo s.marks key body, { s with marks := s.marks + 1 })
  | inline body, s =>
    let (body, own) := body.lift {}
    (unit (inlineEntry body own.functions), s)
  | memo id key body, s =>
    let (body, s) := body.lift s
    (memo id key body, s)
  | rewritten f body, s =>
    let (body, s) := body.lift s
    (rewritten f body, s)
  | text t, s => (text t, s)
  | helper h, s => (helper h, s)
  | call index inLoop, s => (call index inLoop, s)
  | unit body, s => (unit body, s)

end Code

/-- Render function source: the main function and the functions that it calls by number. -/
structure Program where
  render : String
  functions : List String
  deriving DecidableEq, Repr

/-- The program of code that everything has been lifted from. -/
def Lifted.program (names : Names) (main : Code) (lifted : Lifted) : Program :=
  { render := (Code.enclosed main).render names
    functions := lifted.functions.map fun f => (Code.enclosed f).render names }

/-- The program of generated code under given helper names. -/
def Code.program (names : Names) (c : Code) : Program :=
  let (main, lifted) := c.lift {}
  { render := (Code.enclosed main).render names
    functions := lifted.functions.map fun f => (Code.enclosed f).render names }

end TemplateCompiler
