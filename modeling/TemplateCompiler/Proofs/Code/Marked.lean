import TemplateCompiler.Proofs.Code.Lift

/-!
# Programs with their calls marked

The text of a program does not tell a call of a lifted function from an expression of the template
that looks like one. `Code.pieces` cuts the text of lifted code at the calls and the once marks that
lifting put there, and leaves those of an inline template, which has functions and numbers of its own,
inside its text. `assemble_pieces` puts the text together again, and `program_marked` does so for a
whole program.
-/

namespace TemplateCompiler

/-- A piece of the text of lifted code: text, a call of a lifted function, or the number of a once
mark. -/
inductive Piece where
  | text (s : String)
  | call (index : Nat) (inLoop : Bool)
  | mark (id : Nat)
  deriving DecidableEq, Repr

namespace Piece

/-- The text of a piece under given helper names. -/
def render (names : Names) : Piece → String
  | text s => s
  | call index inLoop => (Code.call index inLoop).render names
  | mark id => toString id

/-- The number of the function that a piece calls. -/
def call? : Piece → Option Nat
  | call index _ => some index
  | _ => none

def mark? : Piece → Option Nat
  | mark id => some id
  | _ => none

/-- Puts pieces together, given the text of each. -/
def assemble (f : Piece → String) : List Piece → String
  | [] => ""
  | p :: ps => f p ++ assemble f ps

@[simp] theorem assemble_nil (f : Piece → String) : assemble f [] = "" := rfl

@[simp] theorem assemble_cons (f : Piece → String) (p : Piece) (ps : List Piece) :
    assemble f (p :: ps) = f p ++ assemble f ps := rfl

@[simp] theorem assemble_append (f : Piece → String) (ps qs : List Piece) :
    assemble f (ps ++ qs) = assemble f ps ++ assemble f qs := by
  induction ps with
  | nil => simp
  | cons p ps ih => simp [ih, String.append_assoc]

end Piece

/-- The text of lifted code, cut at its calls and its once marks. -/
def Code.pieces (names : Names) : Code → List Piece
  | text s => [.text s]
  | helper h => [.text (names h)]
  | append a b => a.pieces names ++ b.pieces names
  | create _ _ target data children =>
    .text (names .create ++ "(" ++ target) :: (data.pieces names ++ children.pieces names ++
      [.text ")"])
  | loop _ source params body =>
    .text (names .renderList ++ "((" ++ source ++ "),function(" ++ params ++ ")\x7breturn ") ::
      (body.pieces names ++ [.text "\x7d)"])
  | branch _ test yes no =>
    .text ("(" ++ test ++ ")?") :: (yes.pieces names ++ .text ":" :: no.pieces names)
  | fragment _ body => body.pieces names
  | outlet _ arguments =>
    .text (names .renderSlot ++ "(") :: (arguments.pieces names ++ [.text ")"])
  | slots _ descriptors hint =>
    .text (names .resolveScopedSlots ++ "([") :: (descriptors.pieces names ++
      [.text ("]" ++ hintText hint (descriptors.render names) ++ ")")])
  | hoist _ _ body => body.pieces names
  | once _ _ body => body.pieces names
  | call index inLoop => [.call index inLoop]
  | memo id key body =>
    .text (names .markOnce ++ "(") :: (body.pieces names ++
      [.text ",", .mark id, .text ("," ++ key ++ ")")])
  | inline body => [.text ((inline body).render names)]
  | unit body => [.text (body.render names)]
  | rewritten f body => [.text (f (body.render names))]

/-- The pieces of code are the pieces of its text. -/
theorem assemble_pieces (names : Names) (c : Code) :
    Piece.assemble (Piece.render names) (c.pieces names) = c.render names := by
  induction c with
  | append a b iha ihb => simp [Code.pieces, Code.render, iha, ihb]
  | create _ _ _ _ _ ihd ihc =>
    simp [Code.pieces, Code.render, Piece.render, ihd, ihc, String.append_assoc]
  | branch _ _ _ _ ihy ihn =>
    simp [Code.pieces, Code.render, Piece.render, ihy, ihn, String.append_assoc]
  | loop _ _ _ _ ih | outlet _ _ ih | slots _ _ _ ih | memo _ _ _ ih =>
    simp [Code.pieces, Code.render, Piece.render, ih, String.append_assoc]
  | fragment _ _ ih | hoist _ _ _ ih | once _ _ _ ih => simp [Code.pieces, Code.render, ih]
  | text | helper | call | inline | unit | rewritten => simp [Code.pieces, Code.render, Piece.render]

/-- A function body around an expression. -/
def enclose (expression : String) : String :=
  "with(this)\x7breturn " ++ expression ++ "\x7d"

theorem render_enclosed (names : Names) (c : Code) :
    (Code.enclosed c).render names = enclose (c.render names) := rfl

/-- A program as the expressions of its functions, cut into pieces. -/
structure MarkedProgram where
  main : List Piece
  functions : List (List Piece)
  deriving DecidableEq, Repr

namespace MarkedProgram

/-- The program itself. -/
def program (names : Names) (m : MarkedProgram) : Program :=
  { render := enclose (Piece.assemble (Piece.render names) m.main)
    functions := m.functions.map fun f => enclose (Piece.assemble (Piece.render names) f) }

/-- The pieces of all functions, the main one first. -/
def pieces (m : MarkedProgram) : List Piece :=
  m.main ++ m.functions.flatten

/-- Code that everything has been lifted from and its functions, with their calls marked. -/
def ofLifted (names : Names) (main : Code) (functions : List Code) : MarkedProgram :=
  { main := main.pieces names
    functions := functions.map (Code.pieces names) }

theorem program_ofLifted (names : Names) (main : Code) (lifted : Lifted) :
    (ofLifted names main lifted.functions).program names = lifted.program names main := by
  simp [program, ofLifted, Lifted.program, assemble_pieces, render_enclosed]

end MarkedProgram

/-- The program of generated code, with its calls marked. -/
def Code.marked (names : Names) (c : Code) : MarkedProgram :=
  .ofLifted names (c.lift {}).1 (c.lift {}).2.functions

/-- Marking the calls of a program leaves the program as it is. -/
theorem program_marked (names : Names) (c : Code) :
    (c.marked names).program names = c.program names :=
  MarkedProgram.program_ofLifted names _ _

end TemplateCompiler
