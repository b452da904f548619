import TemplateCompiler.Generator.Basic

/-!
# Placing code

Hoisted code is rendered by a function of its own, code that is rendered once gets a number, and an
inline template has functions and numbers of its own. A `Placement` says what becomes of them when
they have been generated. The plan leaves them where they are, and `Code.lift` takes them out of the
whole code afterwards. `Placement.numbered` takes them out at once: a function goes to the end of
the list in the state, and only the call of it is left.
-/

namespace TemplateCompiler

namespace Generator

/-- Generates something apart from the code around it. -/
def apart {α : Type} (act : GenM α) : GenM α := do
  let outer ← get
  modify fun s => { s with memo := [], verbatim := false }
  let result ← act
  modify fun s => { s with memo := outer.memo, verbatim := outer.verbatim }
  return result

end Generator

open Generator

/-- How an emitter places what it has generated. -/
class Placement where
  /-- The code of an element with a function of its own. -/
  hoist (owner : Nat) (inLoop : Bool) (body : Code) : GenM Code
  /-- The code of an element that is rendered once for each value of a key. -/
  once (owner : Nat) (key : String) (body : Code) : GenM Code
  /-- Generates an inline template. -/
  template (act : GenM Code) : GenM Code
  /-- An inline template that was generated, in the place of its entry. -/
  inline (template : Code) : Code

namespace Placement

/-- Leaves everything in its place. -/
instance plan : Placement where
  hoist owner inLoop body := return .hoist owner inLoop body
  once owner key body := return .once owner key body
  template := apart
  inline := .inline

/-- Takes the body of a hoist out as the next function, and the next number for a once mark. An
inline template starts without functions and marks, and then those around it are back. -/
@[reducible] def numbered : Placement where
  hoist _ inLoop body := do
    let lifted := (← get).lifted
    modify fun s => { s with lifted := { lifted with functions := lifted.functions ++ [body] } }
    return .call lifted.functions.length inLoop
  once _ key body := do
    let lifted := (← get).lifted
    modify fun s => { s with lifted := { lifted with marks := lifted.marks + 1 } }
    return .memo lifted.marks key body
  template act := do
    let outer := (← get).lifted
    modify fun s => { s with lifted := {} }
    let body ← apart act
    let own := (← get).lifted
    modify fun s => { s with lifted := outer }
    return .inlineEntry body own.functions
  inline := .unit

end Placement

end TemplateCompiler
