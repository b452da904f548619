import TemplateCompiler.Generator.Basic
import TemplateCompiler.Json.Printer

/-!
# Children

The children of an element as an argument of its creation. The level after the list tells the
runtime how far it has to flatten it: not at all, the results of components, or nested lists from
loops, templates and outlets.
-/

namespace TemplateCompiler

/-- The children argument: none, a loop that stands for the list, or a list. -/
inductive Children where
  | none
  | bare (loop : Code) (level : Option Nat)
  | list (items : List Code) (level : Nat)

/-- The argument, if there is one. -/
def Children.code? : Children → Option Code
  | .none => Option.none
  | .bare loop level =>
    some (loop ++ Code.text ((level.map fun n => "," ++ toString n).getD ""))
  | .list items level =>
    some (Code.text "[" ++ Code.join "," items ++
      Code.text ("]" ++ if level = 0 then "" else "," ++ toString level))

/-- The argument with the comma before it. -/
def Children.argument (c : Children) : Code :=
  (c.code?.map fun code => Code.text "," ++ code).getD Code.empty

namespace Generator

/-- Elements that may render to a list. -/
def needsFlattening (e : Element) : Bool :=
  e.loops || e.hasTag "template" || e.hasTag "slot"

/-- An element with all the blocks of its conditional chain. -/
def arms (t : Tree) (e : Element) : List Element :=
  e :: e.conditions.filterMap fun c => t.element? c.block

/-- The level that a list of children asks for: the highest that one of them asks for. -/
def flatteningLevel (o : Options) (t : Tree) : List Nat → Except Failure Nat
  | [] => .ok 0
  | c :: rest =>
    match t.element? c with
    | none => flatteningLevel o t rest
    | some e => do
      if (arms t e).any needsFlattening then return 2
      let own := if ← (arms t e).anyM o.maybeComponent then 1 else 0
      return max own (← flatteningLevel o t rest)

/-- A single child that loops is a list by itself. -/
def loneLoop? (t : Tree) (children : List Nat) : Option (Nat × Element) :=
  match children with
  | [c] =>
    match t.element? c with
    | some e => if e.loops && !e.hasTag "template" && !e.hasTag "slot" then some (c, e) else none
    | none => none
  | _ => none

/-- The code of one child. -/
def emitNode (self : Emit) (i : Nat) : GenM Code := do
  match (← nodeAt i).content with
  | .element _ => self (.element i {})
  | .comment text => return Code.callHelper .empty (Code.text text.compact)
  | .text text =>
    return Code.callHelper .text (Code.text (Json.escapeSeparators text.compact))
  | .expression code _ => return Code.callHelper .text (Code.text code.shown)

/-- The level of a single child that loops, if it is wanted. -/
def loopLevel (o : Options) (loop : Element) (wanted : Bool) : Except Failure (Option Nat) :=
  if wanted then (o.maybeComponent loop).map fun component => some (if component then 1 else 0)
  else .ok none

/-- The level of a list of children, if it is wanted. -/
def listLevel (o : Options) (t : Tree) (children : List Nat) (wanted : Bool) : Except Failure Nat :=
  if wanted then flatteningLevel o t children else .ok 0

/-- The children of an element, with their level if it is wanted. -/
def emitChildren (o : Options) (self : Emit) (e : Element) (withLevel : Bool) : GenM Children := do
  let t := (← get).tree
  if e.children.isEmpty then return .none
  match loneLoop? t e.children with
  | some (c, loop) =>
    let level ← liftFailure (loopLevel o loop withLevel)
    return .bare (← self (.element c {})) level
  | none =>
    let level ← liftFailure (listLevel o t e.children withLevel)
    return .list (← e.children.mapM (emitNode self)) level

end Generator

end TemplateCompiler
