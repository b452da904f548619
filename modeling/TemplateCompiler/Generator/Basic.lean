import TemplateCompiler.Code.Lift
import TemplateCompiler.Plugin.Basic
import TemplateCompiler.Tag
import TemplateCompiler.Tree.Basic

/-!
# The state of a generation

An element passes through stages: it may be hoisted, rendered once, repeated and tested, and what
is left is written as a node. `Stages` records which of them an element has been through on the way
to a piece of code. Plugins change the tree while code is generated, so the tree is part of the
state. So is the switch that is on while the code of a hoisted verbatim element is written, and so
are the functions and the once marks that are numbered while code is generated.

`Memo.query` finds whether an element or one above it is written verbatim, and remembers what it
found.
-/

namespace TemplateCompiler

/-- What generation reads and never changes. -/
structure Options where
  modules : List CompilerModule := []
  directives : DirectiveTable := []
  reserved : String → Bool := Tag.isReserved

/-- Elements that are dynamic components or have a tag of their own. -/
def Options.maybeComponent (o : Options) (e : Element) : Except Failure Bool :=
  if e.component.truthy then .ok true else (Tag.check o.reserved e.tag).map fun r => !r

structure Stages where
  hoisted : Bool := false
  once : Bool := false
  looped : Bool := false
  branched : Bool := false
  deriving DecidableEq, Repr

/-- A piece of code to generate: an element, an element that is rendered once, or the descriptor of
a slot definition. -/
inductive Task where
  | element (index : Nat) (done : Stages)
  | onceElement (index : Nat) (done : Stages)
  | slotEntry (index : Nat) (done : Stages)
  deriving DecidableEq, Repr

/-- What was found out about verbatim elements. -/
abbrev Memo := Table Nat Bool

/-- Whether an element or one above it is verbatim, climbing at most `fuel` steps. -/
def Memo.query (t : Tree) : Nat → Nat → Memo → Bool × Memo
  | 0, _, memo => (false, memo)
  | fuel + 1, i, memo =>
    match Table.get? i memo with
    | some known => (known, memo)
    | none =>
      if (t.element? i).any fun e => e.pre.truthy then (true, Table.put i true memo)
      else
        match t.parent? i with
        | some p =>
          let (above, memo) := Memo.query t fuel p memo
          (above, Table.put i above memo)
        | none => (false, Table.put i false memo)

structure Generation where
  tree : Tree
  memo : Memo := []
  warnings : List Warning := []
  /-- Whether the code stands in a verbatim hoist. -/
  verbatim : Bool := false
  lifted : Lifted := {}

abbrev GenM := ExceptT Failure (StateM Generation)

/-- Generates a task. -/
abbrev Emit := Task → GenM Code

namespace Generator

def warn (w : Warning) : GenM Unit :=
  modify fun s => { s with warnings := s.warnings ++ [w] }

def nodeAt (i : Nat) : GenM Node := do
  match (← get).tree.node? i with
  | some n => return n
  | none => throw (.dangling i)

def elementAt (i : Nat) : GenM Element := do
  match (← nodeAt i).element? with
  | some e => return e
  | none => throw (.dangling i)

def siteOf (i : Nat) : GenM Site := do
  return { index := i, span := (← get).tree.span i }

def flagsOf (i : Nat) : GenM Flags := do
  return (← get).tree.flags i

def isVerbatim (i : Nat) : GenM Bool := do
  let s ← get
  let (verbatim, memo) := Memo.query s.tree (s.tree.size + 1) i s.memo
  set { s with memo := memo }
  return verbatim

def setVerbatim (on : Bool) : GenM Unit :=
  modify fun s => { s with verbatim := on }

def liftFailure {α : Type} (x : Except Failure α) : GenM α :=
  match x with
  | .ok a => pure a
  | .error e => throw e

/-- Runs an action and then puts the bindings of element `i` back, also if the action failed. -/
def restoringBindings {α : Type} (i : Nat) (bindings : Bindings) (act : GenM α) : GenM α :=
  ExceptT.mk do
    let result ← act.run
    modify fun s => { s with
      tree := s.tree.modifyElement i fun e => { e with toBindings := bindings } }
    return result

end Generator

end TemplateCompiler
