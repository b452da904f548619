import TemplateCompiler.Generator.Data

/-!
# Generating code for a tree

`Generator.step` generates a task, given how to generate the tasks below it; `Generator.run` ties
the knot for a bounded depth. An element is hoisted, rendered once, repeated and tested, in this
order, before it becomes a template's children, an outlet, or a node.
-/

namespace TemplateCompiler.Generator

variable [p : Placement]

/-- A template in code is its children. -/
def emitFragment (o : Options) (self : Emit) (i : Nat) (e : Element) : GenM Code := do
  let children ← emitChildren o self e false
  return .fragment i (children.code?.getD (Code.text "void 0"))

/-- The children of a node; those of an inline template stand in its data. -/
def emitNodeChildren (o : Options) (self : Emit) (e : Element) : GenM Children :=
  if e.inlineTemplate.truthy then return .none else emitChildren o self e true

/-- A dynamic component always has data. -/
def emitComponent (o : Options) (self : Emit) (i : Nat) (e : Element) (name : String) :
    GenM Code := do
  let children ← emitNodeChildren o self e
  let data ← emitData o self i
  return .create i true name (Code.text "," ++ data) children.argument

/-- Whether the data object of an element is written. A plain element has none, unless it is a
component in a verbatim part. -/
def needsData (o : Options) (i : Nat) (e : Element) : GenM Bool := do
  if !e.plain.truthy then return true
  if !(← isVerbatim i) then return false
  liftFailure (o.maybeComponent e)

/-- The data argument of an element, if it has one. -/
def emitDataArgument (o : Options) (self : Emit) (i : Nat) (e : Element) : GenM Code := do
  if ← needsData o i e then return Code.text "," ++ (← emitData o self i)
  else return Code.empty

/-- An element or a component by its tag. -/
def emitPlain (o : Options) (self : Emit) (i : Nat) (e : Element) : GenM Code := do
  let data ← emitDataArgument o self i e
  let e ← elementAt i
  let children ← emitNodeChildren o self e
  return .create i false ("'" ++ e.tag.shown ++ "'") data children.argument

/-- A node by its component or its tag. -/
def emitBare (o : Options) (self : Emit) (i : Nat) (e : Element) : GenM Code :=
  match e.component.filled? with
  | some name => emitComponent o self i e name
  | none => emitPlain o self i e

/-- A node, as the modules leave it. -/
def emitCreate (o : Options) (self : Emit) (i : Nat) (e : Element) : GenM Code := do
  let code ← emitBare o self i e
  let e ← elementAt i
  return o.modules.foldl (fun code m => m.transform e code) code

/-- An element that is neither hoisted nor rendered once. -/
def emitInPlace (o : Options) (self : Emit) (i : Nat) (e : Element) (done : Stages) :
    GenM Code := do
  if e.loops && !done.looped then emitLoop o self i e done false
  else if e.tested && !done.branched then emitBranches self i e done false
  else if e.hasTag "template" && !e.slotTarget.truthy && !(← get).verbatim then
    emitFragment o self i e
  else if e.hasTag "slot" then emitOutlet o self i e
  else emitCreate o self i e

/-- The first stage that still applies to an element. -/
def emitElement (o : Options) (self : Emit) (i : Nat) (done : Stages) : GenM Code := do
  let e ← elementAt i
  if (← flagsOf i).root.truthy && !done.hoisted then emitHoisted self i done
  else if e.once.truthy && !done.once then emitOnce self i done
  else emitInPlace o self i e done

def step (o : Options) (self : Emit) : Emit
  | .element i done => emitElement o self i done
  | .onceElement i done => emitOnce self i done
  | .slotEntry i done => emitSlotEntry o self i done

/-- Generates a task down to a bounded depth. -/
def run (o : Options) : Nat → Emit
  | 0 => fun _ => throw .tooDeep
  | fuel + 1 => step o (run o fuel)

/-- No element is entered more than eight times on the way down to another one. -/
def depth (t : Tree) : Nat :=
  8 * (t.size + 1)

/-- The code of a template from `root`. An empty template renders an empty element. -/
def emitRoot (o : Options) (root : Option Nat) : GenM Code := do
  match root with
  | none => return Code.callHelper .create (Code.text "\"div\"")
  | some i => emitTemplate (run o (depth (← get).tree)) i (← elementAt i)

end Generator

/-- What a generation leaves: the code unless it failed, the tree, the warnings, and what was
numbered on the way. -/
structure Generated where
  code : Except Failure Code
  tree : Tree
  warnings : List Warning
  lifted : Lifted

/-- Generates the code of a tree from `root`, or from the tree's own root. -/
def Tree.generate [p : Placement] (t : Tree) (o : Options) (root : Option Nat) : Generated :=
  let (code, s) := (Generator.emitRoot o (root.or t.root)).run.run { tree := t }
  { code := code, tree := s.tree, warnings := s.warnings, lifted := s.lifted }

end TemplateCompiler
