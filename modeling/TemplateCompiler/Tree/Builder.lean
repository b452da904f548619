import TemplateCompiler.Tree.Basic

/-!
# Building trees

Nodes are added one at a time below nodes that are already there. Adding a node gives the new tree
and the index of the node.
-/

namespace TemplateCompiler

/-- The scope of a slot that binds nothing. -/
def emptySlotScope : String := "_empty_"

/-- An element to add: its tag and raw attributes, further fields, and whether it is plain, where
that is known. -/
structure Draft where
  tag : Json
  attrs : List (Json × Json) := []
  fill : Node → Node := id
  plain : Option Json := none

/-- An element is plain if it has no key, no scoped slots and no attributes. -/
def Element.looksPlain (e : Element) : Bool :=
  !e.key.truthy && e.scopedSlots.isEmpty && e.attrsList.isEmpty

/-- The node of a draft. `prepare` sets fields that the draft may then set otherwise. -/
def Draft.node (d : Draft) (prepare : Element → Element) : Node :=
  let attrs := d.attrs.map fun a => ({ name := a.1, value := a.2 } : Attr)
  let base : Element :=
    { tag := d.tag
      attrsList := attrs
      attrsMap := Table.ofList (attrs.map fun a => (a.name, a.value))
      rawAttrsMap := Table.ofList (attrs.map fun a => (a.name, a)) }
  (d.fill (Node.ofElement (prepare base))).mapElement fun e =>
    { e with plain := d.plain.getD (.bool e.looksPlain) }

/-- An element under a test begins its own conditional chain. -/
def Element.seedConditions (index : Nat) (e : Element) : Element :=
  if e.tested && e.conditions.isEmpty then { e with conditions := [⟨e.ifExpr, index⟩] } else e

namespace Tree

/-- Registers a node below `parent` without listing it there. -/
def adopt (t : Tree) (n : Node) (parent : Option Nat) : Tree × Nat :=
  ({ t with nodes := t.nodes.push { n with parent := parent } }, t.size)

/-- Adds a node as the last child of `parent`. Without a parent, the first element becomes the
root. -/
def attach (t : Tree) (n : Node) (parent : Option Nat) : Tree × Nat :=
  let (t', i) := t.adopt n parent
  match parent with
  | some p => (t'.modifyElement p fun e => { e with children := e.children ++ [i] }, i)
  | none =>
    if t.root.isNone && n.element?.isSome then ({ t' with root := some i }, i) else (t', i)

/-- The tree whose only node is the given root. -/
def ofRoot (n : Node) : Tree :=
  let (t, i) := ({} : Tree).adopt n none
  { t with root := some i }

def addElement (t : Tree) (d : Draft) (parent : Option Nat) : Tree × Nat :=
  t.attach ((d.node id).mapElement (Element.seedConditions t.size)) parent

def addCondition (t : Tree) (owner : Nat) (c : Condition) : Tree :=
  t.modifyElement owner fun e => { e with conditions := e.conditions ++ [c] }

/-- Adds a branch to the conditional chain of `owner`. The new element stands beside the owner and
is no child. -/
def addBranch (t : Tree) (owner : Nat) (expression : Json) (d : Draft) : Tree × Nat :=
  let prepare (e : Element) : Element :=
    if expression.isNull then { e with isElse := .bool true } else { e with elseIf := expression }
  let node := (d.node prepare).mapElement (Element.seedConditions t.size)
  let (t', i) := t.adopt node (t.parent? owner)
  (t'.addCondition owner ⟨expression, i⟩, i)

/-- Adds a slot definition to `host` under the name `target`. -/
def addScopedSlot (t : Tree) (host : Nat) (target scope dynamic : Json) (d : Draft) :
    Tree × Nat :=
  let prepare (e : Element) : Element :=
    { e with slotTarget := target, slotTargetDynamic := dynamic, slotScope := scope }
  let node := (d.node prepare).mapElement (Element.seedConditions t.size)
  let (t', i) := t.adopt node (some host)
  (t'.modifyElement host fun e =>
    { e with scopedSlots := Table.put target i e.scopedSlots, plain := .bool false }, i)

end Tree

end TemplateCompiler
