import TemplateCompiler.Tree.Element

/-!
# Template trees

A tree is an arena: every node has an index, elements list the indices of what is below them, and
every node knows the index of the element above it. The flags of a node are the results of the
static analysis and no part of the template.
-/

namespace TemplateCompiler

/-- Results of the static analysis; a flag that was never written is null. Parsed templates may
bring flags of their own. -/
structure Flags where
  constant : Json := .null
  root : Json := .null
  inLoop : Json := .null
  deriving DecidableEq, Repr

inductive Content where
  | element (e : Element)
  | text (text : Json)
  | expression (code raw : Json)
  | comment (text : Json)
  deriving DecidableEq, Repr

structure Node where
  parent : Option Nat := none
  span : Span := {}
  flags : Flags := {}
  content : Content
  deriving DecidableEq, Repr

namespace Node

def element? (n : Node) : Option Element :=
  match n.content with
  | .element e => some e
  | _ => none

def ofElement (e : Element) : Node :=
  { content := .element e }

/-- Changes the element of a node; other nodes stay as they are. -/
def mapElement (f : Element → Element) (n : Node) : Node :=
  match n.content with
  | .element e => { n with content := .element (f e) }
  | _ => n

def mapFlags (f : Flags → Flags) (n : Node) : Node :=
  { n with flags := f n.flags }

end Node

structure Tree where
  nodes : Array Node := #[]
  root : Option Nat := none
  deriving DecidableEq, Repr

namespace Tree

def size (t : Tree) : Nat :=
  t.nodes.size

def node? (t : Tree) (i : Nat) : Option Node :=
  t.nodes[i]?

def element? (t : Tree) (i : Nat) : Option Element :=
  (t.node? i).bind Node.element?

def parent? (t : Tree) (i : Nat) : Option Nat :=
  (t.node? i).bind Node.parent

def span (t : Tree) (i : Nat) : Span :=
  ((t.node? i).map Node.span).getD {}

def flags (t : Tree) (i : Nat) : Flags :=
  ((t.node? i).map Node.flags).getD {}

def modifyNode (t : Tree) (i : Nat) (f : Node → Node) : Tree :=
  { t with nodes := t.nodes.modify i f }

def modifyElement (t : Tree) (i : Nat) (f : Element → Element) : Tree :=
  t.modifyNode i (Node.mapElement f)

def modifyFlags (t : Tree) (i : Nat) (f : Flags → Flags) : Tree :=
  t.modifyNode i (Node.mapFlags f)

/-- The indices above `i`, nearest first, at most `fuel` of them. -/
def climb (t : Tree) : Nat → Nat → List Nat
  | 0, _ => []
  | fuel + 1, i =>
    match t.parent? i with
    | some p => p :: t.climb fuel p
    | none => []

/-- The indices of the elements above `i`, nearest first. -/
def ancestors (t : Tree) (i : Nat) : List Nat :=
  t.climb t.size i

/-- The elements above `i`, nearest first. -/
def ancestorElements (t : Tree) (i : Nat) : List Element :=
  (t.ancestors i).filterMap t.element?

/-- Whether a `<slot>` outlet stands in the element or among its children, down to depth `fuel`. -/
def hasOutletWithin (t : Tree) : Nat → Nat → Bool
  | 0, _ => false
  | fuel + 1, i =>
    match t.element? i with
    | some e => e.hasTag "slot" || e.children.any (t.hasOutletWithin fuel)
    | none => false

def hasOutlet (t : Tree) (i : Nat) : Bool :=
  t.hasOutletWithin (t.size + 1) i

end Tree

end TemplateCompiler
