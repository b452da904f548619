import TemplateCompiler.Tree.Basic

/-!
# Walking a tree

`Tree.walk` lists the nodes below the root with a stack of pending nodes: the node itself, then what
is below its children, its branch blocks and its scoped slots.
-/

namespace TemplateCompiler.Tree

/-- What a walk takes after node `i`. -/
def below (t : Tree) (i : Nat) : List Nat :=
  ((t.element? i).map Element.below).getD []

/-- Takes at most `fuel` nodes from the stack, each time putting what is below the node on top. -/
def walkFrom (t : Tree) : Nat → List Nat → List Nat
  | _, [] => []
  | 0, _ => []
  | fuel + 1, i :: stack => i :: t.walkFrom fuel (t.below i ++ stack)

/-- The number of links from elements to what is below them. -/
def linkCount (t : Tree) : Nat :=
  t.nodes.toList.foldl (fun count n => count + ((n.element?.map Element.below).getD []).length) 0

/-- The walk. Paths of a tree are made of different links: there are at most `2 ^ linkCount`. -/
def walk (t : Tree) : List Nat :=
  match t.root with
  | some r => t.walkFrom (Nat.pow 2 t.linkCount) [r]
  | none => []

end TemplateCompiler.Tree
