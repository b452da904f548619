import TemplateCompiler.Generator.Slots
import TemplateCompiler.Generator.Data

/-!
# Trees without their flags

`Tree.unflag` drops the flags of all nodes. What a tree looks like otherwise, its elements, its links up
and down and everything computed from them, does not depend on the flags; changing an element commutes
with dropping the flags, and changing flags leaves nothing behind.
-/

namespace TemplateCompiler

def Node.unflag (n : Node) : Node :=
  { n with flags := {} }

@[simp] theorem Node.element?_unflag (n : Node) : n.unflag.element? = n.element? := rfl

@[simp] theorem Node.parent_unflag (n : Node) : n.unflag.parent = n.parent := rfl

@[simp] theorem Node.content_unflag (n : Node) : n.unflag.content = n.content := rfl

@[simp] theorem Node.span_unflag (n : Node) : n.unflag.span = n.span := rfl

@[simp] theorem Node.flags_unflag (n : Node) : n.unflag.flags = {} := rfl

@[simp] theorem Node.flags_mapElement (f : Element → Element) (n : Node) :
    (n.mapElement f).flags = n.flags := by
  unfold Node.mapElement; split <;> rfl

@[simp] theorem Node.parent_mapElement (f : Element → Element) (n : Node) :
    (n.mapElement f).parent = n.parent := by
  unfold Node.mapElement; split <;> rfl

@[simp] theorem Node.span_mapElement (f : Element → Element) (n : Node) :
    (n.mapElement f).span = n.span := by
  unfold Node.mapElement; split <;> rfl

theorem Node.unflag_mapElement (f : Element → Element) (n : Node) :
    (n.mapElement f).unflag = n.unflag.mapElement f := by
  unfold Node.mapElement; cases h : n.content <;> simp [h, Node.unflag]

@[simp] theorem Node.element?_mapElement (f : Element → Element) (n : Node) :
    (n.mapElement f).element? = n.element?.map f := by
  unfold Node.mapElement Node.element?; cases h : n.content <;> simp [h]

namespace Tree

def unflag (t : Tree) : Tree :=
  { t with nodes := t.nodes.map Node.unflag }

@[simp] theorem node?_unflag (t : Tree) (i : Nat) :
    t.unflag.node? i = (t.node? i).map Node.unflag := by
  simp [unflag, node?]

@[simp] theorem unflag_unflag (t : Tree) : t.unflag.unflag = t.unflag := by
  simp only [unflag, Array.map_map]
  rfl

@[simp] theorem root_unflag (t : Tree) : t.unflag.root = t.root := rfl

@[simp] theorem size_unflag (t : Tree) : t.unflag.size = t.size := by
  simp [unflag, size]

@[simp] theorem element?_unflag (t : Tree) (i : Nat) : t.unflag.element? i = t.element? i := by
  unfold element?; rw [node?_unflag]; cases t.node? i <;> rfl

@[simp] theorem parent?_unflag (t : Tree) (i : Nat) : t.unflag.parent? i = t.parent? i := by
  unfold parent?; rw [node?_unflag]; cases t.node? i <;> rfl

@[simp] theorem span_unflag (t : Tree) (i : Nat) : t.unflag.span i = t.span i := by
  unfold span; rw [node?_unflag]; cases t.node? i <;> rfl

@[simp] theorem flags_unflag (t : Tree) (i : Nat) : t.unflag.flags i = {} := by
  unfold flags; rw [node?_unflag]; cases t.node? i <;> rfl

/-- Trees are equal if their roots and their nodes are. -/
theorem ext_node? {t u : Tree} (hr : t.root = u.root) (h : ∀ i, t.node? i = u.node? i) : t = u := by
  cases t; cases u
  simp only [Tree.mk.injEq] at hr ⊢
  exact ⟨Array.ext_getElem? h, hr⟩

@[simp] theorem node?_modifyNode (t : Tree) (i j : Nat) (f : Node → Node) :
    (t.modifyNode i f).node? j = if i = j then (t.node? j).map f else t.node? j := by
  simp [modifyNode, node?, Array.getElem?_modify]

@[simp] theorem size_modifyNode (t : Tree) (i : Nat) (f : Node → Node) :
    (t.modifyNode i f).size = t.size := by
  simp [modifyNode, size]

@[simp] theorem root_modifyNode (t : Tree) (i : Nat) (f : Node → Node) :
    (t.modifyNode i f).root = t.root := rfl

@[simp] theorem flags_modifyElement (t : Tree) (i j : Nat) (f : Element → Element) :
    (t.modifyElement i f).flags j = t.flags j := by
  unfold flags modifyElement; rw [node?_modifyNode]
  split <;> cases t.node? j <;> simp

@[simp] theorem parent?_modifyElement (t : Tree) (i j : Nat) (f : Element → Element) :
    (t.modifyElement i f).parent? j = t.parent? j := by
  unfold parent? modifyElement; rw [node?_modifyNode]
  split <;> cases t.node? j <;> simp

@[simp] theorem size_modifyElement (t : Tree) (i : Nat) (f : Element → Element) :
    (t.modifyElement i f).size = t.size := size_modifyNode t i _

theorem element?_modifyElement (t : Tree) (i j : Nat) (f : Element → Element) :
    (t.modifyElement i f).element? j = if i = j then (t.element? j).map f else t.element? j := by
  unfold element? modifyElement; rw [node?_modifyNode]
  split <;> cases t.node? j <;> simp

theorem unflag_modifyElement (t : Tree) (i : Nat) (f : Element → Element) :
    (t.modifyElement i f).unflag = t.unflag.modifyElement i f := by
  refine ext_node? rfl fun j => ?_
  unfold modifyElement
  rw [node?_unflag, node?_modifyNode, node?_modifyNode, node?_unflag]
  split <;> cases t.node? j <;> simp [Node.unflag_mapElement]

theorem unflag_modifyFlags (t : Tree) (i : Nat) (f : Flags → Flags) :
    (t.modifyFlags i f).unflag = t.unflag := by
  refine ext_node? rfl fun j => ?_
  unfold modifyFlags
  rw [node?_unflag, node?_modifyNode, node?_unflag]
  split <;> cases t.node? j <;> rfl

theorem flags_modifyFlags (t : Tree) (i j : Nat) (f : Flags → Flags) :
    (t.modifyFlags i f).flags j =
      if i = j ∧ (t.node? j).isSome then f (t.flags j) else t.flags j := by
  unfold flags modifyFlags
  rw [node?_modifyNode]
  rcases t.node? j with _ | n <;> by_cases h : i = j <;> simp [h, Node.mapFlags]

theorem modifyFlags_modifyFlags (t : Tree) (i : Nat) (f g : Flags → Flags) :
    (t.modifyFlags i f).modifyFlags i g = t.modifyFlags i fun flags => g (f flags) := by
  refine ext_node? rfl fun j => ?_
  unfold modifyFlags
  simp only [node?_modifyNode]
  split
  · rw [Option.map_map]; rfl
  · rfl

/-! ## What does not depend on flags -/

theorem element?_eq_of_unflag {t u : Tree} (h : t.unflag = u.unflag) (i : Nat) :
    t.element? i = u.element? i := by
  rw [← element?_unflag, h, element?_unflag]

@[simp] theorem climb_unflag (t : Tree) (fuel i : Nat) : t.unflag.climb fuel i = t.climb fuel i := by
  induction fuel generalizing i with
  | zero => rfl
  | succ fuel ih => simp only [climb, parent?_unflag, ih]

@[simp] theorem ancestors_unflag (t : Tree) (i : Nat) : t.unflag.ancestors i = t.ancestors i := by
  simp [ancestors]

@[simp] theorem ancestorElements_unflag (t : Tree) (i : Nat) :
    t.unflag.ancestorElements i = t.ancestorElements i := by
  have helement : t.unflag.element? = t.element? := funext (element?_unflag t)
  rw [ancestorElements, ancestors_unflag, helement, ancestorElements]

theorem ancestorElements_eq_of_unflag {t u : Tree} (h : t.unflag = u.unflag) (i : Nat) :
    t.ancestorElements i = u.ancestorElements i := by
  rw [← ancestorElements_unflag, h, ancestorElements_unflag]

@[simp] theorem hasOutletWithin_unflag (t : Tree) (fuel i : Nat) :
    t.unflag.hasOutletWithin fuel i = t.hasOutletWithin fuel i := by
  induction fuel generalizing i with
  | zero => rfl
  | succ fuel ih => simp only [hasOutletWithin, element?_unflag, funext ih]

@[simp] theorem hasOutlet_unflag (t : Tree) (i : Nat) : t.unflag.hasOutlet i = t.hasOutlet i := by
  simp [hasOutlet]

/-! ## What all nodes have -/

/-- The content of every node has `p`. -/
def Contents (p : Content → Prop) (t : Tree) : Prop :=
  ∀ i n, t.node? i = some n → p n.content

namespace Contents

variable {p : Content → Prop} {t u : Tree} {i : Nat} {e : Element}

theorem element (h : t.Contents p) (he : t.element? i = some e) : p (.element e) := by
  obtain ⟨n, hn, hne⟩ := Option.bind_eq_some_iff.mp he
  have hcontent := h i n hn
  unfold Node.element? at hne
  split at hne <;> cases hne
  next hc => rwa [hc] at hcontent

theorem modifyElement (h : t.Contents p) {f : Element → Element} (hf : ∀ e, p (.element e) → p (.element (f e))) :
    (t.modifyElement i f).Contents p := by
  intro j n hn
  rw [Tree.modifyElement, node?_modifyNode] at hn
  split at hn
  · obtain ⟨m, hm, rfl⟩ := Option.map_eq_some_iff.mp hn
    have hcontent := h j m hm
    unfold Node.mapElement
    split
    · next hc => exact hf _ (hc ▸ hcontent)
    · exact hcontent
  · exact h j n hn

/-- Flags are no part of the content. -/
theorem of_unflag (h : t.Contents p) (hu : u.unflag = t.unflag) : u.Contents p := by
  intro i n hn
  have hnode : (u.node? i).map Node.unflag = (t.node? i).map Node.unflag := by
    rw [← node?_unflag, hu, node?_unflag]
  rw [hn, Option.map_some, eq_comm, Option.map_eq_some_iff] at hnode
  obtain ⟨m, hm, hmn⟩ := hnode
  have hcontent : m.content = n.content := by rw [← Node.content_unflag, hmn, Node.content_unflag]
  exact hcontent ▸ h i m hm

end Contents

end Tree

namespace Generator

@[simp] theorem arms_unflag (t : Tree) (e : Element) : arms t.unflag e = arms t e := by
  simp [arms]

@[simp] theorem loneLoop?_unflag (t : Tree) (children : List Nat) :
    loneLoop? t.unflag children = loneLoop? t children := by
  unfold loneLoop?
  split <;> simp only [Tree.element?_unflag]

@[simp] theorem flatteningLevel_unflag (o : Options) (t : Tree) (children : List Nat) :
    flatteningLevel o t.unflag children = flatteningLevel o t children := by
  induction children with
  | nil => rfl
  | cons c rest ih => simp only [flatteningLevel, Tree.element?_unflag, arms_unflag, ih]

@[simp] theorem listLevel_unflag (o : Options) (t : Tree) (children : List Nat) (wanted : Bool) :
    listLevel o t.unflag children wanted = listLevel o t children wanted := by
  simp [listLevel]

@[simp] theorem isUnstable_unflag (t : Tree) (i : Nat) : isUnstable t.unflag i = isUnstable t i := by
  simp only [isUnstable, Tree.element?_unflag, Tree.hasOutlet_unflag]

@[simp] theorem updateHint_unflag (t : Tree) (i : Nat) (e : Element) :
    updateHint t.unflag i e = updateHint t i e := by
  rw [updateHint, funext (isUnstable_unflag t), Tree.ancestorElements_unflag]
  rfl

@[simp] theorem firstElement?_unflag (t : Tree) (e : Element) :
    firstElement? t.unflag e = firstElement? t e := by
  simp [firstElement?]

end Generator

end TemplateCompiler
