import Mathlib.Logic.Relation
import TemplateCompiler.Proofs.Plugin.Frame
import TemplateCompiler.Proofs.Tree.Unflag

/-!
# Parts of a tree

The analysis follows the links to children and to the later blocks of a chain (`Visits`); generation follows
these, the first block, and the links to slot definitions (`Emits`). In a tree whose slots are apart, nothing
that stands in a slot definition is visited by the analysis. A tree with shared nodes may fail to have its
slots apart, since a slot definition can be the block of a chain as well.

Plugins change the bindings of elements while code is generated. `Resembles` is what stays: the same elements
apart from their bindings.
-/

namespace TemplateCompiler.Tree

/-- The links that the analysis follows. -/
def Visits (t : Tree) (i j : Nat) : Prop :=
  ∃ e, t.element? i = some e ∧ j ∈ e.children ++ e.branchBlocks

/-- The links that generation follows. -/
def Emits (t : Tree) (i j : Nat) : Prop :=
  ∃ e, t.element? i = some e ∧
    (j ∈ e.children ∨ j ∈ e.conditions.map Condition.block ∨ j ∈ e.scopedSlots.map Prod.snd)

/-- Whether `j` stands in a slot definition of the template from `r`. -/
def InSlot (t : Tree) (r j : Nat) : Prop :=
  ∃ i e s, Relation.ReflTransGen t.Emits r i ∧ t.element? i = some e ∧
    s ∈ e.scopedSlots.map Prod.snd ∧ Relation.ReflTransGen t.Emits s j

/-- Nothing that stands in a slot definition is visited by the analysis. -/
def SlotsApart (t : Tree) : Prop :=
  ∀ r, t.root = some r → ∀ j, t.InSlot r j → ¬Relation.ReflTransGen t.Visits r j

/-- No element is rendered once, written verbatim, or has an inline template. -/
def Ordinary (t : Tree) : Prop :=
  ∀ i e, t.element? i = some e →
    e.once.truthy = false ∧ e.pre.truthy = false ∧ e.inlineTemplate.truthy = false

theorem ordinary_iff (t : Tree) : t.Ordinary ↔ ∀ n ∈ t.nodes.toList, ∀ e ∈ n.element?.toList,
    e.once.truthy = false ∧ e.pre.truthy = false ∧ e.inlineTemplate.truthy = false := by
  simp only [Ordinary, element?, node?, Option.bind_eq_some_iff, Option.mem_toList]
  constructor
  · intro h n hn e he
    obtain ⟨i, hi⟩ := List.mem_iff_getElem?.mp hn
    exact h i e ⟨n, by rw [← Array.getElem?_toList, hi], he⟩
  · rintro h i e ⟨n, hn, he⟩
    exact h n (List.mem_iff_getElem?.mpr ⟨i, by rw [Array.getElem?_toList, hn]⟩) e he

instance (t : Tree) : Decidable t.Ordinary :=
  decidable_of_iff _ t.ordinary_iff.symm

/-- The same elements, apart from their bindings. -/
def Resembles (t u : Tree) : Prop :=
  ∀ i, (u.element? i).map Element.unbound = (t.element? i).map Element.unbound

namespace Resembles

variable {t u : Tree} {i : Nat} {e : Element}

theorem of_unflag (h : t.unflag = u.unflag) : t.Resembles u := by
  intro i
  rw [element?_eq_of_unflag h]

theorem modifyElement (h : t.Resembles u) {f : Element → Element}
    (hf : ∀ e, u.element? i = some e → (f e).unbound = e.unbound) :
    t.Resembles (u.modifyElement i f) := by
  intro j
  rw [← h j, element?_modifyElement]
  split
  · next hij =>
    subst hij
    rcases he : u.element? i with _ | e
    · rfl
    · simp [hf e he]
  · rfl

/-- The element of the one tree that an element of the other comes from. -/
theorem element (h : t.Resembles u) (he : u.element? i = some e) :
    ∃ e₀, t.element? i = some e₀ ∧ e₀.unbound = e.unbound := by
  have hi := h i
  rw [he, Option.map_some] at hi
  obtain ⟨e₀, he₀, heq⟩ := Option.map_eq_some_iff.mp hi.symm
  exact ⟨e₀, he₀, heq⟩

end Resembles

end TemplateCompiler.Tree
