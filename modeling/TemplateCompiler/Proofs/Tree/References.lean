import Mathlib.Data.List.Nodup
import Mathlib.Data.List.Pairwise
import TemplateCompiler.Proofs.Tree.Links

/-!
# Arenas in good order

`Tree.references` names every node as often as an element lists it. In a `WellFormed` tree the parent of a
node is an element before it, whatever lists a node agrees with the parent of the node, and no node is
referenced twice. Such a tree is linked (`WellFormed.linked`), and the way up from each of its nodes ends,
with smaller and smaller indices (`WellFormed.ascent`, `WellFormed.pairwise_ancestors`).
-/

namespace TemplateCompiler.Tree

/-- What element `i` lists, as often as it lists it. That it is a block of its own chain does not
count. -/
def links (t : Tree) (i : Nat) (k : Link) : List Nat :=
  ((t.element? i).map fun e => (e.listed k).filter fun j => k ≠ .block ∨ j ≠ i).getD []

def refs (t : Tree) (i : Nat) : List Nat :=
  t.links i .child ++ t.links i .slot ++ t.links i .block

/-- All that is listed anywhere in the arena, as often as it is listed. -/
def references (t : Tree) : List Nat :=
  (List.range t.size).flatMap t.refs

/-- The rules of an arena. A child or a slot definition stands under the element that lists it, and the
block of a chain beside the element that owns the chain. -/
structure WellFormed (t : Tree) : Prop where
  above : ∀ {i p}, t.parent? i = some p → p < i ∧ (t.element? p).isSome
  inside : ∀ {k i j}, t.Lists k i j → j < t.size
  under : ∀ {k i j}, k ≠ .block → t.Lists k i j → t.parent? j = some i
  beside : ∀ {i j}, t.Lists .block i j → t.parent? j = t.parent? i ∧ i < j
  single : t.references.Nodup

/-- What the rules ask for beyond links that agree. -/
structure Whole (t : Tree) : Prop where
  parents : ∀ {i p}, t.parent? i = some p → (t.element? p).isSome
  nodup : ∀ i k, (t.links i k).Nodup

/-- `is` are the nodes above `i`, nearest first, up to one that stands under none. -/
inductive Ascent (t : Tree) : Nat → List Nat → Prop
  | top {i : Nat} (h : t.parent? i = none) : Ascent t i []
  | up {i p : Nat} {is : List Nat} (h : t.parent? i = some p) (rest : Ascent t p is) :
      Ascent t i (p :: is)

variable {t : Tree} {i j : Nat} {k : Link}

theorem mem_links : j ∈ t.links i k ↔ t.Lists k i j := by
  unfold links Lists
  rcases t.element? i with _ | e
  · simp
  · simp [imp_iff_not_or]

theorem mem_refs : j ∈ t.refs i ↔ ∃ k, t.Lists k i j := by
  simp only [refs, List.mem_append, mem_links]
  constructor
  · rintro ((h | h) | h)
    exacts [⟨_, h⟩, ⟨_, h⟩, ⟨_, h⟩]
  · rintro ⟨k, h⟩
    cases k with
    | child => exact .inl (.inl h)
    | slot => exact .inl (.inr h)
    | block => exact .inr h

theorem Lists.lt_size (h : t.Lists k i j) : i < t.size := by
  obtain ⟨e, he, -⟩ := h
  exact lt_size_of_element? he

theorem mem_references : j ∈ t.references ↔ ∃ k i, t.Lists k i j := by
  simp only [references, List.mem_flatMap, List.mem_range, mem_refs]
  constructor
  · rintro ⟨i, -, k, h⟩
    exact ⟨k, i, h⟩
  · rintro ⟨k, i, h⟩
    exact ⟨i, h.lt_size, k, h⟩

namespace Linked

/-- No node is referenced twice: one element lists it, in one way, and once. -/
theorem nodup_references (h : t.Linked) (hlinks : ∀ i k, (t.links i k).Nodup) : t.references.Nodup := by
  have hdisjoint {k k' : Link} {i i' : Nat} (hne : ¬(i = i' ∧ k = k')) :
      List.Disjoint (t.links i k) (t.links i' k') :=
    fun _ hj hj' => hne (h.single (mem_links.mp hj) (mem_links.mp hj'))
  refine List.nodup_flatMap.mpr ⟨fun i _ => ?_, ?_⟩
  · refine List.nodup_append'.mpr ⟨List.nodup_append'.mpr ⟨hlinks i _, hlinks i _, ?_⟩, hlinks i _, ?_⟩
    · exact hdisjoint (by simp)
    · exact List.disjoint_append_left.mpr ⟨hdisjoint (by simp), hdisjoint (by simp)⟩
  · refine List.nodup_range.imp fun {i i'} hne => ?_
    have hfar (k k' : Link) : List.Disjoint (t.links i k) (t.links i' k') :=
      hdisjoint fun heq => hne heq.1
    simp only [Function.onFun, refs, List.disjoint_append_left, List.disjoint_append_right, hfar, and_self]

theorem wellFormed (h : t.Linked) (hw : t.Whole) : t.WellFormed where
  above hp := ⟨h.above hp, hw.parents hp⟩
  inside hl := (h.below hl).2.1
  under hk hl := (h.below hl).2.2.trans (if_neg hk)
  beside hl := ⟨(h.below hl).2.2, (h.below hl).1⟩
  single := h.nodup_references hw.nodup

end Linked

namespace WellFormed

/-- Two places that list the same node are one place. -/
theorem place_eq (h : t.WellFormed) {k' : Link} {i' : Nat} (hl : t.Lists k i j)
    (hl' : t.Lists k' i' j) : i = i' ∧ k = k' := by
  obtain ⟨hlinks, hpairwise⟩ := List.nodup_flatMap.mp h.single
  obtain rfl : i = i' := by
    have : Std.Symm (Function.onFun List.Disjoint t.refs) := ⟨fun _ _ => List.disjoint_symm⟩
    by_contra hne
    exact hpairwise.forall (List.mem_range.mpr hl.lt_size) (List.mem_range.mpr hl'.lt_size) hne
      (mem_refs.mpr ⟨k, hl⟩) (mem_refs.mpr ⟨k', hl'⟩)
  refine ⟨rfl, ?_⟩
  have hi := hlinks i (List.mem_range.mpr hl.lt_size)
  simp only [refs, List.nodup_append', List.disjoint_append_left] at hi
  obtain ⟨⟨-, -, hcs⟩, -, hcb, hsb⟩ := hi
  rw [← mem_links] at hl hl'
  cases k <;> cases k' <;> first
    | rfl
    | exact absurd hl' (hcs hl)
    | exact absurd hl (hcs hl')
    | exact absurd hl' (hcb hl)
    | exact absurd hl (hcb hl')
    | exact absurd hl' (hsb hl)
    | exact absurd hl (hsb hl')

theorem linked (h : t.WellFormed) : t.Linked where
  above hp := (h.above hp).1
  below {k i j} hl := by
    by_cases hk : k = .block
    · subst hk
      obtain ⟨hp, hlt⟩ := h.beside hl
      exact ⟨hlt, h.inside hl, hp⟩
    · have hp := h.under hk hl
      exact ⟨(h.above hp).1, h.inside hl, by rw [if_neg hk, hp]⟩
  single := h.place_eq

/-! ## The way up -/

theorem ascent_climb (h : t.WellFormed) {fuel : Nat} (hi : i ≤ fuel) : t.Ascent i (t.climb fuel i) := by
  induction fuel generalizing i with
  | zero =>
    obtain rfl : i = 0 := by omega
    rcases hp : t.parent? 0 with _ | p
    · exact .top hp
    · exact absurd (h.above hp).1 (Nat.not_lt_zero p)
  | succ fuel ih =>
    rw [climb]
    rcases hp : t.parent? i with _ | p
    · exact .top hp
    · have hlt : p < i := (h.above hp).1
      exact .up hp (ih (by omega))

theorem ascent (h : t.WellFormed) (i : Nat) : t.Ascent i (t.ancestors i) := by
  by_cases hi : i ≤ t.size
  · exact h.ascent_climb hi
  · have hnone : t.parent? i = none := by
      rw [parent?, node?, Array.getElem?_eq_none (by unfold size at hi; omega)]
      rfl
    exact ancestors_of_parent?_none hnone ▸ .top hnone

theorem pairwise_of_ascent (h : t.WellFormed) {is : List Nat} (ha : t.Ascent i is) :
    (i :: is).Pairwise (· > ·) := by
  induction ha with
  | top => exact List.pairwise_singleton ..
  | @up i p is hp _ ih =>
    have hlt : p < i := (h.above hp).1
    refine List.pairwise_cons.mpr ⟨fun a ha => ?_, ih⟩
    rcases List.mem_cons.mp ha with rfl | ha
    · exact hlt
    · exact Nat.lt_trans ((List.pairwise_cons.mp ih).1 a ha) hlt

/-- Only elements stand above a node. -/
theorem isSome_of_ascent (h : t.WellFormed) {is : List Nat} (ha : t.Ascent i is) :
    ∀ a ∈ is, (t.element? a).isSome := by
  induction ha with
  | top => exact fun _ ha => nomatch ha
  | up hp _ ih => exact List.forall_mem_cons.mpr ⟨(h.above hp).2, ih⟩

end WellFormed

theorem Ascent.congr {u : Tree} {is : List Nat} (h : t.Ascent i is) (hparents : ∀ i, u.parent? i = t.parent? i) :
    u.Ascent i is := by
  induction h with
  | top hp => exact .top ((hparents _).trans hp)
  | up hp _ ih => exact .up ((hparents _).trans hp) ih

/-! ## Flags -/

theorem lists_of_unflag {u : Tree} (h : t.unflag = u.unflag) : t.Lists k i j ↔ u.Lists k i j := by
  unfold Lists
  rw [element?_eq_of_unflag h]

/-- Flags are no part of the order of a tree. -/
theorem WellFormed.of_unflag {u : Tree} (h : t.unflag = u.unflag) (hu : u.WellFormed) : t.WellFormed where
  above {i p} hp := by
    rw [← parent?_unflag, h, parent?_unflag] at hp
    rw [element?_eq_of_unflag h]
    exact hu.above hp
  inside hl := by
    rw [← size_unflag, h, size_unflag]
    exact hu.inside ((lists_of_unflag h).mp hl)
  under hk hl := by
    rw [← parent?_unflag, h, parent?_unflag]
    exact hu.under hk ((lists_of_unflag h).mp hl)
  beside {i j} hl := by
    rw [← parent?_unflag, ← parent?_unflag t i, h, parent?_unflag, parent?_unflag]
    exact hu.beside ((lists_of_unflag h).mp hl)
  single := by
    have hlinks : t.links = u.links := by
      funext i k
      rw [links, links, element?_eq_of_unflag h]
    have hsize : t.size = u.size := by rw [← size_unflag, h, size_unflag]
    have hrefs : t.refs = u.refs := funext fun i => by rw [refs, refs, hlinks]
    rw [references, hrefs, hsize]
    exact hu.single

end TemplateCompiler.Tree
