import TemplateCompiler.Proofs.Tree.Regions

/-!
# Trees whose nodes are listed once

An element lists its children, its slot definitions and the blocks of its chain. In a `Linked` tree a
node comes after the element that lists it and after the one above it, the two agree with each other, and
no node is listed twice. There the elements above a child are those above its parent and the parent itself
(`Linked.ancestors_child`), a block stands beside the owner of its chain (`Linked.ancestors_block`), and
the slots are apart (`Linked.slotsApart`).
-/

namespace TemplateCompiler

/-- The ways in which an element lists a node. -/
inductive Link where
  | child
  | slot
  | block
  deriving DecidableEq

def Element.listed (e : Element) : Link → List Nat
  | .child => e.children
  | .slot => e.scopedSlots.map Prod.snd
  | .block => e.conditions.map Condition.block

namespace Tree

/-- Element `i` lists `j`. That an element is a block of its own chain does not count. -/
def Lists (t : Tree) (k : Link) (i j : Nat) : Prop :=
  ∃ e, t.element? i = some e ∧ j ∈ e.listed k ∧ (k = .block → j ≠ i)

def Unlisted (t : Tree) (j : Nat) : Prop :=
  ∀ k i, ¬t.Lists k i j

structure Linked (t : Tree) : Prop where
  above : ∀ {i p}, t.parent? i = some p → p < i
  below : ∀ {k i j}, t.Lists k i j →
    i < j ∧ j < t.size ∧ t.parent? j = if k = .block then t.parent? i else some i
  single : ∀ {k k' i i' j}, t.Lists k i j → t.Lists k' i' j → i = i' ∧ k = k'

variable {t t' : Tree} {i j : Nat}

theorem lt_size_of_element? {e : Element} (h : t.element? i = some e) : i < t.size := by
  obtain ⟨n, hn, -⟩ := Option.bind_eq_some_iff.mp h
  exact (Array.getElem?_eq_some_iff.mp hn).1

theorem lt_size_of_parent? {p : Nat} (h : t.parent? i = some p) : i < t.size := by
  obtain ⟨n, hn, -⟩ := Option.bind_eq_some_iff.mp h
  exact (Array.getElem?_eq_some_iff.mp hn).1

/-! ## The links that are followed -/

theorem lists_of_branchBlocks {e : Element} (he : t.element? i = some e) (hj : j ∈ e.branchBlocks) :
    j = i ∨ t.Lists .block i j := by
  obtain ⟨c, hc, rfl⟩ := List.mem_map.mp hj
  by_cases hij : c.block = i
  · exact .inl hij
  · exact .inr ⟨e, he, List.mem_map_of_mem (List.mem_of_mem_drop hc), fun _ => hij⟩

theorem lists_of_visits (h : t.Visits i j) : j = i ∨ t.Lists .child i j ∨ t.Lists .block i j := by
  obtain ⟨e, he, hj⟩ := h
  rcases List.mem_append.mp hj with hj | hj
  · exact .inr (.inl ⟨e, he, hj, nofun⟩)
  · exact (lists_of_branchBlocks he hj).imp_right .inr

theorem lists_of_emits (h : t.Emits i j) : j = i ∨ ∃ k, t.Lists k i j := by
  obtain ⟨e, he, hj | hj | hj⟩ := h
  · exact .inr ⟨.child, e, he, hj, nofun⟩
  · by_cases hij : j = i
    · exact .inl hij
    · exact .inr ⟨.block, e, he, hj, fun _ => hij⟩
  · exact .inr ⟨.slot, e, he, hj, nofun⟩

/-- The last link of a path that leads somewhere else. -/
theorem lists_of_path (h : Relation.ReflTransGen t.Emits i j) :
    j = i ∨ ∃ k m, Relation.ReflTransGen t.Emits i m ∧ t.Lists k m j := by
  induction h with
  | refl => exact .inl rfl
  | tail hm hstep ih =>
    rcases lists_of_emits hstep with rfl | ⟨k, hk⟩
    · exact ih
    · exact .inr ⟨k, _, hm, hk⟩

/-! ## The elements above a node -/

theorem climb_of_parent? {fuel : Nat} (h : t.parent? i = t.parent? j) :
    t.climb fuel i = t.climb fuel j := by
  cases fuel with
  | zero => rfl
  | succ fuel => rw [climb, climb, h]

theorem ancestors_of_parent?_none (h : t.parent? i = none) : t.ancestors i = [] := by
  unfold ancestors
  cases t.size with
  | zero => rfl
  | succ n => rw [climb, h]

/-- Trees of one size with the same parents have the same ways up. -/
theorem ancestors_congr (hsize : t'.size = t.size) (hparents : ∀ i, t'.parent? i = t.parent? i) (i : Nat) :
    t'.ancestors i = t.ancestors i := by
  have hclimb (fuel : Nat) : ∀ i, t'.climb fuel i = t.climb fuel i := by
    induction fuel with
    | zero => exact fun _ => rfl
    | succ fuel ih =>
      intro i
      rw [climb, climb, hparents i]
      simp only [ih]
  rw [ancestors, ancestors, hsize, hclimb]

namespace Linked

/-- The way up from `i` has at most `i` steps. -/
theorem climb_succ (h : t.Linked) {fuel : Nat} (hi : i ≤ fuel) :
    t.climb (fuel + 1) i = t.climb fuel i := by
  induction fuel generalizing i with
  | zero =>
    obtain rfl : i = 0 := by omega
    rcases hp : t.parent? 0 with _ | p
    · show t.climb 1 0 = []
      rw [climb, hp]
    · exact absurd (h.above hp) (Nat.not_lt_zero p)
  | succ fuel ih =>
    rw [climb]
    rcases hp : t.parent? i with _ | p
    · rw [climb, hp]
    · have hlt : p < i := h.above hp
      have hrest : t.climb (fuel + 1) p = t.climb fuel p := ih (by omega)
      rw [climb, hp]
      dsimp only
      rw [hrest]

theorem ancestors_of_parent? (h : t.Linked) (hj : j < t.size) (hp : t.parent? j = some i) :
    t.ancestors j = i :: t.ancestors i := by
  have hlt : i < j := h.above hp
  obtain ⟨n, hn⟩ : ∃ n, t.size = n + 1 := ⟨t.size - 1, by omega⟩
  have hrest : t.climb (n + 1) i = t.climb n i := h.climb_succ (by omega)
  rw [ancestors, ancestors, hn, hrest, climb, hp]

theorem ancestors_child (h : t.Linked) (hl : t.Lists .child i j) :
    t.ancestors j = i :: t.ancestors i := by
  obtain ⟨-, hj, hp⟩ := h.below hl
  exact h.ancestors_of_parent? hj hp

theorem ancestors_block (h : t.Linked) (hl : t.Lists .block i j) : t.ancestors j = t.ancestors i := by
  obtain ⟨-, -, hp⟩ := h.below hl
  exact climb_of_parent? hp

/-! ## Slots -/

/-- Neither a node that the analysis visits nor one above it is a slot definition. -/
theorem not_slot_of_visits (h : t.Linked) {r : Nat} (hr : t.Unlisted r) (hp : t.parent? r = none)
    (hv : Relation.ReflTransGen t.Visits r j) : ∀ a ∈ j :: t.ancestors j, ∀ i, ¬t.Lists .slot i a := by
  induction hv with
  | refl =>
    intro a ha i
    rw [ancestors_of_parent?_none hp, List.mem_singleton] at ha
    exact ha ▸ hr .slot i
  | @tail m j _ hstep ih =>
    rcases lists_of_visits hstep with rfl | hl | hl
    · exact ih
    · rw [h.ancestors_child hl]
      refine List.forall_mem_cons.mpr ⟨fun i hi => ?_, ih⟩
      exact nomatch (h.single hl hi).2
    · rw [h.ancestors_block hl]
      refine List.forall_mem_cons.mpr ⟨fun i hi => ?_, (List.forall_mem_cons.mp ih).2⟩
      exact nomatch (h.single hl hi).2

/-- The slots of a linked tree are apart: a path down from a slot definition and one from the root that
end at the same node would share their last links, up to the slot definition. -/
theorem slotsApart (h : t.Linked) (hroot : ∀ r, t.root = some r → t.Unlisted r) : t.SlotsApart := by
  rintro r hr j ⟨i₀, e, s, -, he, hs, hj⟩ hv
  have hslot : t.Lists .slot i₀ s := ⟨e, he, hs, nofun⟩
  induction hv with
  | refl =>
    rcases lists_of_path hj with rfl | ⟨k, m, -, hl⟩
    · exact hroot r hr _ _ hslot
    · exact hroot r hr _ _ hl
  | @tail m j _ hstep ih =>
    rcases lists_of_visits hstep with rfl | hl | hl
    · exact ih hj
    all_goals
      rcases lists_of_path hj with rfl | ⟨k, m', hm', hl'⟩
      · exact nomatch (h.single hl hslot).2
      · obtain ⟨rfl, -⟩ := h.single hl hl'
        exact ih hm'

end Linked

end Tree

end TemplateCompiler
