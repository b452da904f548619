import Mathlib.Data.Finset.Card
import Mathlib.Order.Monotone.Basic
import TemplateCompiler.Proofs.Tree.References

/-!
# Above and below a node

Two searches of the generator, by what they find. `Tree.hasOutlet` finds a `<slot>` element exactly if there
is one on some way down along children (`hasOutlet_iff`), in trees with shared nodes and cycles too: the
elements from which an outlet is found grow with the depth of the search, and there are no more of them than
nodes. In a tree in good order `Tree.ancestors` lists exactly the elements above a node, at any distance
(`WellFormed.mem_ancestors`).
-/

namespace TemplateCompiler.Tree

open Relation

/-- An outlet stands in element `i` or below it, along children. -/
def HoldsOutlet (t : Tree) (i : Nat) : Prop :=
  ∃ j e, ReflTransGen (t.Lists .child) i j ∧ t.element? j = some e ∧ e.hasTag "slot" = true

/-- Element `p` stands above `i`, at any distance. -/
def Above (t : Tree) (i p : Nat) : Prop :=
  TransGen (fun i p => t.parent? i = some p) i p

variable {t : Tree} {i j : Nat} {e : Element}

/-! ## Outlets -/

theorem lists_child (he : t.element? i = some e) (hj : j ∈ e.children) : t.Lists .child i j :=
  ⟨e, he, hj, nofun⟩

theorem hasOutletWithin_succ (he : t.element? i = some e) (fuel : Nat) :
    t.hasOutletWithin (fuel + 1) i = true ↔
      e.hasTag "slot" = true ∨ ∃ c ∈ e.children, t.hasOutletWithin fuel c = true := by
  rw [hasOutletWithin, he]
  simp only [Bool.or_eq_true, List.any_eq_true]

theorem element?_of_hasOutletWithin {fuel : Nat} (h : t.hasOutletWithin fuel i = true) :
    ∃ e, t.element? i = some e := by
  cases fuel with
  | zero => cases h
  | succ fuel =>
    rw [hasOutletWithin] at h
    split at h
    · exact ⟨_, ‹_›⟩
    · cases h

theorem holdsOutlet_of_within {fuel : Nat} (h : t.hasOutletWithin fuel i = true) : t.HoldsOutlet i := by
  induction fuel generalizing i with
  | zero => cases h
  | succ fuel ih =>
    obtain ⟨e, he⟩ := element?_of_hasOutletWithin h
    rcases (hasOutletWithin_succ he fuel).mp h with hslot | ⟨c, hc, hbelow⟩
    · exact ⟨i, e, .refl, he, hslot⟩
    · obtain ⟨j, e', hpath, hj⟩ := ih hbelow
      exact ⟨j, e', .head (lists_child he hc) hpath, hj⟩

theorem within_of_holdsOutlet (h : t.HoldsOutlet i) : ∃ fuel, t.hasOutletWithin fuel i = true := by
  obtain ⟨j, e, hpath, he, hslot⟩ := h
  induction hpath using ReflTransGen.head_induction_on with
  | refl => exact ⟨1, (hasOutletWithin_succ he 0).mpr (.inl hslot)⟩
  | head hstep _ ih =>
    obtain ⟨fuel, hfuel⟩ := ih
    obtain ⟨e', he', hc, -⟩ := hstep
    exact ⟨fuel + 1, (hasOutletWithin_succ he' fuel).mpr (.inr ⟨_, hc, hfuel⟩)⟩

theorem hasOutletWithin_add_one {fuel : Nat} (h : t.hasOutletWithin fuel i = true) :
    t.hasOutletWithin (fuel + 1) i = true := by
  induction fuel generalizing i with
  | zero => cases h
  | succ fuel ih =>
    obtain ⟨e, he⟩ := element?_of_hasOutletWithin h
    refine (hasOutletWithin_succ he (fuel + 1)).mpr ?_
    exact ((hasOutletWithin_succ he fuel).mp h).imp_right fun ⟨c, hc, hbelow⟩ => ⟨c, hc, ih hbelow⟩

/-- The elements from which a search of bounded depth finds an outlet. -/
def holders (t : Tree) (fuel : Nat) : Finset Nat :=
  (Finset.range t.size).filter fun i => t.hasOutletWithin fuel i = true

theorem mem_holders {fuel : Nat} : i ∈ t.holders fuel ↔ t.hasOutletWithin fuel i = true := by
  rw [holders, Finset.mem_filter, Finset.mem_range]
  refine and_iff_right_of_imp fun h => ?_
  obtain ⟨e, he⟩ := element?_of_hasOutletWithin h
  exact lt_size_of_element? he

theorem holders_mono (t : Tree) : Monotone t.holders := by
  refine monotone_nat_of_le_succ fun fuel i hi => ?_
  exact mem_holders.mpr (hasOutletWithin_add_one (mem_holders.mp hi))

/-- Once a deeper search finds no more, none does. -/
theorem holders_stable {fuel : Nat} (h : t.holders (fuel + 1) ⊆ t.holders fuel) :
    t.holders (fuel + 2) ⊆ t.holders (fuel + 1) := by
  intro i hi
  have hwithin := mem_holders.mp hi
  obtain ⟨e, he⟩ := element?_of_hasOutletWithin hwithin
  refine mem_holders.mpr ((hasOutletWithin_succ he fuel).mpr ?_)
  refine ((hasOutletWithin_succ he (fuel + 1)).mp hwithin).imp_right fun ⟨c, hc, hbelow⟩ => ⟨c, hc, ?_⟩
  exact mem_holders.mp (h (mem_holders.mpr hbelow))

theorem card_holders_eq {fuel : Nat} (h : t.size ≤ fuel) :
    (t.holders fuel).card = (t.holders t.size).card := by
  refine Nat.stabilises_of_monotone (fun a b hab => Finset.card_le_card (t.holders_mono hab)) (fun fuel => ?_)
    (fun fuel heq => ?_) h
  · exact (Finset.card_filter_le ..).trans_eq (Finset.card_range _)
  · have hstep : t.holders fuel = t.holders (fuel + 1) :=
      Finset.eq_of_subset_of_card_le (t.holders_mono (Nat.le_succ fuel)) heq.ge
    exact congrArg Finset.card
      ((t.holders_mono (Nat.le_succ _)).antisymm (holders_stable hstep.ge))

theorem hasOutlet_iff (t : Tree) (i : Nat) : t.hasOutlet i = true ↔ t.HoldsOutlet i := by
  refine ⟨holdsOutlet_of_within, fun h => ?_⟩
  obtain ⟨fuel, hfuel⟩ := within_of_holdsOutlet h
  -- A search that is deep enough finds no more than one down to the size of the arena.
  have hdeep : i ∈ t.holders (max fuel t.size) := t.holders_mono (Nat.le_max_left ..) (mem_holders.mpr hfuel)
  have heq : t.holders t.size = t.holders (max fuel t.size) :=
    Finset.eq_of_subset_of_card_le (t.holders_mono (Nat.le_max_right ..))
      (card_holders_eq (Nat.le_max_right ..)).le
  rw [← heq, mem_holders] at hdeep
  exact hasOutletWithin_add_one hdeep

/-! ## Ancestors -/

theorem Ascent.mem_iff {is : List Nat} (h : t.Ascent i is) : j ∈ is ↔ t.Above i j := by
  induction h with
  | top h =>
    refine ⟨nofun, fun hj => ?_⟩
    obtain ⟨p, hp, -⟩ := TransGen.head'_iff.mp hj
    rw [h] at hp
    cases hp
  | @up i p is h _ ih =>
    rw [List.mem_cons, ih]
    constructor
    · rintro (rfl | hj)
      · exact .single h
      · exact .head h hj
    · intro hj
      obtain ⟨p', hp', hrest⟩ := TransGen.head'_iff.mp hj
      obtain rfl : p = p' := Option.some.inj (h.symm.trans hp')
      exact (reflTransGen_iff_eq_or_transGen.mp hrest).imp_left fun heq => heq

theorem WellFormed.mem_ancestors (h : t.WellFormed) : j ∈ t.ancestors i ↔ t.Above i j :=
  (h.ascent i).mem_iff

theorem WellFormed.mem_ancestorElements (h : t.WellFormed) :
    e ∈ t.ancestorElements i ↔ ∃ p, t.Above i p ∧ t.element? p = some e := by
  simp only [ancestorElements, List.mem_filterMap, h.mem_ancestors]

end TemplateCompiler.Tree
