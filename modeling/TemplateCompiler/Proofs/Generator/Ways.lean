import TemplateCompiler.Proofs.Generator.Marks
import TemplateCompiler.Proofs.Tree.Links

/-!
# The way to a mark

Generation follows the links to children and to slot definitions, and from a tested element those to the blocks of
its chain (`Tree.Follows`), but not to the chain a second time once an element has been through it
(`Task.Follows`). Every mark in the budget of a task belongs to the element of the task or to one to which such a
way leads (`leads_of_budget`), and an outlet belongs to a `<slot>`.
-/

namespace TemplateCompiler

open Relation

def Mark.owner : Mark → Nat
  | .hoist i | .outlet i => i

/-- The links that generation follows, apart from an element to itself. -/
inductive Tree.Follows (t : Tree) (i j : Nat) : Prop
  | child (h : t.Lists .child i j)
  | slot (h : t.Lists .slot i j)
  | block {e : Element} (he : t.element? i = some e) (ht : e.tested = true) (h : t.Lists .block i j)

/-- The links that are still followed from a task. -/
inductive Task.Follows (t : Tree) (s : Task) (j : Nat) : Prop
  | child (h : t.Lists .child s.index j)
  | slot (h : t.Lists .slot s.index j)
  | block (hb : s.done.branched = false) {e : Element} (he : t.element? s.index = some e) (ht : e.tested = true)
      (h : t.Lists .block s.index j)

theorem Task.Follows.toTree {t : Tree} {s : Task} {j : Nat} (h : s.Follows t j) : t.Follows s.index j := by
  cases h with
  | child h => exact .child h
  | slot h => exact .slot h
  | block _ he ht h => exact .block he ht h

namespace Generator

/-- A mark that may come from a task. -/
structure Leads (t : Tree) (s : Task) (x : Mark) : Prop where
  way : x.owner = s.index ∨ ∃ j, s.Follows t j ∧ ReflTransGen t.Follows j x.owner
  outlet : ∀ j, x = .outlet j → ∃ e, t.element? j = some e ∧ e.hasTag "slot" = true

variable {t : Tree} {b : Task → Multiset Mark} {i : Nat} {e : Element} {done : Stages} {slot : Bool} {x : Mark}

theorem Leads.path {s : Task} (h : Leads t s x) : ReflTransGen t.Follows s.index x.owner := by
  rcases h.way with hown | ⟨j, hj, hpath⟩
  · rw [hown]
  · exact .head hj.toTree hpath

/-- A task below leads to what this one leads to. -/
theorem Leads.follow {s s' : Task} (h : Leads t s' x) (hs : s.Follows t s'.index) : Leads t s x :=
  ⟨.inr ⟨_, hs, h.path⟩, h.outlet⟩

/-- A task for the same element that has been through more stages. -/
theorem Leads.again {s s' : Task} (h : Leads t s' x) (hi : s'.index = s.index)
    (hd : s.done.branched = true → s'.done.branched = true) : Leads t s x := by
  refine ⟨h.way.imp (fun hown => hown.trans hi) ?_, h.outlet⟩
  rintro ⟨j, hj, hpath⟩
  refine ⟨j, ?_, hpath⟩
  cases hj with
  | child h => exact .child (hi ▸ h)
  | slot h => exact .slot (hi ▸ h)
  | block hb he ht h =>
    refine .block ?_ (hi ▸ he) ht (hi ▸ h)
    rw [Bool.eq_false_iff] at hb ⊢
    exact fun h => hb (hd h)

theorem mem_sum_map {α : Type} {xs : List α} {f : α → Multiset Mark} :
    x ∈ (xs.map f).sum ↔ ∃ a ∈ xs, x ∈ f a := by
  induction xs with
  | nil => simp
  | cons a xs ih => rw [List.map_cons, List.sum_cons, Multiset.mem_add, ih, List.exists_mem_cons_iff]

section

variable {s : Task} (hb : ∀ s, x ∈ b s → Leads t s x) (hi : s.index = i)

include hb hi

theorem leads_of_childShare (he : t.element? i = some e) (h : x ∈ childShare b e) : Leads t s x := by
  obtain ⟨c, hc, h⟩ := mem_sum_map.mp h
  exact (hb _ h).follow (.child (hi ▸ ⟨e, he, hc, nofun⟩))

theorem leads_of_slotShare (he : t.element? i = some e) (h : x ∈ slotShare b e) : Leads t s x := by
  obtain ⟨d, hd, h⟩ := mem_sum_map.mp h
  exact (hb _ h).follow (.slot (hi ▸ ⟨e, he, List.mem_map_of_mem hd, nofun⟩))

variable (hd : s.done.branched = done.branched)

include hd

theorem leads_of_hoistShare (h : x ∈ hoistShare b i done) : Leads t s x := by
  rcases Multiset.mem_cons.mp h with rfl | h
  · exact ⟨.inl hi.symm, nofun⟩
  · exact (hb _ h).again hi.symm hd.symm.trans

variable (he : t.element? i = some e)

include he

theorem leads_of_armShare {done' : Stages} (ht : e.tested = true) (hbranched : done.branched = false)
    (h : x ∈ armShare t b i e done' slot) : Leads t s x := by
  obtain ⟨c, hc, h⟩ := mem_sum_map.mp h
  by_cases hown : c.block = i
  · refine (hb _ h).again (by rw [index_armTask, hown, hi]) fun hs => ?_
    rw [hd, hbranched] at hs
    cases hs
  · have hblock : t.Lists .block s.index c.block :=
      hi ▸ ⟨e, he, List.mem_map_of_mem hc, fun _ => hown⟩
    exact (hb _ h).follow (.block (hd.trans hbranched) (hi ▸ he) ht (by rwa [index_armTask]))

theorem leads_of_onceShare (h : x ∈ onceShare t b i e done) : Leads t s x := by
  unfold onceShare at h
  dsimp only at h
  split at h
  · next htest =>
    rw [Bool.and_eq_true, Bool.not_eq_true'] at htest
    exact leads_of_armShare hb hi hd he htest.1 htest.2 h
  split at h
  · have hd' : s.done.branched = { done with once := true : Stages }.branched := hd
    exact leads_of_hoistShare hb hi hd' h
  · exact (hb _ h).again hi.symm hd.symm.trans

theorem leads_of_placeShare (h : x ∈ placeShare t b i e done) : Leads t s x := by
  unfold placeShare at h
  split at h
  · exact (hb _ h).again hi.symm hd.symm.trans
  split at h
  · next htest =>
    rw [Bool.and_eq_true, Bool.not_eq_true'] at htest
    exact leads_of_armShare hb hi hd he htest.1 htest.2 h
  split at h
  · next hslot =>
    rcases Multiset.mem_cons.mp h with rfl | h
    · refine ⟨.inl hi.symm, ?_⟩
      rintro j ⟨⟩
      exact ⟨e, he, hslot⟩
    · exact leads_of_childShare hb hi he h
  · rcases Multiset.mem_add.mp h with h | h
    · exact leads_of_childShare hb hi he h
    · exact leads_of_slotShare hb hi he h

theorem leads_of_elementShare (h : x ∈ elementShare t b i e done) : Leads t s x := by
  unfold elementShare at h
  split at h
  · exact leads_of_hoistShare hb hi hd h
  split at h
  · exact leads_of_onceShare hb hi hd he h
  · exact leads_of_placeShare hb hi hd he h

theorem leads_of_entryShare (h : x ∈ entryShare t b i e done) : Leads t s x := by
  unfold entryShare at h
  split at h
  · next htest =>
    rw [Bool.and_eq_true, Bool.and_eq_true, Bool.not_eq_true'] at htest
    exact leads_of_armShare hb hi hd he htest.1.1 htest.1.2 h
  split at h
  · exact (hb _ h).again hi.symm hd.symm.trans
  split at h
  · exact leads_of_childShare hb hi he h
  · exact (hb _ h).again hi.symm hd.symm.trans

end

/-- Every mark in the budget of a task is one that the task leads to. -/
theorem leads_of_budget {fuel : Nat} {s : Task} (h : x ∈ budget t fuel s) : Leads t s x := by
  induction fuel generalizing s with
  | zero => exact absurd h (Multiset.notMem_zero _)
  | succ fuel ih =>
    have hstep {f : Element → Multiset Mark} {i : Nat} (h : x ∈ ((t.element? i).map f).getD 0)
        (hf : ∀ e, t.element? i = some e → x ∈ f e → Leads t s x) : Leads t s x := by
      rcases he : t.element? i with _ | e
      · rw [he] at h
        exact absurd h (Multiset.notMem_zero _)
      · rw [he] at h
        exact hf e he h
    cases s with
    | element i done => exact hstep h fun e he => leads_of_elementShare (fun s => ih) rfl rfl he
    | onceElement i done => exact hstep h fun e he => leads_of_onceShare (fun s => ih) rfl rfl he
    | slotEntry i done => exact hstep h fun e he => leads_of_entryShare (fun s => ih) rfl rfl he

end Generator

end TemplateCompiler
