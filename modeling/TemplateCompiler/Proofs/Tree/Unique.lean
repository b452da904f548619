import TemplateCompiler.Proofs.Tree.References

/-!
# One way down

In a linked tree at most one way leads down from one node to another, since every node is listed in one place
only: two different nodes that an element lists have nothing in common below them (`Linked.disjoint`). In a tree in
good order an element lists a node once (`WellFormed.nodup_content`, `WellFormed.nodup_blocks`).
-/

namespace TemplateCompiler.Tree

open Relation

/-- Node `j` stands below `i`, at any distance and by any links, or is `i` itself. -/
def Reaches (t : Tree) : Nat → Nat → Prop :=
  ReflTransGen fun i j => ∃ k, t.Lists k i j

variable {t : Tree} {i j j' x : Nat} {k k' : Link}

namespace Linked

theorem le_of_reaches (h : t.Linked) (hr : t.Reaches i x) : i ≤ x := by
  induction hr with
  | refl => exact Nat.le_refl i
  | tail _ hstep ih =>
    obtain ⟨k, hk⟩ := hstep
    exact Nat.le_of_lt (Nat.lt_of_le_of_lt ih (h.below hk).1)

theorem not_reaches_lister (h : t.Linked) (hj : t.Lists k i j) : ¬t.Reaches j i :=
  fun hr => Nat.not_le_of_lt (h.below hj).1 (h.le_of_reaches hr)

/-- Of two nodes with a common node below them, one stands below the other. -/
theorem reaches_total (h : t.Linked) (hr : t.Reaches j x) (hr' : t.Reaches j' x) :
    t.Reaches j j' ∨ t.Reaches j' j := by
  have hunique : Relator.RightUnique (Function.swap fun i j => ∃ k, t.Lists k i j) :=
    fun _ _ _ ⟨_, ha⟩ ⟨_, hb⟩ => (h.single ha hb).1
  have hup := ReflTransGen.total_of_right_unique hunique (reflTransGen_swap.mpr hr) (reflTransGen_swap.mpr hr')
  exact hup.symm.imp reflTransGen_swap.mp reflTransGen_swap.mp

/-- The way from one node to another that the element `i` lists would lead through `i`. -/
theorem eq_of_reaches (h : t.Linked) (hj : t.Lists k i j) (hj' : t.Lists k' i j') (hr : t.Reaches j j') :
    j = j' := by
  rcases ReflTransGen.cases_tail_iff _ _ _ |>.mp hr with heq | ⟨m, hm, k'', hstep⟩
  · exact heq.symm
  · obtain ⟨rfl, -⟩ := h.single hstep hj'
    exact absurd hm (h.not_reaches_lister hj)

theorem disjoint (h : t.Linked) (hj : t.Lists k i j) (hj' : t.Lists k' i j') (hr : t.Reaches j x)
    (hr' : t.Reaches j' x) : j = j' := by
  rcases h.reaches_total hr hr' with hdown | hdown
  · exact h.eq_of_reaches hj hj' hdown
  · exact (h.eq_of_reaches hj' hj hdown).symm

end Linked

namespace WellFormed

variable {e : Element}

theorem nodup_refs (h : t.WellFormed) (i : Nat) : (t.refs i).Nodup := by
  by_cases hi : i < t.size
  · exact (List.nodup_flatMap.mp h.single).1 i (List.mem_range.mpr hi)
  · have hnone : t.element? i = none := by
      rw [element?, node?, Array.getElem?_eq_none (Nat.le_of_not_lt hi)]
      rfl
    simp [refs, links, hnone]

/-- An element lists no node twice as a child or a slot definition. -/
theorem nodup_content (h : t.WellFormed) (he : t.element? i = some e) :
    (e.children ++ e.scopedSlots.map Prod.snd).Nodup := by
  have hrefs := h.nodup_refs i
  simp only [refs, links, he, Option.map_some, Option.getD_some] at hrefs
  simpa [Element.listed] using (List.nodup_append.mp hrefs).1

/-- Nor as a block, if it is itself the first block of its chain only. -/
theorem nodup_blocks (h : t.WellFormed) (he : t.element? i = some e) (hi : i ∉ e.branchBlocks) :
    (e.conditions.map Condition.block).Nodup := by
  have hrefs := h.nodup_refs i
  simp only [refs, links, he, Option.map_some, Option.getD_some] at hrefs
  have hothers := (List.nodup_append.mp hrefs).2.1
  have hfilter (js : List Nat) (hjs : i ∉ js)
      (hnodup : (js.filter fun j => decide (Link.block ≠ .block ∨ j ≠ i)).Nodup) : js.Nodup := by
    rwa [List.filter_eq_self.mpr] at hnodup
    intro j hj
    exact decide_eq_true (.inr fun hji => hjs (hji ▸ hj))
  rcases hc : e.conditions with _ | ⟨c, rest⟩
  · exact List.nodup_nil
  · have htail : i ∉ rest.map Condition.block := by
      simpa [Element.branchBlocks, hc] using hi
    rw [Element.listed, hc, List.map_cons] at hothers
    by_cases hown : c.block = i
    · refine List.nodup_cons.mpr ⟨hown ▸ htail, hfilter _ htail ?_⟩
      rwa [List.filter_cons_of_neg (by simp [hown])] at hothers
    · exact hfilter _ (List.not_mem_cons_of_ne_of_not_mem (Ne.symm hown) htail) hothers

end WellFormed

end TemplateCompiler.Tree
