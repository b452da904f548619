import TemplateCompiler.Proofs.Generator.Ways
import TemplateCompiler.Proofs.Tree.Unique

/-!
# How often an element is hoisted

A task can hoist its own element as a static root and as one that is rendered once; `quota` counts what is left of
the two after the stages that the task has been through. Each link is followed once, so what a task hoists of
another element is hoisted by one task below, and `count_budget` says that no element is hoisted more often
than a fresh task for it may hoist it. That is once, unless the element is a static root, is rendered once and
stands in no loop (`quota_element_le`).
-/

namespace TemplateCompiler.Generator

open Relation

/-- How often an element may still be hoisted in place. -/
def elementQuota (f : Flags) (e : Element) (d : Stages) : Nat :=
  (f.root.truthy && !d.hoisted).toNat +
    (e.once.truthy && !f.inLoop.truthy && (!d.once || e.tested && !d.branched)).toNat

/-- How often an element may still be hoisted that is about to be rendered once. -/
def onceQuota (f : Flags) (d : Stages) : Nat :=
  if f.inLoop.truthy then (f.root.truthy && !d.hoisted).toNat else 1

def quota (t : Tree) : Task → Nat
  | .element i d | .slotEntry i d => ((t.element? i).map fun e => elementQuota (t.flags i) e d).getD 0
  | .onceElement i d => onceQuota (t.flags i) d

/-- An element that is hoisted as a static root and once more because it is rendered once. -/
def Twofold (t : Tree) (i : Nat) : Prop :=
  (t.flags i).root.truthy = true ∧ (t.flags i).inLoop.truthy = false ∧
    ∃ e, t.element? i = some e ∧ e.once.truthy = true

variable {t : Tree} {b : Task → Multiset Mark} {i x : Nat} {e : Element} {done : Stages} {slot : Bool}

/-! ## Quotas -/

theorem toNat_le_of_imp {p q : Bool} (h : p = true → q = true) : p.toNat ≤ q.toNat := by
  revert p q
  decide

theorem quota_element (he : t.element? i = some e) : quota t (.element i done) = elementQuota (t.flags i) e done := by
  rw [quota, he]
  rfl

theorem quota_slotEntry (i : Nat) (done : Stages) : quota t (.slotEntry i done) = quota t (.element i done) := rfl

theorem quota_element_le (t : Tree) (i : Nat) :
    quota t (.element i {}) ≤ 2 ∧ (¬Twofold t i → quota t (.element i {}) ≤ 1) := by
  rcases he : t.element? i with _ | e
  · simp [quota, he]
  rw [quota_element he]
  unfold elementQuota
  refine ⟨Nat.add_le_add (Bool.toNat_le _) (Bool.toNat_le _), fun h => ?_⟩
  cases hroot : (t.flags i).root.truthy <;> cases hloop : (t.flags i).inLoop.truthy <;>
    cases honce : e.once.truthy <;> simp
  exact h ⟨hroot, hloop, e, he, honce⟩

/-- After more stages there is less to hoist. -/
theorem elementQuota_anti {f : Flags} {d d' : Stages} (h : d ≤ d') : elementQuota f e d' ≤ elementQuota f e d := by
  obtain ⟨hhoisted, honce, -, hbranched⟩ := h
  have hnot {p q : Bool} (h : p = true → q = true) : q = false → p = false := by
    revert p q
    decide
  refine Nat.add_le_add (toNat_le_of_imp ?_) (toNat_le_of_imp ?_) <;>
    simp only [Bool.and_eq_true, Bool.or_eq_true, Bool.not_eq_true']
  · exact And.imp_right (hnot hhoisted)
  · exact And.imp_right (Or.imp (hnot honce) (And.imp_right (hnot hbranched)))

/-- Rendering an element once is one of its hoists in place. -/
theorem onceQuota_le {f : Flags} {d : Stages} (honce : e.once.truthy = true)
    (h : d.once = false ∨ e.tested = true ∧ d.branched = false) : onceQuota f d ≤ elementQuota f e d := by
  have hstage : (!d.once || e.tested && !d.branched) = true := by
    rcases h with h | ⟨ht, hb⟩
    · rw [h]; rfl
    · rw [ht, hb, Bool.not_false, Bool.and_true, Bool.or_true]
  rw [onceQuota, elementQuota, honce, hstage]
  cases f.inLoop.truthy <;> simp

theorem armTask_cases {P : Task → Prop} {block : Nat} {d : Stages} (hd : (if block = i then done else {}) = d)
    (hslot : P (.slotEntry block d)) (hplain : P (.element block d))
    (honce : ∀ e, t.element? block = some e → e.once.truthy = true → P (.onceElement block d)) :
    P (armTask t i done slot block) := by
  unfold armTask
  dsimp only
  rw [hd]
  split
  · exact hslot
  rcases he : t.element? block with _ | e
  · exact hplain
  · rw [Option.map_some, Option.getD_some]
    split
    · exact honce e he ‹_›
    · exact hplain

/-- An arm that is another element. -/
theorem quota_armTask_of_ne {block : Nat} (h : block ≠ i) :
    quota t (armTask t i done slot block) ≤ quota t (.element block {}) := by
  refine armTask_cases (P := fun s => quota t s ≤ _) (if_neg h) le_rfl le_rfl fun e he honce => ?_
  rw [quota_element he]
  exact onceQuota_le honce (.inl rfl)

/-- An arm that is the element itself. -/
theorem quota_armTask_self (he : t.element? i = some e) (ht : e.tested = true) (hd : done.branched = false) :
    quota t (armTask t i { done with branched := true } slot i) ≤ elementQuota (t.flags i) e done := by
  have hle : done ≤ { done with branched := true } := ⟨id, id, id, fun _ => rfl⟩
  have hplain : quota t (.element i { done with branched := true }) ≤ elementQuota (t.flags i) e done := by
    rw [quota_element he]
    exact elementQuota_anti hle
  refine armTask_cases (P := fun s => quota t s ≤ _) (if_pos rfl) hplain hplain fun e' he' honce => ?_
  obtain rfl := Option.some.inj (he.symm.trans he')
  exact onceQuota_le (f := t.flags i) (d := done) honce (.inr ⟨ht, hd⟩)

/-- An arm that is the element itself, which is about to be rendered once. -/
theorem quota_armTask_once (he : t.element? i = some e) :
    quota t (armTask t i { done with once := true, branched := true } slot i) ≤ onceQuota (t.flags i) done := by
  have hplain : quota t (.element i { done with once := true, branched := true }) ≤ onceQuota (t.flags i) done := by
    rw [quota_element he, elementQuota, onceQuota]
    cases (t.flags i).inLoop.truthy <;> simp [Bool.toNat_le]
  exact armTask_cases (P := fun s => quota t s ≤ _) (if_pos rfl) hplain hplain fun _ _ _ => le_rfl

/-! ## Sums -/

/-- A sum with no two terms that both count. -/
theorem count_sum_le_of_pairwise {α : Type} {xs : List α} {f : α → Multiset Mark} {m : Mark} {n : Nat}
    (hle : ∀ a ∈ xs, (f a).count m ≤ n) (h : xs.Pairwise fun a a' => (f a).count m = 0 ∨ (f a').count m = 0) :
    (xs.map f).sum.count m ≤ n := by
  induction xs with
  | nil => exact Nat.zero_le n
  | cons a xs ih =>
    obtain ⟨ha, hxs⟩ := List.forall_mem_cons.mp hle
    obtain ⟨hfirst, hrest⟩ := List.pairwise_cons.mp h
    rw [List.map_cons, List.sum_cons, Multiset.count_add]
    by_cases hzero : (f a).count m = 0
    · rw [hzero, Nat.zero_add]
      exact ih hxs hrest
    · have hothers : (xs.map f).sum.count m = 0 := by
        refine Multiset.count_eq_zero.mpr fun hm => ?_
        obtain ⟨a', ha', hm⟩ := mem_sum_map.mp hm
        exact Multiset.count_eq_zero.mp ((hfirst a' ha').resolve_left hzero) hm
      rwa [hothers, Nat.add_zero]

/-- Tasks of which no two hoist `x`. -/
theorem count_sum_le {ss : List Task} {n : Nat} (hle : ∀ s ∈ ss, (b s).count (.hoist x) ≤ n)
    (hindex : (ss.map Task.index).Nodup)
    (hapart : ∀ s ∈ ss, ∀ s' ∈ ss, s.index ≠ s'.index →
      (b s).count (.hoist x) = 0 ∨ (b s').count (.hoist x) = 0) :
    ((ss.map b).sum).count (.hoist x) ≤ n := by
  refine count_sum_le_of_pairwise hle ?_
  exact (List.pairwise_map.mp hindex).imp_of_mem fun hs hs' hne => hapart _ hs _ hs' hne

/-! ## The tasks below an element -/

theorem reaches_of_follows {j : Nat} (h : ReflTransGen t.Follows i j) : t.Reaches i j := by
  refine h.lift id fun _ _ hstep => ?_
  cases hstep with
  | child h | slot h | block _ _ h => exact ⟨_, h⟩

/-- What is left to show of the tasks below: a mark comes from where its way leads, and no task hoists `x` more
often than it may. -/
structure Fair (t : Tree) (x : Nat) (b : Task → Multiset Mark) : Prop where
  leads : ∀ {s}, .hoist x ∈ b s → Leads t s (.hoist x)
  own : ∀ {s}, s.index = x → (b s).count (.hoist x) ≤ quota t s
  below : ∀ {s}, s.index ≠ x → (b s).count (.hoist x) ≤ quota t (.element x {})

namespace Fair

variable (hb : Fair t x b)

include hb

theorem count_le {s : Task} (h : quota t s ≤ quota t (.element s.index {})) :
    (b s).count (.hoist x) ≤ quota t (.element x {}) := by
  by_cases hs : s.index = x
  · exact (hb.own hs).trans (hs ▸ h)
  · exact hb.below hs

theorem reaches {s : Task} (h : (b s).count (.hoist x) ≠ 0) : t.Reaches s.index x :=
  reaches_of_follows (hb.leads (Multiset.count_ne_zero.mp h)).path

variable (hl : t.Linked)

include hl

/-- Nothing below an element hoists the element. -/
theorem count_eq_zero {s : Task} {k : Link} (hs : t.Lists k x s.index) : (b s).count (.hoist x) = 0 := by
  by_contra h
  exact hl.not_reaches_lister hs (hb.reaches h)

theorem apart {s s' : Task} {k k' : Link} (hs : t.Lists k i s.index) (hs' : t.Lists k' i s'.index)
    (hne : s.index ≠ s'.index) : (b s).count (.hoist x) = 0 ∨ (b s').count (.hoist x) = 0 := by
  by_contra h
  rw [not_or] at h
  exact hne (hl.disjoint hs hs' (hb.reaches h.1) (hb.reaches h.2))

/-- An element that has been through its chain no longer leads to the other blocks of the chain. -/
theorem apart_own {s s' : Task} (hs : s.index = i) (hd : s.done.branched = true)
    (hs' : t.Lists .block i s'.index) : (b s).count (.hoist x) = 0 ∨ (b s').count (.hoist x) = 0 := by
  by_contra h
  rw [not_or] at h
  have hreach' := hb.reaches h.2
  rcases (hb.leads (Multiset.count_ne_zero.mp h.1)).way with hown | ⟨j, hj, hpath⟩
  · obtain rfl : x = i := hown.trans hs
    exact hl.not_reaches_lister hs' hreach'
  · have hlink : ∃ k, k ≠ .block ∧ t.Lists k i j := by
      cases hj with
      | child h => exact ⟨.child, nofun, hs ▸ h⟩
      | slot h => exact ⟨.slot, nofun, hs ▸ h⟩
      | block hfalse => rw [hd] at hfalse; cases hfalse
    obtain ⟨k, hk, hj⟩ := hlink
    obtain rfl := hl.disjoint hj hs' (reaches_of_follows hpath) hreach'
    exact hk (hl.single hj hs').2

end Fair

/-! ## What a step hoists -/

/-- How often a task for `i` may hoist `x`, if it may hoist its own element `q` times. -/
def allowance (t : Tree) (x i q : Nat) : Nat :=
  if i = x then q else quota t (.element x {})

theorem allowance_mono {q q' : Nat} (h : q ≤ q') : allowance t x i q ≤ allowance t x i q' := by
  unfold allowance
  split
  · exact h
  · exact le_rfl

namespace Fair

variable (hb : Fair t x b)

include hb

/-- Going on with the same element. -/
theorem count_again {s : Task} {q : Nat} (hs : s.index = i) (hq : quota t s ≤ q) :
    (b s).count (.hoist x) ≤ allowance t x i q := by
  unfold allowance
  split
  · next hix => exact (hb.own (hs.trans hix)).trans hq
  · next hix => exact hb.below fun h => hix (hs.symm.trans h)

theorem count_hoistShare {q : Nat} (hq : quota t (.element i { done with hoisted := true }) + 1 ≤ q) :
    (hoistShare b i done).count (.hoist x) ≤ allowance t x i q := by
  rw [hoistShare, Multiset.count_cons]
  unfold allowance
  by_cases hix : i = x
  · subst hix
    rw [if_pos rfl, if_pos rfl]
    exact (Nat.add_le_add_right (hb.own rfl) 1).trans hq
  · rw [if_neg hix, if_neg fun h => hix (Mark.hoist.inj h).symm]
    exact hb.below hix

variable (hw : t.WellFormed) (he : t.element? i = some e)

include hw he

/-- What an element holds hoists `x` as often as one of its children or slot definitions does, and the element
itself not at all. -/
theorem count_content : (childShare b e + slotShare b e).count (.hoist x) ≤ allowance t x i 0 := by
  let content := (e.children.map fun c => Task.element c {}) ++ e.scopedSlots.map fun s => Task.slotEntry s.2 {}
  have hsum : childShare b e + slotShare b e = (content.map b).sum := by
    simp [content, childShare, slotShare, Function.comp_def]
  have hlisted : ∀ s ∈ content, (∃ k, t.Lists k i s.index) ∧ quota t s ≤ quota t (.element s.index {}) := by
    intro s hs
    rcases List.mem_append.mp hs with hs | hs
    · obtain ⟨c, hc, rfl⟩ := List.mem_map.mp hs
      exact ⟨⟨.child, e, he, hc, nofun⟩, le_rfl⟩
    · obtain ⟨d, hd, rfl⟩ := List.mem_map.mp hs
      exact ⟨⟨.slot, e, he, List.mem_map_of_mem hd, nofun⟩, le_rfl⟩
  rw [hsum]
  refine count_sum_le (fun s hs => ?_) ?_ fun s hs s' hs' hne => ?_
  · obtain ⟨⟨k, hk⟩, hq⟩ := hlisted s hs
    unfold allowance
    split
    · next hix =>
      subst hix
      exact (hb.count_eq_zero hw.linked hk).le
    · exact hb.count_le hq
  · simpa [content, Function.comp_def, Task.index] using hw.nodup_content he
  · obtain ⟨⟨k, hk⟩, -⟩ := hlisted s hs
    obtain ⟨⟨k', hk'⟩, -⟩ := hlisted s' hs'
    exact hb.apart hw.linked hk hk' hne

theorem count_childShare : (childShare b e).count (.hoist x) ≤ allowance t x i 0 :=
  (Multiset.count_le_of_le _ (Multiset.le_add_right ..)).trans (hb.count_content hw he)

variable (hi : i ∉ e.branchBlocks)

include hi

/-- Of the arms of a chain at most one hoists `x`, and the element itself is hoisted only by the arm that is the
element. -/
theorem count_armShare {q : Nat} (hq : quota t (armTask t i { done with branched := true } slot i) ≤ q) :
    (armShare t b i e done slot).count (.hoist x) ≤ allowance t x i q := by
  let arm := armTask t i { done with branched := true } slot
  have hindex (block : Nat) : (arm block).index = block := index_armTask ..
  have hown : (arm i).done.branched = true :=
    armTask_cases (P := fun s => s.done.branched = true) (if_pos rfl) rfl rfl fun _ _ _ => rfl
  have hother {block : Nat} (hblock : block ∈ e.conditions.map Condition.block) (hne : block ≠ i) :
      t.Lists .block i (arm block).index := by
    rw [hindex]
    exact ⟨e, he, hblock, fun _ => hne⟩
  have hsum : armShare t b i e done slot = (((e.conditions.map Condition.block).map arm).map b).sum := by
    simp [arm, armShare, Function.comp_def]
  rw [hsum]
  refine count_sum_le ?_ ?_ ?_
  · intro s hs
    obtain ⟨block, hblock, rfl⟩ := List.mem_map.mp hs
    by_cases hself : block = i
    · subst hself
      exact hb.count_again (hindex block) hq
    unfold allowance
    split
    · next hix =>
      subst hix
      rw [hb.count_eq_zero hw.linked (hother hblock hself)]
      exact Nat.zero_le q
    · exact hb.count_le (by rw [hindex]; exact quota_armTask_of_ne hself)
  · simpa [hindex, Function.comp_def] using hw.nodup_blocks he hi
  · rintro s hs s' hs' hne
    obtain ⟨block, hblock, rfl⟩ := List.mem_map.mp hs
    obtain ⟨block', hblock', rfl⟩ := List.mem_map.mp hs'
    by_cases hself : block = i
    · subst hself
      rw [hindex, hindex] at hne
      exact hb.apart_own hw.linked (hindex block) hown (hother hblock' hne.symm)
    by_cases hself' : block' = i
    · subst hself'
      exact (hb.apart_own hw.linked (hindex block') hown (hother hblock hself)).symm
    · exact hb.apart hw.linked (hother hblock hself) (hother hblock' hself') hne

theorem count_onceShare :
    (onceShare t b i e done).count (.hoist x) ≤ allowance t x i (onceQuota (t.flags i) done) := by
  unfold onceShare
  dsimp only
  split
  · exact hb.count_armShare hw he hi (quota_armTask_once he)
  next htest =>
  have hstage : (e.tested && !done.branched) = false := Bool.eq_false_of_not_eq_true htest
  split
  · next hloop =>
    refine hb.count_hoistShare ?_
    rw [Bool.not_eq_true'] at hloop
    rw [quota_element he, elementQuota, onceQuota, hloop, hstage]
    simp
  · next hloop =>
    refine hb.count_again rfl ?_
    rw [Bool.not_eq_true', Bool.not_eq_false] at hloop
    rw [quota_element he, elementQuota, onceQuota, hloop]
    simp

theorem count_placeShare :
    (placeShare t b i e done).count (.hoist x) ≤ allowance t x i (elementQuota (t.flags i) e done) := by
  unfold placeShare
  split
  · refine hb.count_again rfl ?_
    rw [quota_element he]
    exact elementQuota_anti ⟨id, id, fun _ => rfl, id⟩
  split
  · next htest =>
    rw [Bool.and_eq_true, Bool.not_eq_true'] at htest
    exact hb.count_armShare hw he hi (quota_armTask_self he htest.1 htest.2)
  split
  · rw [Multiset.count_cons_of_ne (by simp)]
    exact (hb.count_childShare hw he).trans (allowance_mono (Nat.zero_le _))
  · exact (hb.count_content hw he).trans (allowance_mono (Nat.zero_le _))

theorem count_elementShare :
    (elementShare t b i e done).count (.hoist x) ≤ allowance t x i (elementQuota (t.flags i) e done) := by
  unfold elementShare
  split
  · next hroot =>
    refine hb.count_hoistShare ?_
    rw [quota_element he, elementQuota, elementQuota, hroot]
    simp [Nat.add_comm]
  split
  · next honce =>
    rw [Bool.and_eq_true, Bool.not_eq_true'] at honce
    exact (hb.count_onceShare hw he hi).trans (allowance_mono (onceQuota_le honce.1 (.inl honce.2)))
  · exact hb.count_placeShare hw he hi

theorem count_entryShare :
    (entryShare t b i e done).count (.hoist x) ≤ allowance t x i (elementQuota (t.flags i) e done) := by
  unfold entryShare
  split
  · next htest =>
    rw [Bool.and_eq_true, Bool.and_eq_true, Bool.not_eq_true'] at htest
    exact hb.count_armShare hw he hi (quota_armTask_self he htest.1.1 htest.1.2)
  split
  · refine hb.count_again rfl ?_
    rw [quota_slotEntry, quota_element he]
    exact elementQuota_anti ⟨id, id, fun _ => rfl, id⟩
  split
  · exact (hb.count_childShare hw he).trans (allowance_mono (Nat.zero_le _))
  · exact hb.count_again rfl (quota_element he).le

end Fair

/-- No task hoists an element more often than it may. -/
theorem fair_budget (hw : t.WellFormed) (hself : ∀ i e, t.element? i = some e → i ∉ e.branchBlocks) (x fuel : Nat) :
    Fair t x (budget t fuel) := by
  induction fuel with
  | zero => exact ⟨leads_of_budget, fun _ => Nat.zero_le _, fun _ => Nat.zero_le _⟩
  | succ fuel ih =>
    have hstep (s : Task) : (budget t (fuel + 1) s).count (.hoist x) ≤ allowance t x s.index (quota t s) := by
      cases s with
      | element i done =>
        rw [budget, share]
        rcases he : t.element? i with _ | e
        · exact Nat.zero_le _
        · rw [quota_element he]
          exact ih.count_elementShare hw he (hself i e he)
      | onceElement i done =>
        rw [budget, share]
        rcases he : t.element? i with _ | e
        · exact Nat.zero_le _
        · exact ih.count_onceShare hw he (hself i e he)
      | slotEntry i done =>
        rw [budget, share]
        rcases he : t.element? i with _ | e
        · exact Nat.zero_le _
        · rw [quota_slotEntry, quota_element he]
          exact ih.count_entryShare hw he (hself i e he)
    refine ⟨leads_of_budget, fun {s} hs => ?_, fun {s} hs => ?_⟩
    · have h := hstep s
      rwa [allowance, if_pos hs] at h
    · have h := hstep s
      rwa [allowance, if_neg hs] at h

/-- The code of a fresh task hoists every element at most twice, and once unless it is a twofold one. -/
theorem count_budget (hw : t.WellFormed) (hself : ∀ i e, t.element? i = some e → i ∉ e.branchBlocks)
    (x fuel i : Nat) : (budget t fuel (.element i {})).count (.hoist x) ≤ 2 ∧
      (¬Twofold t x → (budget t fuel (.element i {})).count (.hoist x) ≤ 1) := by
  have hcount : (budget t fuel (.element i {})).count (.hoist x) ≤ quota t (.element x {}) :=
    (fair_budget hw hself x fuel).count_le le_rfl
  obtain ⟨htwo, hone⟩ := quota_element_le t x
  exact ⟨hcount.trans htwo, fun h => hcount.trans (hone h)⟩

end TemplateCompiler.Generator
