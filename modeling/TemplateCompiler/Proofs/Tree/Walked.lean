import TemplateCompiler.Proofs.Tree.References
import TemplateCompiler.Tree.Walk

/-!
# Walks that end

In a tree whose links lead to later nodes (`Descends`), a walk empties its stack (`Descends.walked`). Each node on
the stack stands for as many steps as there are sets of links behind it, and taking a node from the stack pays
for everything that it puts there.
-/

namespace TemplateCompiler.Tree

/-- What hangs below an element comes after it. -/
def Descends (t : Tree) : Prop :=
  ∀ {i e}, t.element? i = some e → ∀ j ∈ e.below, i < j ∧ j < t.size

/-- `out` is what a walk takes from a stack until the stack is empty. -/
inductive Walked (t : Tree) : List Nat → List Nat → Prop
  | empty : Walked t [] []
  | take {i : Nat} {stack out : List Nat} (rest : Walked t (t.below i ++ stack) out) :
      Walked t (i :: stack) (i :: out)

variable {t : Tree} {i j : Nat}

theorem WellFormed.descends (h : t.WellFormed)
    (hblock : ∀ {i e}, t.element? i = some e → i ∉ e.branchBlocks) : t.Descends := by
  intro i e he j hj
  have hlater {k : Link} (hl : t.Lists k i j) : i < j ∧ j < t.size :=
    ⟨(h.linked.below hl).1, (h.linked.below hl).2.1⟩
  rcases List.mem_append.mp hj with hj | hj
  · rcases List.mem_append.mp hj with hj | hj
    · exact hlater (k := .child) ⟨e, he, hj, nofun⟩
    · rcases lists_of_branchBlocks he hj with rfl | hl
      · exact absurd hj (hblock he)
      · exact hlater hl
  · exact hlater (k := .slot) ⟨e, he, hj, nofun⟩

theorem Descends.below (h : t.Descends) (hj : j ∈ t.below i) : i < j ∧ j < t.size := by
  unfold Tree.below at hj
  rcases he : t.element? i with _ | e
  · rw [he] at hj; cases hj
  · rw [he] at hj; exact h he j hj

/-! ## The price of a walk -/

/-- The number of links from node `i` on. -/
def linksFrom (t : Tree) (i : Nat) : Nat :=
  (t.nodes.toList.drop i).foldl (fun count n => count + ((n.element?.map Element.below).getD []).length) 0

theorem foldl_count {α : Type} (f : α → Nat) (xs : List α) (n : Nat) :
    xs.foldl (fun count x => count + f x) n = n + xs.foldl (fun count x => count + f x) 0 := by
  induction xs generalizing n with
  | nil => rfl
  | cons x xs ih => rw [List.foldl_cons, List.foldl_cons, ih, ih (0 + f x)]; omega

theorem linksFrom_eq (hi : i < t.size) :
    t.linksFrom i = (t.below i).length + t.linksFrom (i + 1) := by
  have hi' : i < t.nodes.toList.length := hi
  have hnode : t.nodes[i]? = some (t.nodes.toList.get ⟨i, hi'⟩) := by
    rw [← Array.getElem?_toList]
    exact List.getElem?_eq_getElem hi'
  have hbelow : ((t.nodes.toList.get ⟨i, hi'⟩).element?.map Element.below).getD [] = t.below i := by
    rw [Tree.below, element?, node?, hnode, Option.bind_some]
  rw [linksFrom, List.drop_eq_getElem_cons hi', List.foldl_cons, foldl_count, linksFrom]
  show 0 + (((t.nodes.toList.get ⟨i, hi'⟩).element?.map Element.below).getD []).length + _ = _
  rw [hbelow, Nat.zero_add]

theorem linksFrom_le (h : i ≤ j) : t.linksFrom j ≤ t.linksFrom i := by
  induction h with
  | refl => exact Nat.le_refl _
  | @step j _ ih =>
    refine Nat.le_trans ?_ ih
    by_cases hj : j < t.size
    · rw [linksFrom_eq hj]
      exact Nat.le_add_left _ _
    · have hlast : t.nodes.toList.length ≤ j := Nat.le_of_not_lt hj
      rw [linksFrom, List.drop_eq_nil_of_le (Nat.le_succ_of_le hlast)]
      exact Nat.zero_le _

/-- How many steps a stack can take at most. -/
def price (t : Tree) : List Nat → Nat
  | [] => 0
  | i :: stack => Nat.pow 2 (t.linksFrom i) + t.price stack

theorem price_append (xs ys : List Nat) : t.price (xs ++ ys) = t.price xs + t.price ys := by
  induction xs with
  | nil => exact (Nat.zero_add _).symm
  | cons x xs ih => simp only [List.cons_append, price, ih, Nat.add_assoc]

theorem price_le {xs : List Nat} {n : Nat} (h : ∀ j ∈ xs, i ≤ j) (hn : t.linksFrom i ≤ n) :
    t.price xs ≤ xs.length * Nat.pow 2 n := by
  induction xs with
  | nil => exact Nat.zero_le _
  | cons x xs ih =>
    obtain ⟨hx, hxs⟩ := List.forall_mem_cons.mp h
    have hpow : Nat.pow 2 (t.linksFrom x) ≤ Nat.pow 2 n :=
      Nat.pow_le_pow_right (by decide) (Nat.le_trans (linksFrom_le hx) hn)
    have := ih hxs
    rw [price, List.length_cons, Nat.succ_mul]
    omega

/-- A node pays for itself and for what is below it. -/
theorem Descends.price_below (h : t.Descends) (i : Nat) :
    t.price (t.below i) < Nat.pow 2 (t.linksFrom i) := by
  by_cases hi : i < t.size
  · have hle := price_le (t := t) (fun j hj => (h.below hj).1) (Nat.le_refl (t.linksFrom (i + 1)))
    have hpos : 0 < Nat.pow 2 (t.linksFrom (i + 1)) := Nat.pow_pos (by decide)
    have hlength : (t.below i).length + 1 ≤ Nat.pow 2 (t.below i).length := Nat.lt_two_pow_self
    have hmul := Nat.mul_le_mul_right (Nat.pow 2 (t.linksFrom (i + 1))) hlength
    rw [Nat.succ_mul] at hmul
    have hadd : Nat.pow 2 (t.below i).length * Nat.pow 2 (t.linksFrom (i + 1)) = Nat.pow 2 (t.linksFrom i) := by
      rw [linksFrom_eq hi]
      exact (Nat.pow_add 2 _ _).symm
    omega
  · have hnone : t.below i = [] := by
      refine List.eq_nil_iff_forall_not_mem.mpr fun j hj => ?_
      have := h.below hj
      omega
    rw [hnone]
    exact Nat.pow_pos (by decide)

/-- One step of the walk lowers the price of the stack. -/
theorem Descends.walked_walkFrom (h : t.Descends) {fuel : Nat} {stack : List Nat}
    (hfuel : t.price stack ≤ fuel) : t.Walked stack (t.walkFrom fuel stack) := by
  induction fuel generalizing stack with
  | zero =>
    cases stack with
    | nil => exact .empty
    | cons i stack =>
      have hpos : 0 < Nat.pow 2 (t.linksFrom i) := Nat.pow_pos (by decide)
      rw [price] at hfuel
      omega
  | succ fuel ih =>
    cases stack with
    | nil => exact .empty
    | cons i stack =>
      refine .take (ih ?_)
      have := h.price_below i
      rw [price] at hfuel
      rw [price_append]
      omega

theorem Descends.walked (h : t.Descends) {r : Nat} (hr : t.root = some r) : t.Walked [r] t.walk := by
  rw [walk, hr]
  refine h.walked_walkFrom ?_
  show Nat.pow 2 (t.linksFrom r) + 0 ≤ Nat.pow 2 (t.linksFrom 0)
  exact Nat.pow_le_pow_right (by decide) (linksFrom_le (Nat.zero_le r))

end TemplateCompiler.Tree
