import TemplateCompiler.Proofs.Environment.Compile
import TemplateCompiler.Proofs.Tree.Loaded
import TemplateCompiler.Proofs.Tree.Unique
import TemplateCompiler.Proofs.Tree.Walked

/-!
# Walks are pre-orders

The walk keeps a stack of pending nodes; the pre-order of a tree is a recursion without one. `IsPreorder W` says that `W`
obeys the equations of that recursion. In a tree whose links lead to later nodes there is such a `W`
(`Descends.isPreorder`), and a stack that is worked off gives the pre-orders of its nodes, one after another
(`Walked.eq_flatMap`).

The invariant of the stack is that no node is below two of its nodes (`Apart`). A node that is taken hands this on to what
is below it (`WellFormed.apart_take`). Hence the walk takes each node once (`WellFormed.nodup_of_walked`), and before
everything below it (`WellFormed.idxOf_lt_of_walked`).
-/

namespace TemplateCompiler.Tree

open Relation

/-- Node `j` is one of those that a walk takes after `i`, on account of `i`. -/
def Under (t : Tree) (i j : Nat) : Prop :=
  j ∈ t.below i

/-- `W i` is the node `i` and then, for an element, what `W` gives for its children, for the blocks of its chain but the
first, and for its slot definitions. -/
structure IsPreorder (t : Tree) (W : Nat → List Nat) : Prop where
  leaf : ∀ {i}, t.element? i = none → W i = [i]
  element : ∀ {i e}, t.element? i = some e →
    W i = i :: (e.children.flatMap W ++ e.branchBlocks.flatMap W ++ (e.scopedSlots.map Prod.snd).flatMap W)

/-- The pre-order from a node on, down to depth `fuel`. -/
def preorderWithin (t : Tree) : Nat → Nat → List Nat
  | 0, i => [i]
  | fuel + 1, i => i :: (t.below i).flatMap (t.preorderWithin fuel)

def preorder (t : Tree) (i : Nat) : List Nat :=
  t.preorderWithin t.size i

variable {t : Tree} {i j : Nat} {W : Nat → List Nat}

theorem below_of_element? {e : Element} (he : t.element? i = some e) : t.below i = e.below := by
  rw [below, he]
  rfl

theorem below_of_leaf (h : t.element? i = none) : t.below i = [] := by
  rw [below, h]
  rfl

/-- The two equations in one. -/
theorem isPreorder_iff : t.IsPreorder W ↔ ∀ i, W i = i :: (t.below i).flatMap W := by
  constructor
  · intro h i
    rcases he : t.element? i with _ | e
    · rw [h.leaf he, below_of_leaf he, List.flatMap_nil]
    · rw [h.element he, below_of_element? he, Element.below, List.flatMap_append, List.flatMap_append]
  · intro h
    refine ⟨fun {i} he => ?_, fun {i e} he => ?_⟩
    · rw [h i, below_of_leaf he, List.flatMap_nil]
    · rw [h i, below_of_element? he, Element.below, List.flatMap_append, List.flatMap_append]

namespace Descends

/-- There are no more than `t.size - i` levels from node `i` on. -/
theorem preorderWithin_succ (h : t.Descends) {fuel : Nat} (hi : t.size ≤ i + fuel) :
    t.preorderWithin (fuel + 1) i = t.preorderWithin fuel i := by
  induction fuel generalizing i with
  | zero =>
    have hnone : t.below i = [] := by
      refine List.eq_nil_iff_forall_not_mem.mpr fun j hj => ?_
      have := h.below hj
      omega
    show i :: (t.below i).flatMap (t.preorderWithin 0) = [i]
    rw [hnone, List.flatMap_nil]
  | succ fuel ih =>
    have hlevel : (t.below i).flatMap (t.preorderWithin (fuel + 1)) = (t.below i).flatMap (t.preorderWithin fuel) :=
      List.flatMap_congr fun j hj => ih (by have := h.below hj; omega)
    rw [preorderWithin, hlevel, preorderWithin]

theorem isPreorder (h : t.Descends) : t.IsPreorder t.preorder := by
  refine isPreorder_iff.mpr fun i => ?_
  show t.preorderWithin t.size i = i :: (t.below i).flatMap (t.preorderWithin t.size)
  rw [← h.preorderWithin_succ (Nat.le_add_left ..)]
  rfl

theorem lt_of_transGen (h : t.Descends) (hij : TransGen t.Under i j) : i < j := by
  induction hij with
  | single hstep => exact (h.below hstep).1
  | tail _ hstep ih => exact Nat.lt_trans ih (h.below hstep).1

theorem le_of_reflTransGen (h : t.Descends) (hij : ReflTransGen t.Under i j) : i ≤ j := by
  rcases reflTransGen_iff_eq_or_transGen.mp hij with rfl | hij
  · exact Nat.le_refl _
  · exact Nat.le_of_lt (h.lt_of_transGen hij)

end Descends

namespace Walked

variable {stack out : List Nat}

/-- What is taken from a stack is the pre-order of each of its nodes. -/
theorem eq_flatMap (hw : t.Walked stack out) (hW : t.IsPreorder W) : out = stack.flatMap W := by
  induction hw with
  | empty => rfl
  | @take i stack out _ ih =>
    rw [ih, List.flatMap_append, List.flatMap_cons, isPreorder_iff.mp hW i, List.cons_append]

theorem mem_iff (hw : t.Walked stack out) : j ∈ out ↔ ∃ s ∈ stack, ReflTransGen t.Under s j := by
  induction hw with
  | empty => simp
  | @take i stack out _ ih =>
    rw [List.mem_cons, ih]
    constructor
    · rintro (rfl | ⟨s, hs, hsj⟩)
      · exact ⟨j, List.mem_cons_self .., .refl⟩
      · rcases List.mem_append.mp hs with hs | hs
        · exact ⟨i, List.mem_cons_self .., .head hs hsj⟩
        · exact ⟨s, List.mem_cons_of_mem _ hs, hsj⟩
    · rintro ⟨s, hs, hsj⟩
      rcases List.mem_cons.mp hs with rfl | hs
      · rcases ReflTransGen.cases_head hsj with rfl | ⟨m, hm, hmj⟩
        · exact .inl rfl
        · exact .inr ⟨m, List.mem_append_left _ hm, hmj⟩
      · exact .inr ⟨s, List.mem_append_right _ hs, hsj⟩

end Walked

/-! ## The invariant of the stack -/

/-- Nothing is below two nodes of the stack. -/
def Apart (t : Tree) (stack : List Nat) : Prop :=
  stack.Pairwise fun a b => ∀ x, ReflTransGen t.Under a x → ¬ReflTransGen t.Under b x

section NoOwnBlocks

variable (hblock : ∀ {i e}, t.element? i = some e → i ∉ e.branchBlocks) {stack out : List Nat}
include hblock

theorem lists_of_under (hij : t.Under i j) : ∃ k, t.Lists k i j := by
  unfold Under at hij
  rcases he : t.element? i with _ | e
  · rw [below_of_leaf he] at hij
    cases hij
  · rw [below_of_element? he, Element.below, List.mem_append, List.mem_append] at hij
    rcases hij with (hj | hj) | hj
    · exact ⟨.child, e, he, hj, nofun⟩
    · rcases lists_of_branchBlocks he hj with rfl | hl
      · exact absurd hj (hblock he)
      · exact ⟨.block, hl⟩
    · exact ⟨.slot, e, he, hj, nofun⟩

theorem reaches_of_under {x : Nat} (h : ReflTransGen t.Under i x) : t.Reaches i x :=
  ReflTransGen.mono (fun _ _ hab => lists_of_under hblock hab) i x h

namespace WellFormed

/-- What is below an element is listed there once. -/
theorem nodup_below (h : t.WellFormed) (i : Nat) : (t.below i).Nodup := by
  rcases he : t.element? i with _ | e
  · rw [below_of_leaf he]
    exact List.nodup_nil
  · have hlinks (k : Link) : t.links i k = (e.listed k).filter fun j => k ≠ .block ∨ j ≠ i := by
      rw [links, he]
      rfl
    have hblocks : e.branchBlocks.Sublist (t.links i .block) := by
      have hself : (e.branchBlocks.filter fun j => Link.block ≠ .block ∨ j ≠ i) = e.branchBlocks :=
        List.filter_eq_self.mpr fun j hj => decide_eq_true (.inr fun hji => hblock he (hji ▸ hj))
      rw [hlinks, ← hself]
      exact ((List.drop_sublist 1 e.conditions).map Condition.block).filter _
    have hlist {k : Link} (hk : k ≠ .block) : t.links i k = e.listed k := by
      rw [hlinks]
      exact List.filter_eq_self.mpr fun j _ => decide_eq_true (.inl hk)
    have hrefs := h.nodup_refs i
    rw [refs, hlist (k := .child) (by decide), hlist (k := .slot) (by decide)] at hrefs
    have hsub := (List.Sublist.refl (e.listed .child ++ e.listed .slot)).append hblocks
    rw [below_of_element? he, Element.below]
    refine (List.Perm.nodup_iff ?_).mp (hrefs.sublist hsub)
    rw [List.append_assoc, List.append_assoc]
    exact List.perm_append_comm.append_left _

/-- A node that is taken makes place for what is below it. -/
theorem apart_take (h : t.WellFormed) (hs : t.Apart (i :: stack)) : t.Apart (t.below i ++ stack) := by
  obtain ⟨hi, hstack⟩ := List.pairwise_cons.mp hs
  refine List.pairwise_append.mpr ⟨?_, hstack, fun a ha b hb x hax => hi b hb x (.head ha hax)⟩
  refine List.Pairwise.imp_of_mem (fun {a b} ha hb hne x hax hbx => hne ?_) (h.nodup_below hblock i)
  obtain ⟨k, hk⟩ := lists_of_under hblock ha
  obtain ⟨k', hk'⟩ := lists_of_under hblock hb
  exact h.linked.disjoint hk hk' (reaches_of_under hblock hax) (reaches_of_under hblock hbx)

/-- Nothing that is taken later leads back to the node that is taken. -/
theorem not_reflTransGen_of_apart (h : t.WellFormed) (hs : t.Apart (i :: stack)) {s : Nat}
    (hmem : s ∈ t.below i ++ stack) : ¬ReflTransGen t.Under s i := by
  intro hsi
  rcases List.mem_append.mp hmem with hmem | hmem
  · have hdescends : t.Descends := h.descends hblock
    have hlt := (hdescends.below hmem).1
    have hle := hdescends.le_of_reflTransGen hsi
    omega
  · exact (List.pairwise_cons.mp hs).1 s hmem i .refl hsi

theorem nodup_of_walked (h : t.WellFormed) (hw : t.Walked stack out) (hs : t.Apart stack) : out.Nodup := by
  induction hw with
  | empty => exact List.nodup_nil
  | @take i stack out hrest ih =>
    refine List.nodup_cons.mpr ⟨fun hi => ?_, ih (h.apart_take hblock hs)⟩
    obtain ⟨s, hmem, hsi⟩ := hrest.mem_iff.mp hi
    exact h.not_reflTransGen_of_apart hblock hs hmem hsi

theorem idxOf_lt_of_walked (h : t.WellFormed) (hw : t.Walked stack out) (hs : t.Apart stack) (hi : i ∈ out)
    (hij : TransGen t.Under i j) : out.idxOf i < out.idxOf j := by
  have hdescends : t.Descends := h.descends hblock
  have hne : i ≠ j := Nat.ne_of_lt (hdescends.lt_of_transGen hij)
  induction hw with
  | empty => cases hi
  | @take a stack out hrest ih =>
    by_cases hia : a = i
    · subst hia
      rw [List.idxOf_cons_self, List.idxOf_cons_ne _ hne]
      exact Nat.succ_pos _
    · have hi' : i ∈ out := (List.mem_cons.mp hi).resolve_left (Ne.symm hia)
      have haj : a ≠ j := by
        rintro rfl
        obtain ⟨s, hmem, hsi⟩ := hrest.mem_iff.mp hi'
        exact h.not_reflTransGen_of_apart hblock hs hmem (hsi.trans hij.to_reflTransGen)
      rw [List.idxOf_cons_ne _ hia, List.idxOf_cons_ne _ haj]
      exact Nat.succ_lt_succ (ih (h.apart_take hblock hs) hi')

end WellFormed

end NoOwnBlocks

/-- In an arena in good order, in which no chain comes back to its owner after its first arm, the walk ends with an
empty stack. It is the recursive pre-order, takes what can be reached from the root and takes it once, and takes an
element before all that is below it. -/
theorem walk_is_preorder (h : t.WellFormed) (hblock : ∀ {i e}, t.element? i = some e → i ∉ e.branchBlocks) :
    t.Walked t.root.toList t.walk ∧
    t.IsPreorder t.preorder ∧ (∀ W, t.IsPreorder W → t.walk = t.root.toList.flatMap W) ∧
    t.walk.Nodup ∧ (∀ j, j ∈ t.walk ↔ ∃ r ∈ t.root, ReflTransGen t.Under r j) ∧
    ∀ i ∈ t.walk, ∀ j, TransGen t.Under i j → t.walk.idxOf i < t.walk.idxOf j := by
  have hdescends : t.Descends := h.descends hblock
  have hwalked : t.Walked t.root.toList t.walk := by
    rcases hr : t.root with _ | r
    · rw [walk, hr]
      exact .empty
    · exact hdescends.walked hr
  have hapart : t.Apart t.root.toList := by
    cases t.root with
    | none => exact List.Pairwise.nil
    | some r => exact List.pairwise_singleton ..
  refine ⟨hwalked, hdescends.isPreorder, fun W hW => hwalked.eq_flatMap hW, h.nodup_of_walked hblock hwalked hapart,
    fun j => ?_, fun i hi j hij => h.idxOf_lt_of_walked hblock hwalked hapart hi hij⟩
  rw [hwalked.mem_iff]
  simp only [Option.mem_toList, Option.mem_def]

/-- A row with a child, a slot definition and a block beside it, and a last row. -/
def rows : Json :=
  let note : Json := .object [("type", .int 3), ("text", "a")]
  let other : Json := .object [("tag", "b"), ("else", .bool true)]
  let row : Json := .object [("tag", "my-row"), ("if", "ok"), ("children", .array [note]),
    ("scopedSlots", .object [("head", .object [("tag", "template")])]),
    ("ifConditions", .array [.object [("exp", "ok")], .object [("block", other)]])]
  .object [("tag", "div"), ("children", .array [row, .object [("tag", "p")]])]

/-- The slot definition has a smaller index than the block, and is taken after it. -/
theorem walk_is_preorder_rows : ∃ t, (Tree.load rows).1 = .ok t ∧ t.WellFormed ∧
    (∀ {i e}, t.element? i = some e → i ∉ e.branchBlocks) ∧ t.walk = [0, 1, 2, 4, 3, 5] ∧
    t.walk = t.root.toList.flatMap t.preorder ∧ t.walk.Nodup := by
  have h : ((Tree.load rows).1.toOption.map fun t => decide (t.walk = [0, 1, 2, 4, 3, 5] ∧
      ∀ i < t.size, ∀ e ∈ t.element? i, i ∉ e.branchBlocks)) = some true := by
    decide +kernel
  obtain ⟨t, hload, h⟩ := Option.map_eq_some_iff.mp h
  obtain ⟨hwalk, hchains⟩ := of_decide_eq_true h
  have hload := ok_of_toOption hload
  have ht : t.WellFormed := wellFormed_load hload
  have hblock {i : Nat} {e : Element} (he : t.element? i = some e) : i ∉ e.branchBlocks :=
    hchains i (lt_size_of_element? he) e he
  obtain ⟨-, hpreorder, hunique, hnodup, -⟩ := walk_is_preorder ht hblock
  exact ⟨t, hload, ht, hblock, hwalk, hunique _ hpreorder, hnodup⟩

end TemplateCompiler.Tree
