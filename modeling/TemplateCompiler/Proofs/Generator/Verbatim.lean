import TemplateCompiler.Generator.Basic
import TemplateCompiler.Proofs.Tree.Links

/-!
# Verbatim elements

An element is verbatim if it or one above it says so (`Tree.verbatim`). The generator climbs up to find out, and
remembers what it found on the way. Whatever it remembered before, it finds what the tree says, and what it remembers
then is true as well (`Memo.query_verbatim`).
-/

namespace TemplateCompiler

namespace Tree

variable {t : Tree} {i p : Nat}

/-- The element or one above it is marked as verbatim. -/
def verbatim (t : Tree) (i : Nat) : Bool :=
  (t.element? i).any (fun e => e.pre.truthy) || (t.ancestorElements i).any fun e => e.pre.truthy

theorem verbatim_of_parent?_none (h : t.parent? i = none) :
    t.verbatim i = (t.element? i).any fun e => e.pre.truthy := by
  rw [verbatim, ancestorElements, ancestors_of_parent?_none h]
  exact Bool.or_false _

theorem Linked.verbatim_of_parent? (h : t.Linked) (hp : t.parent? i = some p) :
    t.verbatim i = ((t.element? i).any (fun e => e.pre.truthy) || t.verbatim p) := by
  have hany : ((p :: t.ancestors p).filterMap t.element?).any (fun e => e.pre.truthy) = t.verbatim p := by
    rw [verbatim, ancestorElements, List.filterMap_cons]
    cases t.element? p <;> rfl
  rw [← hany, verbatim, ancestorElements, h.ancestors_of_parent? (lt_size_of_parent? hp) hp]

@[simp] theorem verbatim_unflag (t : Tree) (i : Nat) : t.unflag.verbatim i = t.verbatim i := by
  rw [verbatim, verbatim, element?_unflag, ancestorElements_unflag]

end Tree

namespace Memo

variable {t : Tree} {i : Nat}

/-- All that is remembered is so. -/
def Recalls (holds : Nat → Bool → Prop) (memo : Memo) : Prop :=
  ∀ i found, Table.get? i memo = some found → holds i found

theorem recalls_nil (holds : Nat → Bool → Prop) : Recalls holds [] := by
  intro _ _ h
  cases h

theorem Recalls.put {holds : Nat → Bool → Prop} {memo : Memo} (h : memo.Recalls holds) {found : Bool}
    (hi : holds i found) : Recalls holds (Table.put i found memo) := by
  intro j b hj
  by_cases hij : j = i
  · subst hij
    rw [Table.get?_put_self] at hj
    exact Option.some.inj hj ▸ hi
  · rw [Table.get?_put_of_ne hij] at hj
    exact h j b hj

/-- What a tree says about its verbatim elements is found, and remembered. Nodes outside of the arena have nothing
above them. -/
theorem query_verbatim (h : t.Linked) {fuel : Nat} (hfuel : min i t.size < fuel) {memo : Memo}
    (hm : memo.Recalls fun j found => found = t.verbatim j) :
    (query t fuel i memo).1 = t.verbatim i ∧
      (query t fuel i memo).2.Recalls fun j found => found = t.verbatim j := by
  induction fuel generalizing i with
  | zero => omega
  | succ fuel ih =>
    unfold query
    rcases hk : Table.get? i memo with _ | known
    · dsimp only
      split
      · next hpre =>
        have hi : true = t.verbatim i := by rw [Tree.verbatim, hpre, Bool.true_or]
        exact ⟨hi, hm.put hi⟩
      · next hpre =>
        rw [Bool.not_eq_true] at hpre
        rcases hp : t.parent? i with _ | p
        · have hi : false = t.verbatim i := by rw [Tree.verbatim_of_parent?_none hp, hpre]
          exact ⟨hi, hm.put hi⟩
        · have hlt : p < i := h.above hp
          have hsize := Tree.lt_size_of_parent? hp
          obtain ⟨habove, hmemo⟩ := ih (i := p) (by omega)
          have hi : (query t fuel p memo).1 = t.verbatim i := by
            rw [habove, h.verbatim_of_parent? hp, hpre, Bool.false_or]
          exact ⟨hi, hmemo.put hi⟩
    · exact ⟨hm i known hk, hm⟩

end Memo

end TemplateCompiler
