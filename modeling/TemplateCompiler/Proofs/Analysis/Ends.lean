import TemplateCompiler.Proofs.Analysis.Repeated
import TemplateCompiler.Proofs.Tree.Walked

/-!
# Passes that end

Both passes of the analysis go down to later nodes only, so that a depth beyond the number of nodes is enough:
they never run out of it, and more depth makes no difference (`ends_markConstant`, `ends_markRoots`).
`Ends t x y Q` says that `x` and `y` do the same from every tree with the template of `t`, and that a failure is not
for want of depth.
-/

namespace TemplateCompiler.Analysis

variable {α β γ : Type} {t : Tree} {i : Nat}

/-- From a tree with the template of `t`, `x` and `y` return the same, with `Q`, or fail alike and not for want of
depth. -/
def Ends (t : Tree) (x y : AnalysisM α) (Q : α → Prop) : Prop :=
  ∀ u, u.unflag = t.unflag →
    (∃ a u', x.run u = .ok (a, u') ∧ y.run u = .ok (a, u') ∧ Q a ∧ u'.unflag = t.unflag) ∨
    ∃ f, x.run u = .error f ∧ y.run u = .error f ∧ f ≠ .tooDeep

namespace Ends

variable {x y : AnalysisM α} {f h : α → AnalysisM β} {Q : α → Prop} {R : β → Prop}

theorem pure {a : α} (ha : Q a) : Ends t (pure a) (pure a) Q :=
  fun u hu => .inl ⟨a, u, rfl, rfl, ha, hu⟩

theorem bind (hx : Ends t x y Q) (hf : ∀ a, Q a → Ends t (f a) (h a) R) :
    Ends t (x >>= f) (y >>= h) R := by
  intro u hu
  rw [StateT.run_bind, StateT.run_bind]
  rcases hx u hu with ⟨a, u', hxa, hya, ha, hu'⟩ | ⟨e, hxe, hye, he⟩
  · rw [hxa, hya]
    exact hf a ha u' hu'
  · rw [hxe, hye]
    exact .inr ⟨e, rfl, rfl, he⟩

theorem get : Ends t get get fun u => u.unflag = t.unflag :=
  fun u hu => .inl ⟨u, u, rfl, rfl, hu, hu⟩

theorem write (w : Flags → Flags) :
    Ends t (modify fun u => u.modifyFlags i w) (modify fun u => u.modifyFlags i w) fun _ => True :=
  fun u hu => .inl ⟨(), _, rfl, rfl, trivial, (Tree.unflag_modifyFlags u i w).trans hu⟩

theorem lift {r : Except Failure α} (hr : r ≠ .error .tooDeep) :
    Ends t (liftM r) (liftM r) fun _ => True := by
  intro u hu
  cases r with
  | error e => exact .inr ⟨e, rfl, rfl, fun he => hr (he ▸ rfl)⟩
  | ok a => exact .inl ⟨a, u, rfl, rfl, trivial, hu⟩

theorem mapM {xs : List γ} {f h : γ → AnalysisM α} (hf : ∀ c ∈ xs, Ends t (f c) (h c) fun _ => True) :
    Ends t (xs.mapM f) (xs.mapM h) fun _ => True := by
  induction xs with
  | nil => exact pure trivial
  | cons c xs ih =>
    obtain ⟨hc, hxs⟩ := List.forall_mem_cons.mp hf
    rw [List.mapM_cons, List.mapM_cons]
    exact hc.bind fun _ _ => (ih hxs).bind fun _ _ => pure trivial

theorem forM {xs : List γ} {f h : γ → AnalysisM Unit}
    (hf : ∀ c ∈ xs, Ends t (f c) (h c) fun _ => True) : Ends t (xs.forM f) (xs.forM h) fun _ => True := by
  induction xs with
  | nil => exact pure trivial
  | cons c xs ih =>
    obtain ⟨hc, hxs⟩ := List.forall_mem_cons.mp hf
    exact hc.bind fun _ _ => ih hxs

theorem nodeAt : Ends t (nodeAt i) (nodeAt i) fun n => n.element? = t.element? i := by
  refine get.bind fun u hu => ?_
  have he : u.element? i = t.element? i := Tree.element?_eq_of_unflag hu i
  rcases hn : u.node? i with _ | n
  · exact fun _ _ => .inr ⟨_, rfl, rfl, nofun⟩
  · refine pure ?_
    rw [← he, Tree.element?, hn, Option.bind_some]

end Ends

theorem check_ne_tooDeep (reserved : String → Bool) (tag : Json) :
    Tag.check reserved tag ≠ .error .tooDeep := by
  unfold Tag.check
  split <;> nofun

variable (ht : t.Descends)

include ht

theorem ends_markConstant (a : Analysis) {fuel fuel' : Nat} (hfuel : t.size - i < fuel)
    (hfuel' : t.size - i < fuel') :
    Ends t (a.markConstant fuel i) (a.markConstant fuel' i) fun _ => True := by
  induction fuel generalizing fuel' i with
  | zero => omega
  | succ fuel ih =>
    cases fuel' with
    | zero => omega
    | succ fuel' =>
      refine Ends.nodeAt.bind fun n hn => .bind (Q := fun _ => True) ?_ fun constant _ => ?_
      · unfold constantBelow
        split
        · exact .pure trivial
        · exact .pure trivial
        · exact .pure trivial
        · rename_i e hcontent
          have he : t.element? i = some e := by rw [← hn, Node.element?, hcontent]
          refine .bind (.lift (check_ne_tooDeep a.reserved e.tag)) fun reserved _ => .bind .get fun u _ => ?_
          split
          · refine .bind (.mapM fun c hc => ?_) fun _ _ => .pure trivial
            have hlater : i < c ∧ c < t.size := ht he c (List.mem_append_left _ hc)
            exact ih (by omega) (by omega)
          · exact .bind (.pure trivial) fun _ (_ : True) => .pure trivial
      · exact .bind (.write _) fun _ _ => .pure trivial

theorem ends_markRoots {fuel fuel' : Nat} (inLoop : Bool) (hfuel : t.size - i < fuel)
    (hfuel' : t.size - i < fuel') :
    Ends t (markRoots fuel i inLoop) (markRoots fuel' i inLoop) fun _ => True := by
  induction fuel generalizing fuel' i inLoop with
  | zero => omega
  | succ fuel ih =>
    cases fuel' with
    | zero => omega
    | succ fuel' =>
      refine Ends.nodeAt.bind fun n hn => ?_
      rcases hne : n.element? with _ | e
      · exact .pure trivial
      have he : t.element? i = some e := hn ▸ hne
      have hbelow (inLoop : Bool) (c : Nat) (hc : c ∈ e.children ++ e.branchBlocks) :
          Ends t (markRoots fuel c inLoop) (markRoots fuel' c inLoop) fun _ => True := by
        have hlater : i < c ∧ c < t.size := ht he c (List.mem_append_left _ hc)
        exact ih inLoop (by omega) (by omega)
      have hrest : Ends t (markBelow fuel i inLoop e n.flags.constant.truthy)
          (markBelow fuel' i inLoop e n.flags.constant.truthy) fun _ => True := by
        refine .bind .get fun u _ => ?_
        split
        · exact .write _
        · refine .bind (.write _) fun _ _ => ?_
          refine .bind (.forM fun c hc => hbelow _ c (List.mem_append_left _ hc)) fun _ _ => ?_
          exact .forM fun c hc => hbelow _ c (List.mem_append_right _ hc)
      dsimp only
      split
      · exact .bind (.write _) fun _ _ => hrest
      · exact hrest

end TemplateCompiler.Analysis
