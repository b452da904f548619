import TemplateCompiler.Proofs.Generator.CouplingData

/-!
# Couplings in step

Two generations in step come to the same decisions about hoists and once marks: both have been through the same stages,
and the flags of an element mean the same to both (`Coupling.InStep`). What is left open is how a hoist and a once mark
relate codes, given the flags that led to them. Generation to any depth then keeps the two sides related
(`Coupling.InStep.run`).
-/

namespace TemplateCompiler.Generator.Coupling

variable {o : Options}

structure InStep (K : Coupling o) : Prop where
  stages : ∀ {d d'}, K.stages d d' ↔ d = d'
  switch : ∀ {v g h} v', K.states v g h → K.states v' { g with verbatim := v' } { h with verbatim := v' }
  root : ∀ {v g h i e}, K.shape i e → K.states v g h →
    (g.tree.flags i).root.truthy = (h.tree.flags i).root.truthy
  inLoop : ∀ {v g h i e}, K.shape i e → K.states v g h →
    (g.tree.flags i).inLoop.truthy = (h.tree.flags i).inLoop.truthy
  /-- The flags before the body decide that there is a hoist; those after it are written into the code. -/
  hoist : ∀ {v g h g' h' i e body body'}, K.shape i e → K.states v g h →
    (g.tree.flags i).root.truthy = true ∨ (g.tree.flags i).inLoop.truthy = false →
    K.states v g' h' → K.code i body body' →
    K.code i (.hoist i ((g'.tree.flags i).inLoop.truthy) body) (.hoist i ((h'.tree.flags i).inLoop.truthy) body')
  mark : ∀ {v g h i body body'} key, K.states v g h → (g.tree.flags i).inLoop.truthy = true →
    K.code i body body' → K.code i (.once i key body) (.once i key body')

namespace InStep

variable {K : Coupling o} {self self' : Emit} {v : Bool} {i : Nat} {d : Stages}

theorem setVerbatim (hK : K.InStep) (v' : Bool) :
    Coupled (fun g h => ∃ v, K.states v g h) (setVerbatim v') (setVerbatim v') (fun _ _ => True) (K.states v') :=
  .modify fun _ _ hg => hg.elim fun _ hg => hK.switch v' hg

theorem enterVerbatim (hK : K.InStep) :
    Coupled (K.states v) (enterVerbatim i) (enterVerbatim i) (fun _ _ => True) fun g h => ∃ v', K.states v' g h := by
  refine .bind (K.isVerbatim i) fun a b hab => ?_
  subst hab
  refine .ite (fun _ g h hg => ?_) fun _ => ?_
  · exact ((hK.setVerbatim true).weaken fun _ _ hg => ⟨true, hg⟩) g h ⟨v, hg⟩
  · exact (Coupled.pure trivial).weaken fun _ _ hg => ⟨v, hg⟩

/-- Flags, with the states from which they are. -/
theorem flagsOf :
    Coupled (K.states v) (flagsOf i) (flagsOf i)
      (fun f f' => ∃ g h, K.states v g h ∧ g.tree.flags i = f ∧ h.tree.flags i = f') (K.states v) :=
  .bind .get fun g h hg => .pure ⟨g, h, hg, rfl, rfl⟩

theorem hoisted (hK : K.InStep) (hb : K.Below self self')
    (hcode : ∀ {g h body body'}, K.states v g h → K.code i body body' →
      K.code i (.hoist i ((g.tree.flags i).inLoop.truthy) body) (.hoist i ((h.tree.flags i).inLoop.truthy) body')) :
    Coupled (K.states v) (emitHoisted self i d) (emitHoisted self' i d) (K.code i) (K.states v) := by
  refine .bind .get fun g h hg => ?_
  obtain ⟨hleft, hright⟩ := K.verbatim hg
  rw [hleft, hright]
  refine .bind hK.enterVerbatim fun _ _ _ => ?_
  refine .bind (.exists_state fun v' => hb.element (hK.stages.mpr rfl)) fun body body' hbody => ?_
  refine .bind (hK.setVerbatim v) fun _ _ _ => .bind flagsOf fun f f' ⟨g', h', hg', hf, hf'⟩ => .pure ?_
  subst hf hf'
  exact hcode hg' hbody

theorem once (hK : K.InStep) (hb : K.Below self self') :
    Coupled (K.states v) (emitOnce self i d) (emitOnce self' i d) (K.code i) (K.states v) := by
  refine .bind K.elementAt fun e e' ⟨hee, he⟩ => ?_
  subst hee
  refine .ite (fun _ => hb.branches he (hK.stages.mpr rfl) false) fun _ => ?_
  refine .bind flagsOf fun f f' ⟨g, h, hg, hf, hf'⟩ => ?_
  subst hf hf'
  rw [← hK.inLoop he hg]
  refine .ite (fun hout => ?_) fun hin => ?_
  · rw [Bool.not_eq_true'] at hout
    exact hK.hoisted hb fun hg' hbody => hK.hoist he hg (.inr hout) hg' hbody
  rw [Bool.not_eq_true', Bool.not_eq_false] at hin
  refine .bind .get fun g' h' hg' => ?_
  rw [Tree.ancestorElements_eq_of_unflag (K.unflag_tree hg')]
  cases loopKey? (h'.tree.ancestorElements i) with
  | some key => exact .bind (hb.element (hK.stages.mpr rfl)) fun body body' hbody => .pure (hK.mark key hg hin hbody)
  | none =>
    refine .bind K.siteOf fun s s' hs => ?_
    subst hs
    exact .bind (K.warning _) fun _ _ _ => hb.element (hK.stages.mpr rfl)

theorem element (hK : K.InStep) (hb : K.Below self self') :
    Coupled (K.states v) (emitElement o self i d) (emitElement o self' i d) (K.code i) (K.states v) := by
  refine .bind K.elementAt fun e e' ⟨hee, he⟩ => ?_
  subst hee
  refine .bind flagsOf fun f f' ⟨g, h, hg, hf, hf'⟩ => ?_
  subst hf hf'
  rw [← hK.root he hg]
  refine .ite (fun hstatic => ?_) fun _ => .ite (fun _ => hK.once hb) fun _ => hb.inPlace he (hK.stages.mpr rfl)
  rw [Bool.and_eq_true] at hstatic
  exact hK.hoisted hb fun hg' hbody => hK.hoist he hg (.inl hstatic.1) hg' hbody

theorem step (hK : K.InStep) (hb : K.Below self self') : K.Below (step o self) (step o self') where
  element hd := by rw [hK.stages.mp hd]; exact hK.element hb
  onceElement _ _ hd := by rw [hK.stages.mp hd]; exact hK.once hb
  slotEntry hd := hb.slotDescriptor hd

theorem run (hK : K.InStep) (fuel : Nat) : K.Below (run o fuel) (run o fuel) := by
  induction fuel with
  | zero => exact ⟨fun _ => .throw, fun _ _ _ => .throw, fun _ => .throw⟩
  | succ fuel ih => exact hK.step ih

/-- Every task, whatever has been done of it. -/
theorem task (hK : K.InStep) (fuel : Nat) (task : Task) :
    Coupled (K.states v) (Generator.run o fuel task) (Generator.run o fuel task) (fun _ _ => True) (K.states v) := by
  cases fuel with
  | zero => exact .throw
  | succ fuel =>
    have hb := hK.run fuel
    cases task with
    | element i d => exact (hK.element hb).mono fun _ _ _ => trivial
    | onceElement i d => exact (hK.once hb).mono fun _ _ _ => trivial
    | slotEntry i d => exact (hb.slotDescriptor (hK.stages.mpr rfl)).mono fun _ _ _ => trivial

end InStep

end TemplateCompiler.Generator.Coupling
