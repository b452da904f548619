import TemplateCompiler.Proofs.Generator.InStep

/-!
# Trees that a generation cannot tell apart

Of the flags of a tree, a generation reads two: whether an element is a static root and whether it stands in a
loop. Values count as yes or no. Two trees with the same template whose flags agree in this sense (`Tree.Alike`)
give the same code and the same warnings (`Tree.Alike.generate`), since all that a generation does to a tree
keeps them alike.
-/

namespace TemplateCompiler

/-- The same template, whose elements are among the nodes `D`; and flags that mean the same at these nodes. -/
structure Tree.Alike (D : Nat → Prop) (t u : Tree) : Prop where
  unflag : t.unflag = u.unflag
  elements : ∀ {i e}, t.element? i = some e → D i
  root : ∀ {i}, D i → (t.flags i).root.truthy = (u.flags i).root.truthy
  inLoop : ∀ {i}, D i → (t.flags i).inLoop.truthy = (u.flags i).inLoop.truthy

namespace Tree.Alike

variable {D : Nat → Prop} {t u : Tree}

theorem symm (h : t.Alike D u) : u.Alike D t where
  unflag := h.unflag.symm
  elements he := h.elements (element?_eq_of_unflag h.unflag _ ▸ he)
  root hi := (h.root hi).symm
  inLoop hi := (h.inLoop hi).symm

theorem modifyElement (h : t.Alike D u) (i : Nat) (f : Element → Element) :
    (t.modifyElement i f).Alike D (u.modifyElement i f) where
  unflag := by rw [unflag_modifyElement, h.unflag, unflag_modifyElement]
  elements {j e} he := by
    rw [element?_modifyElement] at he
    split at he
    · obtain ⟨e₀, he₀, -⟩ := Option.map_eq_some_iff.mp he
      exact h.elements he₀
    · exact h.elements he
  root hj := by rw [flags_modifyElement, flags_modifyElement, h.root hj]
  inLoop hj := by rw [flags_modifyElement, flags_modifyElement, h.inLoop hj]

end Tree.Alike

theorem Memo.query_unflag (t : Tree) (fuel i : Nat) (memo : Memo) :
    Memo.query t.unflag fuel i memo = Memo.query t fuel i memo := by
  induction fuel generalizing i memo with
  | zero => rfl
  | succ fuel ih =>
    unfold Memo.query
    simp only [Tree.element?_unflag, Tree.parent?_unflag, ih]

namespace Generator

/-- Two generations that differ in the flags of their trees only, and not in what these mean. -/
structure SameStates (D : Nat → Prop) (v : Bool) (g h : Generation) : Prop where
  alike : g.tree.Alike D h.tree
  memo : g.memo = h.memo
  warnings : g.warnings = h.warnings
  verbatim : g.verbatim = v ∧ h.verbatim = v

theorem SameStates.isVerbatim {D : Nat → Prop} {v : Bool} (i : Nat) :
    Coupled (SameStates D v) (isVerbatim i) (isVerbatim i) (fun a b => a = b) (SameStates D v) := by
  intro g h hg a g' ha
  have hquery : Memo.query g.tree (g.tree.size + 1) i g.memo = Memo.query h.tree (h.tree.size + 1) i h.memo := by
    rw [← Memo.query_unflag, ← Memo.query_unflag h.tree, ← Tree.size_unflag, ← Tree.size_unflag h.tree,
      hg.alike.unflag, hg.memo]
  cases ha
  exact ⟨_, _, rfl, congrArg Prod.fst hquery, ⟨hg.alike, congrArg Prod.snd hquery, hg.warnings, hg.verbatim⟩⟩

/-- Both sides have come equally far with an element. -/
abbrev SameStages (d d' : Stages) : Prop :=
  d = d'

theorem SameStages.refl (d : Stages) : SameStages d d :=
  rfl

/-- Both sides emit the same. -/
def sameFlags (o : Options) (D : Nat → Prop) : Coupling o where
  states := SameStates D
  stages := SameStages
  shape i _ := D i
  code _ a a' := a = a'
  content _ a a' := a = a'
  unflag_tree h := h.alike.unflag
  verbatim h := h.verbatim
  shape_element h he := h.alike.elements he
  warn ws h := { h with warnings := by rw [h.warnings] }
  isVerbatim i := SameStates.isVerbatim i
  rebind i _ h := { h with alike := h.alike.modifyElement i _ }
  plugin _ _ h := { h with alike := h.alike.modifyElement _ _ }
  enter _ _ h := { h with memo := rfl, verbatim := ⟨rfl, rfl⟩ }
  leave h h' := { h' with memo := h.memo, verbatim := h.verbatim }
  fresh := .refl _
  stages_agree h := by rw [h]; exact ⟨rfl, rfl, rfl⟩
  looped h := by rw [h]
  branched h := by rw [h]
  text _ := rfl
  helper _ := rfl
  append ha hb := by rw [ha, hb]
  create ha hb := by rw [ha, hb]
  loop ha := by rw [ha]
  branch ha hb := by rw [ha, hb]
  fragment ha := by rw [ha]
  outlet ha := by rw [ha]
  child _ _ ha := ha
  block _ _ ha := ha
  contentText _ := rfl
  contentAppend ha hb := by rw [ha, hb]
  definition _ _ ha := ha
  slots _ ha := by rw [ha]
  inline _ _ ha := by rw [ha]
  transform _ _ ha := by rw [ha]

theorem inStep_sameFlags (o : Options) (D : Nat → Prop) : (sameFlags o D).InStep where
  stages := .rfl
  switch _ h := { h with verbatim := ⟨rfl, rfl⟩ }
  root hi h := h.alike.root hi
  inLoop hi h := h.alike.inLoop hi
  hoist hi _ _ h' hbody := congrArg₂ (Code.hoist _) (h'.alike.inLoop hi) hbody
  mark key _ _ hbody := congrArg (Code.once _ key) hbody

theorem sameFlags_root {o : Options} {D : Nat → Prop} {v : Bool} (root : Option Nat) :
    Coupled (SameStates D v) (emitRoot o root) (emitRoot o root) (fun a b => a = b) (SameStates D v) := by
  cases root with
  | none => exact .pure rfl
  | some i =>
    refine .bind .get fun g h hg => ?_
    have hdepth : depth g.tree = depth h.tree := by
      rw [depth, depth, ← Tree.size_unflag, hg.alike.unflag, Tree.size_unflag]
    rw [hdepth]
    refine .bind (sameFlags o D).elementAt fun e e' ⟨hee, _⟩ => ?_
    subst hee
    exact ((inStep_sameFlags o D).run _).template

end Generator

/-- Trees that are alike give the same code and the same warnings. -/
theorem Tree.Alike.generate {D : Nat → Prop} {t u : Tree} (h : t.Alike D u) {o : Options} {root : Option Nat}
    {c : Code} (hc : (t.generate o root).code = .ok c) :
    (u.generate o root).code = .ok c ∧ (u.generate o root).warnings = (t.generate o root).warnings := by
  have hroot : t.root = u.root := by rw [← root_unflag, h.unflag, root_unflag]
  rw [Generator.generate_eq] at hc ⊢
  rw [Generator.generate_eq, ← hroot]
  obtain ⟨c', g', hu, rfl, hg'⟩ := Generator.sameFlags_root (o := o) (root.or t.root) { tree := t } { tree := u }
    ⟨h, rfl, rfl, rfl, rfl⟩ c _ (Prod.ext hc rfl)
  rw [hu]
  exact ⟨rfl, hg'.warnings.symm⟩

end TemplateCompiler
