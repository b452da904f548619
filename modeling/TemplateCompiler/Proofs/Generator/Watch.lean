import TemplateCompiler.Proofs.Code.References
import TemplateCompiler.Proofs.Code.Unhoisted
import TemplateCompiler.Proofs.Generator.InStep

/-!
# Watching a single generation

A generation coupled with itself: `Watch` names an invariant of the tree, which survives any change of an
element, and a property that each piece of generated code has, given it of the hoists and the once marks.
Both are decided by the flags of an element: static roots and what stands in no loop are hoisted, and what
stands in a loop is marked. `Watch.run` says that generation keeps invariant and property at every depth,
and leaves the verbatim switch as it was.
-/

namespace TemplateCompiler

/-- Code that the flags of an element decide about. -/
def Code.isStaged : Code → Bool
  | hoist _ _ _ | once _ _ _ => true
  | _ => false

/-- The flags with which an element is hoisted. -/
def Flags.hoists (f : Flags) : Prop :=
  f.root.truthy = true ∨ f.inLoop.truthy = false

namespace Generator

structure Watch (o : Options) where
  tree : Tree → Prop
  code : Code → Prop
  modifyElement : ∀ {t} i f, tree t → tree (t.modifyElement i f)
  ordinary : ∀ {c : Code}, c.isProcessed = false → c.isStaged = false → code c
  hoist : ∀ {t t'} i body, tree t → (t.flags i).hoists → tree t' →
    code (.hoist i ((t'.flags i).inLoop.truthy) body)
  mark : ∀ {t} i key body, tree t → (t.flags i).inLoop.truthy = true → code (.once i key body)
  transform : ∀ {m e c}, m ∈ o.modules → c.Everywhere code → (m.transform e c).Everywhere code

namespace Watch

variable {o : Options} (w : Watch o)

/-- A generation whose state is equal on both sides. -/
def coupling : Coupling o where
  states v g h := g = h ∧ g.verbatim = v ∧ w.tree g.tree
  stages d d' := d = d'
  shape _ _ := True
  code _ a a' := a = a' ∧ a.Everywhere w.code
  content _ a a' := a = a' ∧ a.Everywhere w.code
  unflag_tree h := by rw [h.1]
  verbatim h := ⟨h.2.1, h.1 ▸ h.2.1⟩
  shape_element _ _ := trivial
  warn ws h := ⟨by rw [h.1], h.2⟩
  isVerbatim i := by
    refine .bind .get fun g h hg => ?_
    obtain ⟨rfl, hv, ht⟩ := hg
    intro s s' _ b s'' hb
    exact ⟨b, s'', by rw [← hb]; rfl, rfl, by cases hb; exact ⟨rfl, hv, ht⟩⟩
  rebind i b h := ⟨by rw [h.1], h.2.1, w.modifyElement i _ h.2.2⟩
  plugin _ _ h := ⟨by rw [h.1], h.2.1, w.modifyElement _ _ h.2.2⟩
  enter _ _ h := ⟨by rw [h.1], rfl, h.2.2⟩
  leave h h' := ⟨by rw [h.1, h'.1], h.2.1, h'.2.2⟩
  fresh := rfl
  stages_agree h := by rw [h]; exact ⟨rfl, rfl, rfl⟩
  looped h := by rw [h]
  branched h := by rw [h]
  text s := ⟨rfl, w.ordinary rfl rfl⟩
  helper h := ⟨rfl, w.ordinary rfl rfl⟩
  append ha hb := ⟨by rw [ha.1, hb.1], w.ordinary rfl rfl, ha.2, hb.2⟩
  create ha hb := ⟨by rw [ha.1, hb.1], w.ordinary rfl rfl, ha.2, hb.2⟩
  loop ha := ⟨by rw [ha.1], w.ordinary rfl rfl, ha.2⟩
  branch ha hb := ⟨by rw [ha.1, hb.1], w.ordinary rfl rfl, ha.2, hb.2⟩
  fragment ha := ⟨by rw [ha.1], w.ordinary rfl rfl, ha.2⟩
  outlet ha := ⟨by rw [ha.1], w.ordinary rfl rfl, ha.2⟩
  child _ _ ha := ha
  block _ _ ha := ha
  contentText s := ⟨rfl, w.ordinary rfl rfl⟩
  contentAppend ha hb := ⟨by rw [ha.1, hb.1], w.ordinary rfl rfl, ha.2, hb.2⟩
  definition _ _ ha := ha
  slots hint ha := ⟨by rw [ha.1], w.ordinary rfl rfl, ha.2⟩
  inline _ _ ha := ⟨by rw [ha.1], w.ordinary rfl rfl, ha.2⟩
  transform _ hm ha := ⟨by rw [ha.1], w.transform hm ha.2⟩

variable {w} {self : Emit} {v : Bool} {i : Nat} {d : Stages}

theorem inStep (w : Watch o) : w.coupling.InStep where
  stages := .rfl
  switch _ h := ⟨by rw [h.1], rfl, h.2.2⟩
  root _ h := by rw [h.1]
  inLoop _ h := by rw [h.1]
  hoist _ h hf h' hbody := ⟨by rw [h'.1, hbody.1], w.hoist _ _ h.2.2 hf h'.2.2, hbody.2⟩
  mark key h hin hbody := ⟨by rw [hbody.1], w.mark _ key _ h.2.2 hin, hbody.2⟩

theorem hoisted (hb : w.coupling.Below self self)
    (hcode : ∀ {t} body, w.tree t → w.code (.hoist i ((t.flags i).inLoop.truthy) body)) :
    Coupled (w.coupling.states v) (emitHoisted self i d) (emitHoisted self i d) (w.coupling.code i)
      (w.coupling.states v) :=
  w.inStep.hoisted hb fun hg hbody => ⟨by rw [hg.1, hbody.1], hcode _ hg.2.2, hbody.2⟩

theorem once (hb : w.coupling.Below self self) :
    Coupled (w.coupling.states v) (emitOnce self i d) (emitOnce self i d) (w.coupling.code i)
      (w.coupling.states v) :=
  w.inStep.once hb

theorem run (fuel : Nat) : w.coupling.Below (run o fuel) (run o fuel) :=
  w.inStep.run fuel

/-- What a watched action keeps. -/
theorem keeps {α : Type} {x : GenM α} {R : α → α → Prop} {g g' : Generation} {a : α}
    (hx : Coupled (w.coupling.states g.verbatim) x x R (w.coupling.states g.verbatim))
    (ht : w.tree g.tree) (h : outcome x g = (.ok a, g')) :
    R a a ∧ g'.verbatim = g.verbatim ∧ w.tree g'.tree := by
  obtain ⟨b, g₂, hb, hab, -, hv, ht'⟩ := hx g g ⟨rfl, rfl, ht⟩ a g' h
  rw [h, Prod.mk.injEq, Except.ok.injEq] at hb
  obtain ⟨rfl, rfl⟩ := hb
  exact ⟨hab, hv, ht'⟩

theorem root (root : Option Nat) :
    Coupled (w.coupling.states v) (emitRoot o root) (emitRoot o root)
      (fun a b => a = b ∧ a.Everywhere w.code) (w.coupling.states v) := by
  cases root with
  | none => exact .pure (w.coupling.plain (i := 0) rfl)
  | some i =>
    refine .bind .get fun g h hg => ?_
    obtain ⟨rfl, -, -⟩ := hg
    refine .bind w.coupling.elementAt fun e e' ⟨hee, he⟩ => ?_
    subst hee
    exact (run _).template

/-- A generation keeps what is watched. -/
theorem generate (w : Watch o) {t : Tree} {root : Option Nat} {c : Code}
    (ht : w.tree t) (hc : (t.generate o root).code = .ok c) : c.Everywhere w.code := by
  rw [generate_eq] at hc
  exact (keeps (Watch.root _) ht (Prod.ext hc rfl)).1.2

end Watch

end Generator

end TemplateCompiler
