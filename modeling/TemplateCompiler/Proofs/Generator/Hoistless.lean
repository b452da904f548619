import TemplateCompiler.Proofs.Code.Unhoisted
import TemplateCompiler.Proofs.Generator.CouplingData
import TemplateCompiler.Proofs.Generator.Exact
import TemplateCompiler.Proofs.Generator.Verbatim

/-!
# Generation without flags

A flagged tree and the same tree without flags are generated side by side. Where the flags make an element
a static root, the one side hoists it and the other goes on in its place, so the second code is the first
with its hoists undone. The two stay together as long as no element is written verbatim, rendered once, or
has an inline template, and no hash of slot content is taken over a hoist: slot definitions hold no static
root (`Setting.apart`). A hoist takes one more level of the bounded depth, so the side without flags may
have more depth left (`Setting.run`).
-/

namespace TemplateCompiler

/-- A memo that knows of no verbatim element. -/
def Memo.Clear (m : Memo) : Prop :=
  ∀ i b, Table.get? i m = some b → b = false

theorem Memo.Clear.put {m : Memo} (h : m.Clear) (i : Nat) : Memo.Clear (Table.put i false m) :=
  Recalls.put (h : m.Recalls fun _ found => found = false) rfl

/-- Where no element is verbatim, none is found. -/
theorem Memo.query_of_clear {t : Tree} (ht : ∀ i e, t.element? i = some e → e.pre.truthy = false)
    (fuel i : Nat) {m : Memo} (hm : m.Clear) :
    (Memo.query t fuel i m).1 = false ∧ (Memo.query t fuel i m).2.Clear := by
  induction fuel generalizing i m with
  | zero => exact ⟨rfl, hm⟩
  | succ fuel ih =>
    have hpre : (t.element? i).any (fun e => e.pre.truthy) = false := by
      rcases he : t.element? i with _ | e
      · rfl
      · exact ht i e he
    unfold Memo.query
    rcases hk : Table.get? i m with _ | known
    · simp only [hpre, Bool.false_eq_true, if_false]
      rcases t.parent? i with _ | p
      · exact ⟨rfl, hm.put i⟩
      · obtain ⟨habove, hclear⟩ := ih p hm
        dsimp only
        rw [habove]
        exact ⟨rfl, hclear.put i⟩
    · exact ⟨hm i known hk, hm⟩

namespace Generator

/-- The tree `t`, the same tree with flags, and the options both are generated with. -/
structure Setting (o : Options) where
  t : Tree
  flagged : Tree
  root : Nat
  ordinary : t.Ordinary
  /-- Slot definitions hold no static root. -/
  apart : ∀ i, t.InSlot root i → (flagged.flags i).root.truthy = false
  modules : o.modules = CompilerModule.standard
  plugins : ∀ name p, Table.get? name o.directives = some p →
    ∀ site e d, (p.compile site e d).element.unbound = e.unbound

namespace Setting

variable {o : Options} (S : Setting o)

/-- The states of the two sides. -/
structure States (g h : Generation) : Prop where
  left : g.verbatim = false
  right : h.verbatim = false
  tree : h.tree = g.tree.unflag
  warnings : g.warnings = h.warnings
  clearLeft : g.memo.Clear
  clearRight : h.memo.Clear
  resembles : S.t.Resembles g.tree
  flags : ∀ i, g.tree.flags i = S.flagged.flags i

/-- An element of the tree, up to its bindings. -/
def Shape (i : Nat) (e : Element) : Prop :=
  ∃ e₀, S.t.element? i = some e₀ ∧ e₀.unbound = e.unbound

variable {S}

theorem Shape.ordinary {i : Nat} {e : Element} (h : S.Shape i e) :
    e.once.truthy = false ∧ e.pre.truthy = false ∧ e.inlineTemplate.truthy = false := by
  obtain ⟨e₀, he₀, heq⟩ := h
  have hfields := S.ordinary i e₀ he₀
  rw [show e.once = e.unbound.once from rfl, show e.pre = e.unbound.pre from rfl,
    show e.inlineTemplate = e.unbound.inlineTemplate from rfl, ← heq]
  exact hfields

theorem Shape.emits {i j : Nat} {e : Element} (h : S.Shape i e)
    (hj : j ∈ e.children ∨ j ∈ e.conditions.map Condition.block ∨ j ∈ e.scopedSlots.map Prod.snd) :
    S.t.Emits i j := by
  obtain ⟨e₀, he₀, heq⟩ := h
  rw [show e.children = e.unbound.children from rfl, show e.conditions = e.unbound.conditions from rfl,
    show e.scopedSlots = e.unbound.scopedSlots from rfl, ← heq] at hj
  exact ⟨e₀, he₀, hj⟩

theorem States.modifyElement {g h : Generation} (hg : S.States g h) {i : Nat}
    {f : Element → Element} (hf : ∀ e, g.tree.element? i = some e → (f e).unbound = e.unbound) :
    S.States { g with tree := g.tree.modifyElement i f } { h with tree := h.tree.modifyElement i f } :=
  { hg with
    tree := by rw [Tree.unflag_modifyElement, hg.tree]
    resembles := hg.resembles.modifyElement hf
    flags := fun j => by rw [Tree.flags_modifyElement, hg.flags] }

theorem States.pre {g h : Generation} (hg : S.States g h) (i : Nat) (e : Element)
    (he : g.tree.element? i = some e) : e.pre.truthy = false :=
  (Shape.ordinary (hg.resembles.element he)).2.1

/-- Asking whether an element is verbatim only changes the memo. -/
theorem outcome_isVerbatim {g : Generation} (hm : g.memo.Clear)
    (hpre : ∀ i e, g.tree.element? i = some e → e.pre.truthy = false) (i : Nat) :
    ∃ m, m.Clear ∧ outcome (isVerbatim i) g = (.ok false, { g with memo := m }) := by
  have h := Memo.query_of_clear hpre (g.tree.size + 1) i hm
  refine ⟨_, h.2, ?_⟩
  rw [← h.1]
  rfl

variable (S)

/-- Code of the node at `i`, and what it is without hoists. -/
def CodeAt (i : Nat) (a b : Code) : Prop :=
  Relation.ReflTransGen S.t.Emits S.root i →
    b = a.unhoisted ∧ a.Inlinable ∧ (S.t.InSlot S.root i → a.HoistFree)

/-- Descriptors of the slot definitions of the host at `i`. -/
def ContentAt (i : Nat) (a b : Code) : Prop :=
  Relation.ReflTransGen S.t.Emits S.root i → b = a.unhoisted ∧ a.Inlinable ∧ a.HoistFree

variable {S}

theorem CodeAt.map {i : Nat} {a a' : Code} (h : S.CodeAt i a a') {f : Code → Code}
    (hu : ∀ a, (f a).unhoisted = f a.unhoisted) (hi : a.Inlinable → (f a).Inlinable)
    (hf : a.HoistFree → (f a).HoistFree) : S.CodeAt i (f a) (f a') := by
  intro hr
  obtain ⟨rfl, hin, hfree⟩ := h hr
  exact ⟨(hu a).symm, hi hin, fun hs => hf (hfree hs)⟩

theorem CodeAt.map₂ {i : Nat} {a a' b b' : Code} (ha : S.CodeAt i a a') (hb : S.CodeAt i b b')
    {f : Code → Code → Code} (hu : ∀ a b, (f a b).unhoisted = f a.unhoisted b.unhoisted)
    (hi : a.Inlinable → b.Inlinable → (f a b).Inlinable)
    (hf : a.HoistFree → b.HoistFree → (f a b).HoistFree) : S.CodeAt i (f a b) (f a' b') := by
  intro hr
  obtain ⟨rfl, hina, hfreea⟩ := ha hr
  obtain ⟨rfl, hinb, hfreeb⟩ := hb hr
  exact ⟨(hu a b).symm, hi hina hinb, fun hs => hf (hfreea hs) (hfreeb hs)⟩

/-- What is emitted below an element stands where the element stands. -/
theorem CodeAt.below {i j : Nat} {e : Element} {a a' : Code} (he : S.Shape i e)
    (hj : j ∈ e.children ∨ j ∈ e.conditions.map Condition.block ∨ j ∈ e.scopedSlots.map Prod.snd)
    (h : S.CodeAt j a a') : S.CodeAt i a a' := by
  intro hr
  have hij := he.emits hj
  obtain ⟨ha, hin, hfree⟩ := h (hr.tail hij)
  refine ⟨ha, hin, fun ⟨k, ek, s, hk, hek, hs, hsi⟩ => hfree ⟨k, ek, s, hk, hek, hs, hsi.tail hij⟩⟩

theorem ContentAt.definition {i : Nat} {e : Element} {s : Json × Nat} {a a' : Code}
    (he : S.Shape i e) (hs : s ∈ e.scopedSlots) (h : S.CodeAt s.2 a a') : S.ContentAt i a a' := by
  intro hr
  have hmem : s.2 ∈ e.scopedSlots.map Prod.snd := List.mem_map_of_mem hs
  obtain ⟨ha, hin, hfree⟩ := h (hr.tail (he.emits (.inr (.inr hmem))))
  obtain ⟨e₀, he₀, heq⟩ := he
  refine ⟨ha, hin, hfree ⟨i, e₀, s.2, hr, he₀, ?_, .refl⟩⟩
  rw [show e₀.scopedSlots = e₀.unbound.scopedSlots from rfl, heq]
  exact hmem

theorem ContentAt.append {i : Nat} {a a' b b' : Code} (ha : S.ContentAt i a a')
    (hb : S.ContentAt i b b') : S.ContentAt i (a ++ b) (a' ++ b') := by
  intro hr
  obtain ⟨rfl, hina, hfreea⟩ := ha hr
  obtain ⟨rfl, hinb, hfreeb⟩ := hb hr
  exact ⟨rfl, ⟨trivial, hina, hinb⟩, rfl, hfreea, hfreeb⟩

theorem ContentAt.slots {i : Nat} {a a' : Code} (h : S.ContentAt i a a') (hint : UpdateHint) :
    S.CodeAt i (.slots i a hint) (.slots i a' hint) := by
  intro hr
  obtain ⟨rfl, hin, hfree⟩ := h hr
  refine ⟨rfl, ⟨?_, hin⟩, fun _ => ⟨rfl, hfree⟩⟩
  cases hint with
  | keyed => exact hfree
  | none | force => trivial

theorem States.isVerbatim {g h : Generation} (hg : S.States g h) (i : Nat) :
    ∃ m m', S.States { g with memo := m } { h with memo := m' } ∧
      outcome (isVerbatim i) g = (.ok false, { g with memo := m }) ∧
      outcome (isVerbatim i) h = (.ok false, { h with memo := m' }) := by
  obtain ⟨m, hm, hgm⟩ := outcome_isVerbatim hg.clearLeft hg.pre i
  obtain ⟨m', hm', hhm⟩ := outcome_isVerbatim hg.clearRight
    (fun i e he => hg.pre i e (by rw [← Tree.element?_unflag, ← hg.tree, he])) i
  exact ⟨m, m', { hg with clearLeft := hm, clearRight := hm' }, hgm, hhm⟩

variable (S)

/-- The flagged tree on the left, the tree without flags on the right. -/
def coupling : Coupling o where
  states v g h := v = false ∧ S.States g h
  stages d d' := { d with hoisted := true } = { d' with hoisted := true }
  shape := S.Shape
  code := S.CodeAt
  content := S.ContentAt
  unflag_tree hg := by rw [hg.2.tree, Tree.unflag_unflag]
  verbatim hg := ⟨hg.1 ▸ hg.2.left, hg.1 ▸ hg.2.right⟩
  shape_element hg he := hg.2.resembles.element he
  warn ws hg := ⟨hg.1, { hg.2 with warnings := by rw [hg.2.warnings] }⟩
  isVerbatim i := by
    intro g h hg b g' hb
    obtain ⟨m, m', hm, hgm, hhm⟩ := hg.2.isVerbatim i
    rw [hgm, Prod.mk.injEq, Except.ok.injEq] at hb
    obtain ⟨rfl, rfl⟩ := hb
    exact ⟨false, _, hhm, rfl, hg.1, hm⟩
  rebind i b hg := ⟨hg.1, hg.2.modifyElement fun _ _ => rfl⟩
  plugin hp he hg := by
    refine ⟨hg.1, hg.2.modifyElement fun e₁ he₁ => ?_⟩
    obtain ⟨e₀, he₀, heq⟩ := he
    obtain ⟨e₂, he₂, heq₂⟩ := hg.2.resembles.element he₁
    obtain rfl : e₀ = e₂ := Option.some.inj (he₀.symm.trans he₂)
    rw [S.plugins _ _ hp, ← heq, heq₂]
  enter he hi _ := by
    rw [he.ordinary.2.2] at hi
    cases hi
  leave hg hg' := ⟨hg.1, { hg'.2 with
    left := hg.2.left, right := hg.2.right, clearLeft := hg.2.clearLeft, clearRight := hg.2.clearRight }⟩
  fresh := rfl
  stages_agree h := by
    simp only [Stages.mk.injEq, true_and] at h
    exact h
  looped h := congrArg (fun d : Stages => { d with looped := true }) h
  branched h := congrArg (fun d : Stages => { d with branched := true }) h
  text s _ := ⟨rfl, trivial, fun _ => rfl⟩
  helper h _ := ⟨rfl, trivial, fun _ => rfl⟩
  append ha hb := ha.map₂ hb (fun _ _ => rfl) (fun ha hb => ⟨trivial, ha, hb⟩) fun ha hb => ⟨rfl, ha, hb⟩
  create ha hb := ha.map₂ hb (fun _ _ => rfl) (fun ha hb => ⟨trivial, ha, hb⟩) fun ha hb => ⟨rfl, ha, hb⟩
  loop ha := ha.map (fun _ => rfl) (fun ha => ⟨trivial, ha⟩) fun ha => ⟨rfl, ha⟩
  branch ha hb := ha.map₂ hb (fun _ _ => rfl) (fun ha hb => ⟨trivial, ha, hb⟩) fun ha hb => ⟨rfl, ha, hb⟩
  fragment ha := ha.map (fun _ => rfl) (fun ha => ⟨trivial, ha⟩) fun ha => ⟨rfl, ha⟩
  outlet ha := ha.map (fun _ => rfl) (fun ha => ⟨trivial, ha⟩) fun ha => ⟨rfl, ha⟩
  child he hc ha := ha.below he (.inl hc)
  block he hc ha := ha.below he (.inr (.inl (List.mem_map_of_mem hc)))
  contentText s _ := ⟨rfl, trivial, rfl⟩
  contentAppend ha hb := ha.append hb
  definition he hs ha := .definition he hs ha
  slots hint ha := ha.slots hint
  inline he hi _ := by
    rw [he.ordinary.2.2] at hi
    cases hi
  transform _ hm ha := by
    rw [CompilerModule.transform_standard (S.modules ▸ hm), CompilerModule.transform_standard (S.modules ▸ hm)]
    exact ha

variable {S} {i : Nat} {d d' : Stages} {v : Bool}

theorem flagsOf : Coupled (S.coupling.states v) (flagsOf i) (flagsOf i)
    (fun f f' => f = S.flagged.flags i ∧ f' = {}) (S.coupling.states v) := by
  refine .bind .get fun g h hg => .pure ⟨hg.2.flags i, ?_⟩
  rw [hg.2.tree, Tree.flags_unflag]

/-- An element that is no static root, or has been hoisted before. -/
theorem inPlace {self self' : Emit} (hb : S.coupling.Below self self') (hd : S.coupling.stages d d')
    (hroot : ((S.flagged.flags i).root.truthy && !d.hoisted) = false) :
    Coupled (S.coupling.states v) (emitElement o self i d) (emitElement o self' i d')
      (S.CodeAt i) (S.coupling.states v) := by
  refine .bind S.coupling.elementAt fun e e' ⟨hee, he⟩ => ?_
  subst hee
  have honce : e.once.truthy = false := he.ordinary.1
  refine .bind flagsOf fun f f' ⟨hf, hf'⟩ => ?_
  subst hf hf'
  rw [hroot, honce]
  exact hb.inPlace he hd

/-- A static root is hoisted on the left and goes on as it is on the right. -/
theorem hoists {self self' : Emit} (hb : S.coupling.Below self self') (hd : S.coupling.stages d d')
    (hroot : (S.flagged.flags i).root.truthy = true) :
    Coupled (S.coupling.states v) (emitHoisted self i d) (self' (.element i d')) (S.CodeAt i)
      (S.coupling.states v) := by
  intro g h hg c g' hc
  obtain ⟨g₁, g₂, body, henter, hbody, rfl, rfl⟩ := outcome_emitHoisted_ok hc
  obtain ⟨m, m', hm, hgm, -⟩ := hg.2.isVerbatim i
  have hg₁ : g₁ = { g with memo := m } := by
    unfold enterVerbatim at henter
    rw [outcome_bind_of_ok hgm] at henter
    cases henter
    rfl
  have hstates : S.States g₁ h := hg₁ ▸ { hg.2 with clearLeft := hm.clearLeft }
  have hhoisted : S.coupling.stages { d with hoisted := true } d' := hd
  obtain ⟨b, h', hout, hcode, hg₂⟩ := hb.element hhoisted g₁ h ⟨hg.1, hstates⟩ body g₂ hbody
  refine ⟨b, h', hout, fun hr => ?_, hg.1, { hg₂.2 with left := hg.2.left }⟩
  obtain ⟨hun, hin, -⟩ := hcode hr
  refine ⟨hun, ⟨trivial, hin⟩, fun hs => ?_⟩
  rw [S.apart i hs] at hroot
  cases hroot

/-- Generation to any depth on the left, and at least as deep on the right. -/
theorem run (left right : Nat) (hle : left ≤ right) :
    S.coupling.Below (run o left) (run o right) := by
  induction left generalizing right with
  | zero => exact ⟨fun _ => .throw, fun _ _ _ => .throw, fun _ => .throw⟩
  | succ left ih =>
    obtain ⟨right, rfl⟩ : ∃ n, right = n + 1 := ⟨right - 1, by omega⟩
    have hb := ih right (by omega)
    refine ⟨fun {v i d d'} hd => ?_, fun he ho _ => ?_, fun hd => hb.slotDescriptor hd⟩
    · by_cases hroot : ((S.flagged.flags i).root.truthy && !d.hoisted) = true
      · -- The right side does not move: the body is generated against the same task again.
        rw [Bool.and_eq_true] at hroot
        have hleft : ∀ g h, S.coupling.states v g h → ∀ a g',
            outcome (emitElement o (Generator.run o left) i d) g = (.ok a, g') →
            outcome (emitHoisted (Generator.run o left) i d) g = (.ok a, g') := by
          intro g h hg a g' ha
          obtain ⟨e, g₁, he, ha⟩ := outcome_bind_ok ha
          rw [outcome_elementAt] at he
          split at he <;> cases he
          obtain ⟨f, g₂, hf, ha⟩ := outcome_bind_ok ha
          cases hf
          rw [hg.2.flags, hroot.1, hroot.2] at ha
          exact ha
        intro g h hg a g' ha
        exact hoists (ih (right + 1) (by omega)) hd hroot.1 g h hg a g' (hleft g h hg a g' ha)
      · rw [Bool.not_eq_true] at hroot
        exact inPlace hb hd hroot
    · rw [he.ordinary.1] at ho
      cases ho

theorem emitRoot : Coupled (S.coupling.states v) (emitRoot o (some S.root)) (emitRoot o (some S.root))
    (S.CodeAt S.root) (S.coupling.states v) := by
  refine .bind .get fun g h hg => ?_
  refine .bind S.coupling.elementAt fun e e' ⟨hee, he⟩ => ?_
  subst hee
  have hdepth : depth g.tree = depth h.tree := by rw [depth, depth, hg.2.tree, Tree.size_unflag]
  exact (run _ _ (Nat.le_of_eq hdepth)).template

/-- Dropping the flags undoes the hoists and changes nothing else. -/
theorem generate (S : Setting o) (ht : S.flagged.unflag = S.t) (hr : S.t.root = some S.root) {c : Code}
    (hc : (S.flagged.generate o none).code = .ok c) :
    (S.t.generate o none).code = .ok c.unhoisted ∧ c.Inlinable ∧
      (S.t.generate o none).warnings = (S.flagged.generate o none).warnings := by
  have hr₁ : S.flagged.root = some S.root := by rw [← Tree.root_unflag, ht, hr]
  have hclear : Memo.Clear [] := by
    intro i b hb
    cases hb
  have hstart : S.coupling.states false { tree := S.flagged } { tree := S.t } :=
    ⟨rfl, { left := rfl, right := rfl, tree := ht.symm, warnings := rfl, clearLeft := hclear,
            clearRight := hclear, resembles := .of_unflag (by rw [← ht, Tree.unflag_unflag]),
            flags := fun _ => rfl }⟩
  rw [generate_eq, hr₁, Option.none_or] at hc
  rw [generate_eq, generate_eq, hr, hr₁, Option.none_or]
  obtain ⟨b, h', hout, hcode, hg'⟩ := emitRoot _ _ hstart c _ (Prod.ext hc rfl)
  obtain ⟨rfl, hin, -⟩ := hcode .refl
  rw [hout]
  exact ⟨rfl, hin, hg'.2.warnings.symm⟩

end Setting

end Generator

end TemplateCompiler
