import TemplateCompiler.Proofs.Generator.Coupling

/-!
# Data objects and nodes side by side

The rest of the emitters under a `Coupling`: the parts of a data object, whose plugins change the tree on
both sides alike and whose inline templates are generated apart, and the node that is made of them
(`Coupling.Below.inPlace`).
-/

namespace TemplateCompiler.Generator.Coupling

variable {o : Options} {K : Coupling o} {self self' : Emit} {v : Bool} {i : Nat} {e : Element}
variable {d d' : Stages}

/-! ## Parts -/

/-- Related parts of the data of the node at `i`. -/
inductive part (K : Coupling o) (i : Nat) : DataPart → DataPart → Prop
  | entry {a a' : Code} (h : K.code i a a') : K.part i (.entry a) (.entry a')
  | fragments (s : String) : K.part i (.fragments s) (.fragments s)

/-- Related lists of parts. -/
def parts (K : Coupling o) (i : Nat) : List DataPart → List DataPart → Prop :=
  List.Forall₂ (K.part i)

theorem parts_self {ps : List DataPart} (h : ∀ p ∈ ps, p.isPlain = true) : K.parts i ps ps := by
  refine List.forall₂_same.mpr fun p hp => ?_
  cases p with
  | entry code => exact .entry (K.plain (h _ hp))
  | fragments s => exact .fragments s

theorem parts.append {ps ps' qs qs' : List DataPart} (hp : K.parts i ps ps') (hq : K.parts i qs qs') :
    K.parts i (ps ++ qs) (ps' ++ qs') :=
  List.rel_append hp hq

theorem parts.singleton {a a' : Code} (h : K.code i a a') :
    K.parts i [.entry a] [.entry a'] :=
  .cons (.entry h) .nil

theorem parts.all_isBlank {ps ps' : List DataPart} (h : K.parts i ps ps') :
    ps.all DataPart.isBlank = ps'.all DataPart.isBlank := by
  induction h with
  | nil => rfl
  | cons hp _ ih =>
    rw [List.all_cons, List.all_cons, ih]
    cases hp <;> rfl

theorem parts.join {ps ps' : List DataPart} (h : K.parts i ps ps') :
    K.code i (DataPart.join ps) (DataPart.join ps') := by
  induction h with
  | nil => exact K.text ""
  | cons hp hrest ih =>
    unfold DataPart.join
    rw [parts.all_isBlank hrest]
    cases hp with
    | entry ha =>
      split
      · exact ha
      · exact K.append (K.append ha (K.text _)) ih
    | fragments s =>
      split
      · exact K.text _
      · exact K.append (K.text _) ih

/-! ## Plugins -/

theorem runDirective (d : Directive) :
    Coupled (K.states v) (runDirective o i d) (runDirective o i d) (fun a b => a = b) (K.states v) := by
  unfold Generator.runDirective
  cases hp : Table.get? d.name o.directives with
  | none => exact .pure rfl
  | some p =>
    refine .bind K.siteOf fun site site' hsite => ?_
    refine .bind K.elementAt fun e e' ⟨hee, he⟩ => ?_
    subst hsite hee
    refine .bind (.modify fun g h hg => K.warn _ (K.plugin hp he hg)) fun _ _ _ => ?_
    exact .bind (.liftFailure _) fun a b ⟨hab, _⟩ => .pure (by rw [hab])

theorem directives (ds : List Directive) :
    Coupled (K.states v) (emitDirectives o i ds) (emitDirectives o i ds) (K.parts i) (K.states v) := by
  refine .bind (.filterM fun d _ => runDirective d) fun kept kept' hkept => .pure ?_
  subst hkept
  exact parts_self fun _ => DataPart.isPlain_of_directivesEntry

/-! ## Inline templates -/

theorem mem_of_firstElement {t : Tree} {c : Nat} {child : Element}
    (h : firstElement? t e = some (c, child)) : c ∈ e.children := by
  unfold firstElement? at h
  rcases hc : e.children.head? with _ | c' <;> simp only [hc, Option.bind_none, Option.bind_some,
    reduceCtorEq, Option.map_eq_some_iff, Prod.mk.injEq] at h
  obtain ⟨_, _, rfl, _⟩ := h
  exact List.mem_of_head? hc

theorem Below.apart (he : K.shape i e) (hi : e.inlineTemplate.truthy = true) {α β : Type}
    {x : GenM α} {y : GenM β} {R : α → β → Prop}
    (hx : Coupled (K.states false) x y R (K.states false)) :
    Coupled (K.states v) (apart x) (apart y) R (K.states v) := by
  refine .bind .get fun g h hg => ?_
  refine .bind (.modify fun _ _ hg => K.enter he hi hg) fun _ _ _ => ?_
  refine .bind hx fun a b hab => ?_
  exact .bind (.modify fun _ _ hg' => K.leave hg hg') fun _ _ _ => .pure hab

theorem Below.template (hb : K.Below self self') :
    Coupled (K.states v) (emitTemplate self i e) (emitTemplate self' i e) (K.code i) (K.states v) :=
  .ite (fun _ => .pure (K.text _)) fun _ => hb.element K.fresh

theorem Below.inlineTemplate (hb : K.Below self self') (he : K.shape i e)
    (hi : e.inlineTemplate.truthy = true) :
    Coupled (K.states v) (emitInline self i e) (emitInline self' i e) (K.parts i) (K.states v) := by
  refine .bind .get fun g h hg => ?_
  have hfirst : firstElement? g.tree e = firstElement? h.tree e := by
    rw [← firstElement?_unflag, K.unflag_tree hg, firstElement?_unflag]
  have hspan : g.tree.span i = h.tree.span i := by
    rw [← Tree.span_unflag, K.unflag_tree hg, Tree.span_unflag]
  have hadvice : Coupled (K.states v) (adviseInline g.tree i e) (adviseInline h.tree i e)
      (fun _ _ => True) (K.states v) := by
    unfold adviseInline
    rw [hfirst, hspan]
    exact .ite (fun _ => K.warning _) fun _ => .pure trivial
  refine .bind hadvice fun _ _ _ => ?_
  rw [hfirst]
  rcases hf : firstElement? h.tree e with _ | ⟨c, child⟩
  · exact .pure .nil
  · refine .bind (apart he hi hb.template) fun a a' ha => .pure ?_
    exact .singleton (K.inline he hi (K.child he (mem_of_firstElement hf) ha))

/-! ## The data object -/

theorem propsEntry (i : Nat) (key : String) (props : List Attr) :
    Coupled (K.states v) (propsEntry key props) (propsEntry key props) (K.parts i) (K.states v) := by
  refine .ite (fun _ => .pure .nil) fun _ => ?_
  refine .bind (.liftFailure _) fun k k' ⟨hkk, hk⟩ => .pure ?_
  subst hkk
  exact .singleton (K.append (K.text _) (K.plain (isPlain_of_propsEntries hk)))

theorem eventsEntry (i : Nat) (events : Events) (native : Bool) :
    Coupled (K.states v) (eventsEntry events native) (eventsEntry events native) (K.parts i)
      (K.states v) := by
  refine .ite (fun _ => .pure .nil) fun _ => ?_
  refine .bind (.liftFailure _) fun c c' ⟨hcc, hc⟩ => .pure ?_
  subst hcc
  exact .singleton (K.plain (isPlain_of_eventsCode hc))

theorem Below.slotsEntry (hb : K.Below self self') (he : K.shape i e) :
    Coupled (K.states v) (slotsEntry self i e) (slotsEntry self' i e) (K.parts i) (K.states v) := by
  refine .ite (fun _ => .pure .nil) fun _ => ?_
  exact .bind (hb.scopedSlots he) fun a a' ha => .pure (.singleton ha)

theorem Below.inlineEntry (hb : K.Below self self') (he : K.shape i e) :
    Coupled (K.states v) (inlineEntry self i e) (inlineEntry self' i e) (K.parts i) (K.states v) :=
  .ite (fun hi => hb.inlineTemplate he hi) fun _ => .pure .nil

theorem Below.dataParts (hb : K.Below self self') (he : K.shape i e) :
    Coupled (K.states v) (emitParts o self i e) (emitParts o self' i e) (K.parts i) (K.states v) := by
  refine .bind (K.isVerbatim i) fun verbatim _ hverbatim => ?_
  subst hverbatim
  refine .bind (propsEntry i _ _) fun attrs attrs' hattrs => ?_
  refine .bind (propsEntry i _ _) fun props props' hprops => ?_
  refine .bind (eventsEntry i _ _) fun events events' hevents => ?_
  refine .bind (eventsEntry i _ _) fun native native' hnative => ?_
  refine .bind (hb.slotsEntry he) fun slots slots' hslots => ?_
  refine .bind (hb.inlineEntry he) fun inline inline' hinline => .pure ?_
  have hown : K.parts i (ownEntries o e verbatim) (ownEntries o e verbatim) :=
    parts_self fun _ => DataPart.isPlain_of_ownEntries
  have htarget : K.parts i (targetEntry e) (targetEntry e) :=
    parts_self fun _ => DataPart.isPlain_of_targetEntry
  have hmodel : K.parts i (e.model.map modelEntry).toList (e.model.map modelEntry).toList := by
    cases e.model with
    | none => exact .nil
    | some m => exact .singleton (K.text _)
  exact (((((((hown.append hattrs).append hprops).append hevents).append hnative).append
    htarget).append hslots).append hmodel).append hinline

theorem bindDynamicAttrs {a a' : Code} (ha : K.code i a a') :
    Coupled (K.states v) (liftFailure (bindDynamicAttrs e a)) (liftFailure (bindDynamicAttrs e a'))
      (K.code i) (K.states v) := by
  unfold Generator.bindDynamicAttrs
  dsimp only
  split
  · exact .pure ha
  · rcases hk : propsEntries (e.dynamicAttrs.getD []) with _ | k
    · exact .throw
    · refine .pure (K.append (K.append (K.append (K.helper _) (K.text _)) ?_) (K.text _))
      exact K.append (K.append ha (K.text _)) (K.plain (isPlain_of_propsEntries hk))

theorem mergeObjects {a a' : Code} (ha : K.code i a a') :
    K.code i (mergeObjects e a) (mergeObjects e a') := by
  have hdata : K.code i ((e.wrapData.map fun b => b.wrap a).getD a)
      ((e.wrapData.map fun b => b.wrap a').getD a') := by
    cases e.wrapData with
    | none => exact ha
    | some b => exact K.append (K.append (K.text _) ha) (K.text _)
  unfold Generator.mergeObjects
  cases e.wrapListeners with
  | none => exact hdata
  | some l => exact K.append (K.append (K.text _) hdata) (K.text _)

theorem Below.dataObject (hb : K.Below self self') (ds : List Directive) :
    Coupled (K.states v) (emitDataObject o self i ds) (emitDataObject o self' i ds) (K.code i)
      (K.states v) := by
  refine .bind (directives ds) fun kept kept' hkept => ?_
  refine .bind K.elementAt fun e e' ⟨hee, he⟩ => ?_
  subst hee
  refine .bind (hb.dataParts he) fun ps ps' hps => ?_
  have hdata := K.append (K.append (K.text "\x7b") (hkept.append hps).join) (K.text "\x7d")
  exact .bind (bindDynamicAttrs hdata) fun a a' ha => .pure (mergeObjects ha)

theorem restoring (bindings : Bindings) {x y : GenM Code}
    (h : Coupled (K.states v) x y (K.code i) (K.states v)) :
    Coupled (K.states v) (restoringBindings i bindings x) (restoringBindings i bindings y) (K.code i)
      (K.states v) := by
  intro g g₀ hg a g' ha
  rw [outcome_restoringBindings, Prod.mk.injEq] at ha
  obtain ⟨b, h', hb, hab, hg'⟩ := h g g₀ hg a (outcome x g).2 (by rw [← ha.1])
  refine ⟨b, _, by rw [outcome_restoringBindings, hb], hab, ?_⟩
  rw [← ha.2]
  exact K.rebind i bindings hg'

theorem Below.data (hb : K.Below self self') :
    Coupled (K.states v) (emitData o self i) (emitData o self' i) (K.code i) (K.states v) := by
  refine .bind K.elementAt fun e e' ⟨hee, _⟩ => ?_
  subst hee
  exact .ite (fun _ => hb.dataObject []) fun _ => restoring _ (hb.dataObject _)

/-! ## Nodes -/

theorem Below.nodeChildren (hb : K.Below self self') (he : K.shape i e) :
    Coupled (K.states v) (emitNodeChildren o self e) (emitNodeChildren o self' e) (K.children i)
      (K.states v) :=
  .ite (fun _ => .pure .none) fun _ => hb.childList he true

theorem Below.component (hb : K.Below self self') (he : K.shape i e) (name : String) :
    Coupled (K.states v) (emitComponent o self i e name) (emitComponent o self' i e name) (K.code i)
      (K.states v) := by
  refine .bind (hb.nodeChildren he) fun c c' hc => ?_
  refine .bind hb.data fun a a' ha => .pure ?_
  exact K.create (K.append (K.text _) ha) hc.argument

theorem needsData : Coupled (K.states v) (needsData o i e) (needsData o i e) (fun a b => a = b)
    (K.states v) := by
  refine .ite (fun _ => .pure rfl) fun _ => ?_
  refine .bind (K.isVerbatim i) fun a b hab => ?_
  subst hab
  refine .ite (fun _ => .pure rfl) fun _ => ?_
  exact (Coupled.liftFailure _).mono fun a b hab => hab.1

theorem Below.dataArgument (hb : K.Below self self') :
    Coupled (K.states v) (emitDataArgument o self i e) (emitDataArgument o self' i e) (K.code i)
      (K.states v) := by
  refine .bind needsData fun a b hab => ?_
  subst hab
  refine .ite (fun _ => ?_) fun _ => .pure (K.text "")
  exact .bind hb.data fun a a' ha => .pure (K.append (K.text _) ha)

theorem Below.tagged (hb : K.Below self self') :
    Coupled (K.states v) (emitPlain o self i e) (emitPlain o self' i e) (K.code i) (K.states v) := by
  refine .bind hb.dataArgument fun a a' ha => ?_
  refine .bind K.elementAt fun e₁ e₁' ⟨hee, he₁⟩ => ?_
  subst hee
  exact .bind (hb.nodeChildren he₁) fun c c' hc => .pure (K.create ha hc.argument)

theorem Below.bare (hb : K.Below self self') (he : K.shape i e) :
    Coupled (K.states v) (emitBare o self i e) (emitBare o self' i e) (K.code i) (K.states v) := by
  unfold emitBare
  cases e.component.filled? with
  | some name => exact hb.component he name
  | none => exact hb.tagged

theorem transformed (he : K.shape i e) {ms : List CompilerModule} (hms : ∀ m ∈ ms, m ∈ o.modules)
    {a a' : Code} (ha : K.code i a a') :
    K.code i (ms.foldl (fun code m => m.transform e code) a)
      (ms.foldl (fun code m => m.transform e code) a') := by
  induction ms generalizing a a' with
  | nil => exact ha
  | cons m ms ih =>
    refine ih (fun m hm => hms m (List.mem_cons_of_mem _ hm)) ?_
    exact K.transform he (hms m (List.mem_cons_self ..)) ha

theorem Below.creation (hb : K.Below self self') (he : K.shape i e) :
    Coupled (K.states v) (emitCreate o self i e) (emitCreate o self' i e) (K.code i) (K.states v) := by
  refine .bind (hb.bare he) fun a a' ha => ?_
  refine .bind K.elementAt fun e₁ e₁' ⟨hee, he₁⟩ => ?_
  subst hee
  exact .pure (transformed he₁ (fun _ hm => hm) ha)

theorem Below.fragments (hb : K.Below self self') (he : K.shape i e) :
    Coupled (K.states v) (emitFragment o self i e) (emitFragment o self' i e) (K.code i)
      (K.states v) :=
  .bind (hb.childList he false) fun _ _ hc => .pure (K.fragment (hc.getD _))

theorem Below.inPlace (hb : K.Below self self') (he : K.shape i e) (hd : K.stages d d') :
    Coupled (K.states v) (emitInPlace o self i e d) (emitInPlace o self' i e d') (K.code i)
      (K.states v) := by
  obtain ⟨-, hl, hbr⟩ := K.stages_agree hd
  unfold emitInPlace
  rw [hl, hbr]
  refine .ite (fun _ => hb.loops hd false) fun _ => ?_
  refine .ite (fun _ => hb.branches he hd false) fun _ => ?_
  refine .bind .get fun g h hg => ?_
  rw [(K.verbatim hg).1, (K.verbatim hg).2]
  refine .ite (fun _ => hb.fragments he) fun _ => ?_
  exact .ite (fun _ => hb.outlets he) fun _ => hb.creation he

end TemplateCompiler.Generator.Coupling
