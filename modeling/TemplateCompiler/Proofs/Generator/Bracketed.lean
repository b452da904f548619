import TemplateCompiler.Proofs.Code.BracketedParts
import TemplateCompiler.Proofs.Generator.Yields

/-!
# The code of a bracketed tree

From a bracketed tree every emitter yields code that leaves nothing open, given that the tasks below do, as long as
modules and plugins keep to it (`Options.Bracketing`), and so a generation gives bracketed code
(`Tree.Bracketed.generate`).
-/

namespace TemplateCompiler

open Text ModelPath
open Code (Takes bracketed_text bracketed_empty bracketed_join bracketed_callHelper)

/-- Modules leave nothing open, and a plugin keeps an element bracketed whose directive has its name. -/
structure Options.Bracketing (o : Options) : Prop where
  modules : ∀ m ∈ o.modules, m.Bracketing
  directives : ∀ {d : Directive} {p : DirectivePlugin}, Table.get? d.name o.directives = some p →
    ∀ (site : Site) {e : Element}, e.Bracketed → d.Bracketed → (∀ s ∈ d.target?, s = "" ∨ MemberPath s) →
      (p.compile site e d).element.Bracketed

namespace Generator

theorem yields_nodeAt {i : Nat} : Yields Tree.Bracketed (nodeAt i) Node.Bracketed :=
  Yields.nodeAt.mono fun _ ⟨_, ht, hn⟩ => ht _ _ hn

theorem yields_elementAt {i : Nat} : Yields Tree.Bracketed (elementAt i) Element.Bracketed :=
  Yields.elementAt.mono fun _ ⟨_, ht, he⟩ => ht.element he

theorem balanced_of_loopKey {t : Tree} (ht : t.Bracketed) {i : Nat} {key : String}
    (h : loopKey? (t.ancestorElements i) = some key) : Balanced key := by
  obtain ⟨e, he, hkey⟩ := Option.bind_eq_some_iff.mp h
  obtain ⟨j, -, hj⟩ := List.mem_filterMap.mp (List.mem_of_find?_eq_some he)
  exact ((ht.element hj).codes e.key (by simp [Element.expressions])).of_filled? hkey

section

variable {o : Options} {self : Emit} {i : Nat} {e : Element} {done : Stages} {slot : Bool}

/-! ## Plugins and bindings -/

/-- A directive as a bracketed element has it. -/
def Bound (d : Directive) : Prop :=
  d.Bracketed ∧ ∀ s ∈ d.target?, s = "" ∨ MemberPath s

theorem yields_runDirective (ho : o.Bracketing) {d : Directive} (hd : Bound d) :
    Yields Tree.Bracketed (runDirective o i d) fun _ => True := by
  unfold runDirective
  split
  · exact .pure trivial
  · next p hp =>
    refine .bind (.of_untouched .siteOf) fun site _ => .bind yields_elementAt fun e he => ?_
    have hplugin : (p.compile site e d).element.Bracketed := ho.directives hp site he hd.1 hd.2
    refine .bind (.modify fun g hg => hg.modifyElement fun _ _ => hplugin) fun _ _ => ?_
    exact .bind (.liftFailure fun _ _ => trivial) fun _ _ => .pure trivial

theorem yields_directives (ho : o.Bracketing) {ds : List Directive} (hds : ∀ d ∈ ds, Bound d) :
    Yields Tree.Bracketed (emitDirectives o i ds) fun ps => ∀ p ∈ ps, p.Bracketed := by
  refine .bind (.filterM hds fun d hd => yields_runDirective ho hd) fun kept hkept => .pure ?_
  exact bracketed_directivesEntry fun d hd => (hkept d hd).1

theorem yields_propsEntry {key : String} (hkey : Balanced key) {props : List Attr}
    (hp : ∀ a ∈ props, a.Bracketed) :
        Yields Tree.Bracketed (propsEntry key props) fun ps => ∀ p ∈ ps, p.Bracketed := by
  refine .ite (.pure nofun) (.bind (.liftFailure fun _ => bracketed_of_propsEntries hp) fun k hk => .pure ?_)
  exact List.forall_mem_singleton.mpr ((bracketed_text hkey).code hk)

theorem yields_eventsEntry {events : Events} (h : events.Bracketed) (native : Bool) :
    Yields Tree.Bracketed (eventsEntry events native) fun ps => ∀ p ∈ ps, p.Bracketed := by
  refine .ite (.pure nofun) (.bind (.liftFailure fun _ => bracketed_of_eventsCode h) fun c hc => .pure ?_)
  exact List.forall_mem_singleton.mpr hc

/-! ## Chains, loops and children -/

variable (hself : ∀ task, Yields Tree.Bracketed (self task) Code.Bracketed)

include hself

theorem yields_hoisted : Yields Tree.Bracketed (emitHoisted self i done) Code.Bracketed := by
  refine .bind .get fun _ _ => .bind (.of_untouched untouched_enterVerbatim) fun _ _ => ?_
  refine .bind (hself _) fun body hbody => .bind (.of_untouched (.setVerbatim _)) fun _ _ => ?_
  exact .bind (.of_untouched .flagsOf) fun _ _ => .pure (.hoist i _ hbody)

theorem yields_chain {cs : List Condition} (hcs : ∀ c ∈ cs, c.expression.IsCode) :
    Yields Tree.Bracketed (emitChain self i done slot cs) Code.Bracketed := by
  have harm (c : Condition) : Yields Tree.Bracketed (emitArm self i done slot c.block) Code.Bracketed := by
    unfold emitArm
    exact .ite (hself _) (.bind yields_elementAt fun _ _ => .ite (hself _) (hself _))
  induction cs with
  | nil =>
    refine .pure ?_
    cases slot with
    | true => exact Takes.start "null" rfl
    | false => exact bracketed_callHelper .empty bracketed_empty
  | cons c rest ih =>
    obtain ⟨hc, hrest⟩ := List.forall_mem_cons.mp hcs
    unfold emitChain
    split
    · next test htest =>
      refine .bind (harm c) fun yes hyes => .bind (ih hrest) fun no hno => .pure ?_
      exact .branch i (hc.of_filled? htest) hyes hno
    · exact harm c

theorem yields_branches (he : e.Bracketed) :
    Yields Tree.Bracketed (emitBranches self i e done slot) Code.Bracketed := by
  refine yields_chain hself fun c hc => he.codes c.expression ?_
  exact List.mem_append_right _ (List.mem_map_of_mem hc)

theorem yields_loop (he : e.Bracketed) :
    Yields Tree.Bracketed (emitLoop o self i e done slot) Code.Bracketed := by
  have hsource := he.codes e.forSource (by simp [Element.expressions])
  refine .bind (.of_untouched untouched_adviseKeys) fun _ _ => .bind (hself _) fun body hbody => .pure ?_
  exact .loop i hsource (balanced_loopParams he) hbody

theorem yields_once : Yields Tree.Bracketed (emitOnce self i done) Code.Bracketed := by
  refine .bind yields_elementAt fun e he => .ite (yields_branches hself he) ?_
  refine .bind (.of_untouched .flagsOf) fun _ _ => .ite (yields_hoisted hself) (.bind .get fun g hg => ?_)
  split
  · next key hkey =>
    exact .bind (hself _) fun body hbody => .pure (.once i (balanced_of_loopKey hg hkey) hbody)
  · refine .bind (.of_untouched .siteOf) fun _ _ => ?_
    exact .bind (.of_untouched (.warn _)) fun _ _ => hself _

theorem yields_node (c : Nat) : Yields Tree.Bracketed (emitNode self c) Code.Bracketed := by
  refine .bind yields_nodeAt fun n hn => ?_
  unfold Node.Bracketed at hn
  split
  · exact hself _
  · exact .pure (bracketed_callHelper _ (bracketed_text (Json.balanced_compact _)))
  · refine .pure (bracketed_callHelper _ (bracketed_text ?_))
    exact Json.balanced_escapeSeparators (Json.balanced_compact _)
  · next hc =>
    rw [hc] at hn
    exact .pure (bracketed_callHelper _ (bracketed_text hn))

theorem yields_children (withLevel : Bool) :
    Yields Tree.Bracketed (emitChildren o self e withLevel) Children.Bracketed := by
  refine .bind .get fun g hg => .ite (.pure trivial) ?_
  split
  · exact .bind (.liftFailure fun _ _ => trivial) fun _ _ => .bind (hself _) fun _ hc => .pure hc
  · refine .bind (.liftFailure fun _ _ => trivial) fun _ _ => ?_
    exact .bind (.mapM fun c _ => yields_node hself c) fun _ hcs => .pure hcs

/-! ## Slots and data -/

theorem yields_outlet (he : e.Bracketed) : Yields Tree.Bracketed (emitOutlet o self i e) Code.Bracketed := by
  refine .bind (yields_children hself _) fun children hchildren => ?_
  refine .bind (.liftFailure fun _ => bracketed_of_outletProps he) fun props hprops => .pure ?_
  exact .outlet i (bracketed_outletArguments he hchildren.code? hprops)

theorem yields_slotBody (he : e.Bracketed) (legacy : Bool) :
    Yields Tree.Bracketed (emitSlotBody o self i e done legacy) Code.Bracketed := by
  refine .ite (.bind (yields_children hself _) fun children hchildren => .pure ?_) (hself _)
  have hcontent : (children.code?.getD (Code.text "undefined")).Bracketed := hchildren.codeOr (by decide)
  unfold slotContent
  dsimp only
  split
  · next test htest =>
    have htest := (he.codes e.ifExpr (by simp [Element.expressions])).of_filled? htest
    split
    · exact .branch i htest hcontent (Takes.start "undefined" rfl)
    · exact hcontent
  · exact hcontent

theorem yields_slotEntry : Yields Tree.Bracketed (emitSlotEntry o self i done) Code.Bracketed := by
  refine .bind yields_elementAt fun e he => .ite (yields_branches hself he) (.ite (yields_loop hself he) ?_)
  -- The key of the descriptor is read from the element as its body left it.
  refine .bind (yields_slotBody hself he _) fun body hbody => .bind yields_elementAt fun e' he' => .pure ?_
  exact bracketed_slotDescriptor he (he'.codes e'.slotTarget (by simp [Element.expressions])) hbody

theorem yields_scopedSlots : Yields Tree.Bracketed (slotsEntry self i e) fun ps => ∀ p ∈ ps, p.Bracketed := by
  refine .ite (.pure nofun) (.bind (Q := Code.Bracketed) ?_ fun c hc => .pure (List.forall_mem_singleton.mpr hc))
  refine .bind .get fun _ _ => .bind (.mapM fun _ _ => hself _) fun entries hentries => .pure ?_
  exact Takes.start "scopedSlots:" rfl |>.code (.slots i _ (bracketed_join (by decide) hentries))

theorem yields_inline : Yields Tree.Bracketed (inlineEntry self i e) fun ps => ∀ p ∈ ps, p.Bracketed := by
  have htemplate (c : Nat) (child : Element) :
      Yields Tree.Bracketed (emitTemplate self c child) Code.Bracketed :=
    .ite (.pure (Takes.start "null" rfl)) (hself _)
  refine .ite (.bind .get fun g _ => .bind (.of_untouched (untouched_adviseInline _)) fun _ _ => ?_) (.pure nofun)
  split
  · exact .pure nofun
  · exact .bind (.apart (htemplate _ _)) fun body hbody => .pure (List.forall_mem_singleton.mpr (.inline hbody))

theorem yields_parts (ho : o.Bracketing) (he : e.Bracketed) :
    Yields Tree.Bracketed (emitParts o self i e) fun ps => ∀ p ∈ ps, p.Bracketed := by
  have hmodel : ∀ p ∈ (e.model.map modelEntry).toList, p.Bracketed := by
    intro p hp
    obtain ⟨m, hm, rfl⟩ := Option.map_eq_some_iff.mp (Option.mem_toList.mp hp)
    exact bracketed_modelEntry (he.bindings.model m hm)
  refine .bind (.of_untouched .isVerbatim) fun verbatim _ => ?_
  refine .bind (yields_propsEntry (by decide) he.bindings.attrs) fun attrs hattrs => ?_
  refine .bind (yields_propsEntry (by decide) he.bindings.props) fun props hprops => ?_
  refine .bind (yields_eventsEntry he.bindings.events false) fun events hevents => ?_
  refine .bind (yields_eventsEntry he.bindings.nativeEvents true) fun native hnative => ?_
  refine .bind (yields_scopedSlots hself) fun slots hslots => ?_
  refine .bind (yields_inline hself) fun inline hinline => .pure ?_
  have hown := bracketed_ownEntries ho.modules he verbatim
  simp only [List.forall_mem_append]
  exact ⟨⟨⟨⟨⟨⟨⟨⟨hown, hattrs⟩, hprops⟩, hevents⟩, hnative⟩, bracketed_targetEntry he⟩, hslots⟩, hmodel⟩, hinline⟩

theorem yields_dataObject (ho : o.Bracketing) {ds : List Directive} (hds : ∀ d ∈ ds, Bound d) :
    Yields Tree.Bracketed (emitDataObject o self i ds) Code.Bracketed := by
  refine .bind (yields_directives ho hds) fun kept hkept => .bind yields_elementAt fun e he => ?_
  refine .bind (yields_parts hself ho he) fun parts hparts => ?_
  have hjoined := DataPart.bracketed_join (List.forall_mem_append.mpr ⟨hkept, hparts⟩)
  have hdata : Code.Bracketed _ := Takes.start "\x7b" rfl |>.code hjoined |>.fixed "\x7d" rfl
  refine .bind (.liftFailure fun _ => bracketed_of_bindDynamicAttrs he hdata) fun data hdata => .pure ?_
  exact bracketed_mergeObjects he hdata

theorem yields_data (ho : o.Bracketing) : Yields Tree.Bracketed (emitData o self i) Code.Bracketed := by
  refine .bind yields_elementAt fun e he => .ite (yields_dataObject hself ho nofun) ?_
  -- What is put back are the bindings from before the plugins ran.
  have hds : ∀ d ∈ e.directives, Bound d := fun d hd => ⟨he.directives d hd, he.targets d hd⟩
  exact .restoringBindings (fun t ht => ht.modifyElement fun e' he' => he'.of_unbound rfl he.bindings)
    (yields_dataObject hself ho hds)

/-! ## Nodes -/

theorem yields_bare (ho : o.Bracketing) (he : e.Bracketed) :
    Yields Tree.Bracketed (emitBare o self i e) Code.Bracketed := by
  have hchildren (e : Element) : Yields Tree.Bracketed (emitNodeChildren o self e) Children.Bracketed :=
    .ite (.pure trivial) (yields_children hself _)
  have hargument : Yields Tree.Bracketed (emitDataArgument o self i e) Code.Bracketed := by
    refine .bind (.of_untouched untouched_needsData) fun _ _ => .ite ?_ (.pure bracketed_empty)
    exact .bind (yields_data hself ho) fun data hdata => .pure (Takes.start "," rfl |>.code hdata)
  unfold emitBare
  split
  · next name hname =>
    refine .bind (hchildren e) fun children hchildren => .bind (yields_data hself ho) fun data hdata => .pure ?_
    have hname := (he.codes e.component (by simp [Element.expressions])).of_filled? hname
    exact .create i true hname (Takes.start "," rfl |>.code hdata) hchildren.argument
  · refine .bind hargument fun data hdata => .bind yields_elementAt fun e' he' => ?_
    refine .bind (hchildren e') fun children hchildren => .pure ?_
    have htag : Balanced ("'" ++ e'.tag.shown ++ "'") :=
      Reads.start "'" rfl |>.quoted he'.tag |>.fixed "'" rfl
    exact .create i false htag hdata hchildren.argument

theorem yields_create (ho : o.Bracketing) (he : e.Bracketed) :
    Yields Tree.Bracketed (emitCreate o self i e) Code.Bracketed := by
  refine .bind (yields_bare hself ho he) fun c hc => .bind yields_elementAt fun e' he' => .pure ?_
  exact List.foldlRecOn o.modules _ hc fun c hc m hm => (ho.modules m hm).transform he' hc

theorem yields_element (ho : o.Bracketing) :
    Yields Tree.Bracketed (emitElement o self i done) Code.Bracketed := by
  have hplace {e : Element} (he : e.Bracketed) :
      Yields Tree.Bracketed (emitInPlace o self i e done) Code.Bracketed := by
    refine .ite (yields_loop hself he) (.ite (yields_branches hself he) (.bind .get fun _ _ => .ite ?_ ?_))
    · refine .bind (yields_children hself _) fun children hchildren => .pure ?_
      exact .fragment i (hchildren.codeOr (by decide))
    · exact .ite (yields_outlet hself he) (yields_create hself ho he)
  refine .bind yields_elementAt fun e he => .bind (.of_untouched .flagsOf) fun _ _ => .ite (yields_hoisted hself) ?_
  exact .ite (yields_once hself) (hplace he)

omit hself in
theorem yields_run (ho : o.Bracketing) (fuel : Nat) (task : Task) :
    Yields Tree.Bracketed (run o fuel task) Code.Bracketed := by
  induction fuel generalizing task with
  | zero => exact .throw _
  | succ fuel ih =>
    cases task with
    | element i done => exact yields_element ih ho
    | onceElement i done => exact yields_once ih
    | slotEntry i done => exact yields_slotEntry ih

omit hself in
theorem yields_root (ho : o.Bracketing) (root : Option Nat) :
    Yields Tree.Bracketed (emitRoot o root) Code.Bracketed := by
  cases root with
  | none => exact .pure (bracketed_callHelper .create (Takes.start _ rfl))
  | some i =>
    refine .bind .get fun g _ => .bind yields_elementAt fun e _ => ?_
    exact .ite (.pure (Takes.start "null" rfl)) (yields_run ho _ _)

end

end Generator

/-- The code of a bracketed tree leaves nothing open. -/
theorem Tree.Bracketed.generate {t : Tree} (ht : t.Bracketed) {o : Options} (ho : o.Bracketing)
    {root : Option Nat} {c : Code} (h : (t.generate o root).code = .ok c) : c.Bracketed := by
  rw [Generator.generate_eq] at h
  exact (Generator.yields_root ho (root.or t.root) { tree := t } ht c _ (Prod.ext h rfl)).1

end TemplateCompiler
