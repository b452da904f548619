import TemplateCompiler.Proofs.Code.SpelledParts
import TemplateCompiler.Proofs.Generator.Marks
import TemplateCompiler.Proofs.Generator.Verbatim

/-!
# What generated code is made of

A `Rubric` says what code is judged by: a template, the characters of its texts, and the answers to the question which
elements are verbatim. It admits code in which all texts are over these characters and every node, template and hoist
stands where the switch for verbatim code allows for it (`Rubric.Admits`). Every emitter gives code that the rubric
admits, given that the tasks below do, and so does a generation (`Rubric.admits_generate`).
-/

namespace TemplateCompiler

open Text
open Code (Spelling)

/-- A template that gives way to its children, unless it is written verbatim. -/
def Element.dissolves (e : Element) : Bool :=
  e.hasTag "template" && !e.slotTarget.truthy

/-- What a node is created from: a dynamic component by its name, and any other element by its tag. -/
def Element.target (e : Element) : Bool × String :=
  match e.component.filled? with
  | some name => (true, name)
  | none => (false, "'" ++ e.tag.shown ++ "'")

/-- Plugins keep to bindings and to the characters of `P`, and modules to those of `P` without changing code. -/
structure Options.Spelling (o : Options) (P : Char → Prop) : Prop where
  tidy : o.Tidy
  data : ∀ m ∈ o.modules, ∀ {e : Element}, e.Over P → Text.Over P (m.data e)
  transform : ∀ m ∈ o.modules, ∀ e c, m.transform e c = c
  directives : ∀ {d : Directive} {p : DirectivePlugin}, Table.get? d.name o.directives = some p →
    ∀ (site : Site) {e : Element}, e.Over P → d.Over P → (p.compile site e d).element.Over P

structure Rubric where
  tree : Tree
  letters : Char → Prop
  /-- Whether an element may be found to be verbatim. -/
  answers : Nat → Bool → Prop

namespace Rubric

/-- Code that may stand where the switch is as given. A verbatim hoist turns it on for its body, and an inline template
is compiled apart. -/
def Admits (S : Rubric) : Bool → Code → Prop
  | _, .text s => Text.Over S.letters s
  | _, .helper _ => True
  | v, .append a b => S.Admits v a ∧ S.Admits v b
  | v, .create i dynamic target data children =>
    (∃ e, S.tree.element? i = some e ∧ (e.dissolves = true → v = true) ∧ e.target = (dynamic, target)) ∧
      Text.Over S.letters target ∧ S.Admits v data ∧ S.Admits v children
  | v, .loop _ source params body => Text.Over S.letters source ∧ Text.Over S.letters params ∧ S.Admits v body
  | v, .branch _ test yes no => Text.Over S.letters test ∧ S.Admits v yes ∧ S.Admits v no
  | v, .fragment i body => (∃ e, S.tree.element? i = some e ∧ e.dissolves = true) ∧ v = false ∧ S.Admits v body
  | v, .outlet _ body | v, .slots _ body _ => S.Admits v body
  | v, .hoist i _ body => ∃ found, S.answers i found ∧ S.Admits (v || found) body
  | v, .once _ key body => Text.Over S.letters key ∧ S.Admits v body
  | _, .inline body => S.Admits false body
  | _, .call _ _ | _, .memo _ _ _ | _, .unit _ | _, .rewritten _ _ => False

/-- The element at an index while code is generated. -/
def Has (S : Rubric) (i : Nat) (e : Element) : Prop :=
  e.Over S.letters ∧ Generator.Stands S.tree i e

/-- A state of a generation in which the switch is as given. -/
structure Fits (S : Rubric) (v : Bool) (g : Generation) : Prop where
  rebound : S.tree.Rebound g.tree
  spelled : g.tree.Over S.letters
  recalls : g.memo.Recalls S.answers
  verbatim : g.verbatim = v

/-- The characters are an alphabet, and the search for verbatim elements gives and remembers answers. -/
structure Sound (S : Rubric) : Prop where
  letters : Alphabet S.letters
  query : ∀ {memo : Memo} (i : Nat), memo.Recalls S.answers →
    S.answers i (Memo.query S.tree (S.tree.size + 1) i memo).1 ∧
      (Memo.query S.tree (S.tree.size + 1) i memo).2.Recalls S.answers

variable {S : Rubric} {v : Bool} {i : Nat} {e : Element}

theorem Sound.spelling (hS : S.Sound) (v : Bool) : Spelling S.letters (S.Admits v) where
  alphabet := hS.letters
  text h := h
  helper _ := trivial
  append ha hb := ⟨ha, hb⟩

theorem Admits.over {c : Code} (h : S.Admits v c) : c.Over S.letters := by
  induction c generalizing v with
  | text _ => exact h
  | helper _ => trivial
  | append _ _ iha ihb => exact ⟨iha h.1, ihb h.2⟩
  | create _ _ _ _ _ ihd ihc => exact ⟨h.2.1, ihd h.2.2.1, ihc h.2.2.2⟩
  | loop _ _ _ _ ih => exact ⟨h.1, h.2.1, ih h.2.2⟩
  | branch _ _ _ _ ihy ihn => exact ⟨h.1, ihy h.2.1, ihn h.2.2⟩
  | fragment _ _ ih => exact ih h.2.2
  | outlet _ _ ih | slots _ _ _ ih | inline _ ih => exact ih h
  | hoist _ _ _ ih =>
    obtain ⟨found, -, h⟩ := h
    exact ih h
  | once _ _ _ ih => exact ⟨h.1, ih h.2⟩
  | call _ _ | memo _ _ _ _ | unit _ _ | rewritten _ _ _ => exact h.elim

/-- Plugins change nothing that decides what becomes of an element. -/
theorem Has.exists_element (h : S.Has i e) :
    ∃ e₀, S.tree.element? i = some e₀ ∧ e₀.dissolves = e.dissolves ∧ e₀.target = e.target := by
  obtain ⟨-, u, hu, he⟩ := h
  obtain ⟨e₀, he₀, heq⟩ := hu.element?_eq he
  exact ⟨e₀, he₀, (congrArg Element.dissolves heq :), (congrArg Element.target heq :)⟩

end Rubric

namespace Generator

open Rubric

variable {α : Type} {S : Rubric} {o : Options} {self : Emit} {v : Bool} {i : Nat} {e : Element} {done : Stages}
  {slot : Bool}

/-! ## Reading the state -/

theorem maintains_nodeAt : Maintains (S.Fits v) (nodeAt i) fun n => n.content.Over S.letters := by
  refine .bind .get fun g hg => ?_
  split
  · next n hn => exact .pure (hg.spelled i n hn)
  · exact .throw _

theorem maintains_elementAt : Maintains (S.Fits v) (elementAt i) (S.Has i) := by
  intro g hg e g' he
  rw [outcome_elementAt] at he
  rcases hi : g.tree.element? i with _ | e₀ <;> rw [hi] at he <;> cases he
  exact ⟨⟨hg.spelled.element hi, g.tree, hg.rebound, hi⟩, hg⟩

theorem maintains_siteOf : Maintains (S.Fits v) (siteOf i) fun _ => True :=
  .bind .get fun _ _ => .pure trivial

theorem maintains_flagsOf : Maintains (S.Fits v) (flagsOf i) fun _ => True :=
  .bind .get fun _ _ => .pure trivial

theorem maintains_warn (w : Warning) : Maintains (S.Fits v) (warn w) fun _ => True :=
  .modify fun _ hg => { hg with }

theorem maintains_isVerbatim (hS : S.Sound) : Maintains (S.Fits v) (isVerbatim i) (S.answers i) := by
  refine .bind .get fun g hg => ?_
  have hquery := hS.query i hg.recalls
  rw [← hg.rebound.1, ← hg.rebound.query] at hquery
  refine .bind (Q := fun _ => True) ?_ fun _ _ => .pure hquery.1
  rintro _ _ _ _ ⟨⟩
  exact ⟨trivial, { hg with recalls := hquery.2 }⟩

theorem maintains_adviseKeys : Maintains (S.Fits v) (adviseKeys o i e) fun _ => True := by
  refine .bind (.liftFailure fun _ _ => trivial) fun _ _ => .ite (fun _ => ?_) fun _ => .pure trivial
  exact .bind maintains_siteOf fun _ _ => maintains_warn _

/-! ## Plugins and bindings -/

theorem maintains_restoringBindings {x : GenM α} {Q : α → Prop} (he : S.Has i e) (hx : Maintains (S.Fits v) x Q) :
    Maintains (S.Fits v) (restoringBindings i e.toBindings x) Q := by
  intro g hg a g' ha
  rw [outcome_restoringBindings, Prod.mk.injEq] at ha
  obtain ⟨hQ, hg'⟩ := hx g hg a (outcome x g).2 (Prod.ext ha.1 rfl)
  rw [← ha.2]
  refine ⟨hQ, { hg' with rebound := ?_, spelled := ?_ }⟩
  · exact hg'.rebound.modifyElement fun _ _ => rfl
  · exact hg'.spelled.modifyElement fun _ he' => he'.of_unbound rfl he.1.bindings

theorem maintains_runDirective (ho : o.Spelling S.letters) {d : Directive} (hd : d.Over S.letters) :
    Maintains (S.Fits v) (runDirective o i d) fun _ => True := by
  unfold runDirective
  split
  · exact .pure trivial
  · next p hp =>
    refine .bind maintains_siteOf fun site _ => .bind maintains_elementAt fun e he => ?_
    have hover : (p.compile site e d).element.Over S.letters := ho.directives hp site he.1 hd
    refine .bind (.modify fun g hg => { hg with rebound := ?_, spelled := ?_ }) fun _ _ => ?_
    · exact he.2.rebind (ho.tidy d.name p hp site e d) hg.rebound
    · exact hg.spelled.modifyElement fun _ _ => hover
    · exact .bind (.liftFailure fun _ _ => trivial) fun _ _ => .pure trivial

theorem maintains_directives (hS : S.Sound) (ho : o.Spelling S.letters) {ds : List Directive}
    (hds : ∀ d ∈ ds, d.Over S.letters) : Maintains (S.Fits v) (emitDirectives o i ds)
      fun ps => ∀ p ∈ ps, p.Spelled S.letters (S.Admits v) := by
  refine .bind (.filterM hds fun d hd => maintains_runDirective ho hd) fun kept hkept => .pure ?_
  exact spelled_directivesEntry (hS.spelling v) hkept

theorem maintains_propsEntry (hS : S.Sound) {key : String} (hkey : Text.Over S.letters key) {props : List Attr}
    (hp : ∀ a ∈ props, a.Over S.letters) : Maintains (S.Fits v) (propsEntry key props)
      fun ps => ∀ p ∈ ps, p.Spelled S.letters (S.Admits v) := by
  refine .ite (fun _ => .pure nofun) fun _ => ?_
  refine .bind (.liftFailure fun _ => spelled_of_propsEntries (hS.spelling v) hp) fun k hk => .pure ?_
  exact List.forall_mem_singleton.mpr ((hS.spelling v).append hkey hk)

theorem maintains_eventsEntry (hS : S.Sound) {events : Events} (h : events.Over S.letters) (native : Bool) :
    Maintains (S.Fits v) (eventsEntry events native) fun ps => ∀ p ∈ ps, p.Spelled S.letters (S.Admits v) := by
  refine .ite (fun _ => .pure nofun) fun _ => ?_
  refine .bind (.liftFailure fun _ => spelled_of_eventsCode (hS.spelling v) h) fun c hc => .pure ?_
  exact List.forall_mem_singleton.mpr hc

/-! ## Chains, loops and children -/

variable (hS : S.Sound) (hself : ∀ {v} task, Maintains (S.Fits v) (self task) (S.Admits v))

include hS hself

/-- The body of a hoist stands where the answer about its owner puts it. -/
theorem maintains_hoisted : Maintains (S.Fits v) (emitHoisted self i done) (S.Admits v) := by
  intro g hg c g' h
  obtain ⟨g₁, g₂, body, henter, hbody, rfl, rfl⟩ := outcome_emitHoisted_ok h
  obtain ⟨found, g₀, hfound, henter⟩ := outcome_bind_ok henter
  obtain ⟨hanswer, hg₀⟩ := maintains_isVerbatim hS g hg found g₀ hfound
  have hg₁ : S.Fits (v || found) g₁ := by
    cases found with
    | true =>
      cases henter
      rw [Bool.or_true]
      exact { hg₀ with verbatim := rfl }
    | false =>
      cases henter
      rwa [Bool.or_false]
  obtain ⟨hbody, hg₂⟩ := hself _ g₁ hg₁ body g₂ hbody
  exact ⟨⟨found, hanswer, hbody⟩, { hg₂ with verbatim := hg.verbatim }⟩

theorem maintains_chain {cs : List Condition} (hcs : ∀ c ∈ cs, c.expression.Over S.letters) :
    Maintains (S.Fits v) (emitChain self i done slot cs) (S.Admits v) := by
  have harm (c : Condition) : Maintains (S.Fits v) (emitArm self i done slot c.block) (S.Admits v) := by
    unfold emitArm
    refine .ite (fun _ => hself _) fun _ => .bind maintains_elementAt fun _ _ => ?_
    exact .ite (fun _ => hself _) fun _ => hself _
  induction cs with
  | nil =>
    refine .pure ?_
    cases slot with
    | true => exact (hS.spelling v).fixed (by decide)
    | false => exact (hS.spelling v).callHelper .empty (hS.spelling v).empty
  | cons c rest ih =>
    obtain ⟨hc, hrest⟩ := List.forall_mem_cons.mp hcs
    unfold emitChain
    split
    · next test htest =>
      refine .bind (harm c) fun yes hyes => .bind (ih hrest) fun no hno => .pure ?_
      exact ⟨hc.of_filled? hS.letters htest, hyes, hno⟩
    · exact harm c

theorem maintains_branches (he : e.Over S.letters) :
    Maintains (S.Fits v) (emitBranches self i e done slot) (S.Admits v) := by
  refine maintains_chain hS hself fun c hc => he.expressions c.expression ?_
  exact List.mem_append_right _ (List.mem_map_of_mem hc)

theorem maintains_loop (he : e.Over S.letters) : Maintains (S.Fits v) (emitLoop o self i e done slot) (S.Admits v) := by
  have hsource := he.expressions e.forSource (by simp [Element.expressions])
  refine .bind maintains_adviseKeys fun _ _ => .bind (hself _) fun body hbody => .pure ?_
  exact ⟨hsource.shown hS.letters, over_loopParams hS.letters he, hbody⟩

theorem maintains_once : Maintains (S.Fits v) (emitOnce self i done) (S.Admits v) := by
  refine .bind maintains_elementAt fun e he => .ite (fun _ => maintains_branches hS hself he.1) fun _ => ?_
  refine .bind maintains_flagsOf fun _ _ => .ite (fun _ => maintains_hoisted hS hself) fun _ => ?_
  refine .bind .get fun g hg => ?_
  split
  · next key hkey =>
    obtain ⟨loop, hloop, hkey⟩ := Option.bind_eq_some_iff.mp hkey
    obtain ⟨j, -, hj⟩ := List.mem_filterMap.mp (List.mem_of_find?_eq_some hloop)
    have hover : loop.Over S.letters := hg.spelled.element hj
    have hkey := (hover.expressions loop.key (by simp [Element.expressions])).of_filled? hS.letters hkey
    exact .bind (hself _) fun body hbody => .pure ⟨hkey, hbody⟩
  · exact .bind maintains_siteOf fun _ _ => .bind (maintains_warn _) fun _ _ => hself _

theorem maintains_node (c : Nat) : Maintains (S.Fits v) (emitNode self c) (S.Admits v) := by
  refine .bind maintains_nodeAt fun n hn => ?_
  split
  · exact hself _
  · next hc =>
    rw [hc] at hn
    exact .pure ((hS.spelling v).callHelper .empty hn)
  · next hc =>
    rw [hc] at hn
    exact .pure ((hS.spelling v).callHelper .text hn)
  · next hc =>
    rw [hc] at hn
    exact .pure ((hS.spelling v).callHelper .text (Json.Over.shown hS.letters hn))

theorem maintains_children (withLevel : Bool) :
    Maintains (S.Fits v) (emitChildren o self e withLevel) (Children.Spelled (S.Admits v)) := by
  refine .bind .get fun g hg => .ite (fun _ => .pure trivial) fun _ => ?_
  split
  · exact .bind (.liftFailure fun _ _ => trivial) fun _ _ => .bind (hself _) fun _ hc => .pure hc
  · refine .bind (.liftFailure fun _ _ => trivial) fun _ _ => ?_
    exact .bind (.mapM fun c _ => maintains_node hS hself c) fun _ hcs => .pure hcs

/-! ## Slots and data -/

theorem maintains_outlet (he : e.Over S.letters) : Maintains (S.Fits v) (emitOutlet o self i e) (S.Admits v) := by
  refine .bind (maintains_children hS hself _) fun children hchildren => ?_
  refine .bind (.liftFailure fun _ => spelled_of_outletProps (hS.spelling v) he) fun props hprops => .pure ?_
  exact spelled_outletArguments (hS.spelling v) he (hchildren.code? (hS.spelling v)) hprops

theorem maintains_slotBody (he : e.Over S.letters) (legacy : Bool) :
    Maintains (S.Fits v) (emitSlotBody o self i e done legacy) (S.Admits v) := by
  refine .ite (fun _ => .bind (maintains_children hS hself _) fun children hchildren => .pure ?_) fun _ => hself _
  have hundefined : Text.Over S.letters "undefined" := hS.letters.fixed (by decide)
  have hcontent := hchildren.codeOr (hS.spelling v) hundefined
  unfold slotContent
  dsimp only
  split
  · next test htest =>
    have htest := (he.expressions e.ifExpr (by simp [Element.expressions])).of_filled? hS.letters htest
    split
    · exact ⟨htest, hcontent, hundefined⟩
    · exact hcontent
  · exact hcontent

theorem maintains_slotEntry : Maintains (S.Fits v) (emitSlotEntry o self i done) (S.Admits v) := by
  refine .bind maintains_elementAt fun e he => .ite (fun _ => maintains_branches hS hself he.1) fun _ => ?_
  refine .ite (fun _ => maintains_loop hS hself he.1) fun _ => ?_
  -- The key of the descriptor is read from the element as its body left it.
  refine .bind (maintains_slotBody hS hself he.1 _) fun body hbody => .bind maintains_elementAt fun e' he' => .pure ?_
  exact spelled_slotDescriptor (hS.spelling v) he.1
    (he'.1.expressions e'.slotTarget (by simp [Element.expressions])) hbody

theorem maintains_scopedSlots : Maintains (S.Fits v) (slotsEntry self i e)
    fun ps => ∀ p ∈ ps, p.Spelled S.letters (S.Admits v) := by
  refine .ite (fun _ => .pure nofun) fun _ => ?_
  refine .bind (Q := S.Admits v) ?_ fun c hc => .pure (List.forall_mem_singleton.mpr hc)
  refine .bind .get fun _ _ => .bind (.mapM fun _ _ => hself _) fun entries hentries => .pure ?_
  exact (hS.spelling v).append ((hS.spelling v).fixed (by decide))
    ((hS.spelling v).join (hS.letters.fixed (by decide)) hentries : S.Admits v (.slots i _ _))

omit hS hself in
theorem maintains_apart {x : GenM α} {Q : α → Prop} (hx : Maintains (S.Fits false) x Q) :
    Maintains (S.Fits v) (apart x) Q := by
  intro g hg a g' h
  obtain ⟨_, _, hget, h⟩ := outcome_bind_ok h
  cases hget
  obtain ⟨_, g₁, henter, h⟩ := outcome_bind_ok h
  cases henter
  obtain ⟨a, g₂, ha, h⟩ := outcome_bind_ok h
  obtain ⟨_, g₃, hleave, h⟩ := outcome_bind_ok h
  cases hleave
  cases h
  have hapart : S.Fits false { g with memo := [], verbatim := false } :=
    { hg with recalls := Memo.recalls_nil _, verbatim := rfl }
  obtain ⟨hQ, hg₂⟩ := hx _ hapart a g₂ ha
  exact ⟨hQ, { hg₂ with recalls := hg.recalls, verbatim := hg.verbatim }⟩

theorem maintains_template (c : Nat) (child : Element) :
    Maintains (S.Fits v) (emitTemplate self c child) (S.Admits v) :=
  .ite (fun _ => .pure ((hS.spelling v).fixed (by decide))) fun _ => hself _

theorem maintains_inline : Maintains (S.Fits v) (inlineEntry self i e)
    fun ps => ∀ p ∈ ps, p.Spelled S.letters (S.Admits v) := by
  have hadvice (t : Tree) : Maintains (S.Fits v) (adviseInline t i e) fun _ => True :=
    .ite (fun _ => maintains_warn _) fun _ => .pure trivial
  refine .ite (fun _ => .bind .get fun g _ => .bind (hadvice _) fun _ _ => ?_) fun _ => .pure nofun
  split
  · exact .pure nofun
  · refine .bind (maintains_apart (maintains_template hS hself _ _)) fun body hbody => .pure ?_
    exact List.forall_mem_singleton.mpr hbody

theorem maintains_parts (ho : o.Spelling S.letters) (he : e.Over S.letters) :
    Maintains (S.Fits v) (emitParts o self i e) fun ps => ∀ p ∈ ps, p.Spelled S.letters (S.Admits v) := by
  have hmodel : ∀ p ∈ (e.model.map modelEntry).toList, p.Spelled S.letters (S.Admits v) := by
    intro p hp
    obtain ⟨m, hm, rfl⟩ := Option.map_eq_some_iff.mp (Option.mem_toList.mp hp)
    exact spelled_modelEntry (hS.spelling v) (he.bindings.model m hm)
  refine .bind (maintains_isVerbatim hS) fun verbatim _ => ?_
  refine .bind (maintains_propsEntry hS (hS.letters.fixed (by decide)) he.bindings.attrs) fun attrs hattrs => ?_
  refine .bind (maintains_propsEntry hS (hS.letters.fixed (by decide)) he.bindings.props) fun props hprops => ?_
  refine .bind (maintains_eventsEntry hS he.bindings.events false) fun events hevents => ?_
  refine .bind (maintains_eventsEntry hS he.bindings.nativeEvents true) fun native hnative => ?_
  refine .bind (maintains_scopedSlots hS hself) fun slots hslots => ?_
  refine .bind (maintains_inline hS hself) fun inline hinline => .pure ?_
  have hown := spelled_ownEntries (hS.spelling v) he (fun m hm => ho.data m hm he) verbatim
  have htarget := spelled_targetEntry (hS.spelling v) he
  simp only [List.forall_mem_append]
  exact ⟨⟨⟨⟨⟨⟨⟨⟨hown, hattrs⟩, hprops⟩, hevents⟩, hnative⟩, htarget⟩, hslots⟩, hmodel⟩, hinline⟩

theorem maintains_dataObject (ho : o.Spelling S.letters) {ds : List Directive} (hds : ∀ d ∈ ds, d.Over S.letters) :
    Maintains (S.Fits v) (emitDataObject o self i ds) (S.Admits v) := by
  refine .bind (maintains_directives hS ho hds) fun kept hkept => .bind maintains_elementAt fun e he => ?_
  refine .bind (maintains_parts hS hself ho he.1) fun parts hparts => ?_
  have hjoined := DataPart.spelled_join (hS.spelling v) (List.forall_mem_append.mpr ⟨hkept, hparts⟩)
  have hdata : S.Admits v (Code.text "\x7b" ++ DataPart.join (kept ++ parts) ++ Code.text "\x7d") :=
    (hS.spelling v).append ((hS.spelling v).append ((hS.spelling v).fixed (by decide)) hjoined)
      ((hS.spelling v).fixed (by decide))
  refine .bind (.liftFailure fun _ => spelled_of_bindDynamicAttrs (hS.spelling v) he.1 hdata) fun data hdata => ?_
  exact .pure (spelled_mergeObjects (hS.spelling v) he.1 hdata)

theorem maintains_data (ho : o.Spelling S.letters) : Maintains (S.Fits v) (emitData o self i) (S.Admits v) := by
  refine .bind maintains_elementAt fun e he => .ite (fun _ => maintains_dataObject hS hself ho nofun) fun _ => ?_
  -- What is put back are the bindings from before the plugins ran.
  exact maintains_restoringBindings he (maintains_dataObject hS hself ho he.1.directives)

/-! ## Nodes -/

/-- A node is created only where a template in its place would not give way to its children. -/
theorem maintains_bare (ho : o.Spelling S.letters) (he : S.Has i e) (hv : e.dissolves = true → v = true) :
    Maintains (S.Fits v) (emitBare o self i e) (S.Admits v) := by
  obtain ⟨e₀, he₀, hdissolves, htarget⟩ := he.exists_element
  rw [← hdissolves] at hv
  have hchildren (e : Element) :
      Maintains (S.Fits v) (emitNodeChildren o self e) (Children.Spelled (S.Admits v)) :=
    .ite (fun _ => .pure trivial) fun _ => maintains_children hS hself _
  have hcomma {c : Code} (hc : S.Admits v c) : S.Admits v (Code.text "," ++ c) :=
    (hS.spelling v).append ((hS.spelling v).fixed (by decide)) hc
  unfold emitBare
  split
  · next name hname =>
    refine .bind (hchildren e) fun children hchildren => .bind (maintains_data hS hself ho) fun data hdata => .pure ?_
    have hover := (he.1.expressions e.component (by simp [Element.expressions])).of_filled? hS.letters hname
    refine ⟨⟨e₀, he₀, hv, ?_⟩, hover, hcomma hdata, hchildren.argument (hS.spelling v)⟩
    rw [htarget, Element.target, hname]
  · next hnone =>
    have hneeds : Maintains (S.Fits v) (needsData o i e) fun _ => True := by
      refine .ite (fun _ => .pure trivial) fun _ => .bind (maintains_isVerbatim hS) fun _ _ => ?_
      exact .ite (fun _ => .pure trivial) fun _ => .liftFailure fun _ _ => trivial
    have hargument : Maintains (S.Fits v) (emitDataArgument o self i e) (S.Admits v) := by
      refine .bind hneeds fun _ _ => .ite (fun _ => ?_) fun _ => .pure (hS.spelling v).empty
      exact .bind (maintains_data hS hself ho) fun data hdata => .pure (hcomma hdata)
    refine .bind hargument fun data hdata => .bind maintains_elementAt fun e' he' => ?_
    refine .bind (hchildren e') fun children hchildren => .pure ?_
    -- The plugins that ran meanwhile have not changed the tag.
    have htag : e'.tag = e.tag := (congrArg Element.tag (he'.2.unbound_eq he.2) :)
    have hover : Text.Over S.letters ("'" ++ e'.tag.shown ++ "'") := by
      have hquote : Text.Over S.letters "'" := hS.letters.fixed (by decide)
      simp only [over_append, hquote, he'.1.tag.shown hS.letters, and_self]
    refine ⟨⟨e₀, he₀, hv, ?_⟩, hover, hdata, hchildren.argument (hS.spelling v)⟩
    rw [htarget, Element.target, hnone, htag]

theorem maintains_create (ho : o.Spelling S.letters) (he : S.Has i e) (hv : e.dissolves = true → v = true) :
    Maintains (S.Fits v) (emitCreate o self i e) (S.Admits v) := by
  refine .bind (maintains_bare hS hself ho he hv) fun c hc => .bind maintains_elementAt fun e' _ => .pure ?_
  refine List.foldlRecOn o.modules _ hc fun c hc m hm => ?_
  rwa [ho.transform m hm]

theorem maintains_inPlace (ho : o.Spelling S.letters) (he : S.Has i e) :
    Maintains (S.Fits v) (emitInPlace o self i e done) (S.Admits v) := by
  refine .ite (fun _ => maintains_loop hS hself he.1) fun _ => ?_
  refine .ite (fun _ => maintains_branches hS hself he.1) fun _ => ?_
  refine .bind .get fun g hg => .ite (fun hc => ?_) fun hc => ?_
  · rw [hg.verbatim, Bool.and_eq_true, Bool.not_eq_true_eq_eq_false] at hc
    obtain ⟨e₀, he₀, hdissolves, -⟩ := he.exists_element
    refine .bind (maintains_children hS hself _) fun children hchildren => ?_
    refine .pure ⟨⟨e₀, he₀, hdissolves.trans hc.1⟩, hc.2, ?_⟩
    exact hchildren.codeOr (hS.spelling v) (hS.letters.fixed (by decide))
  · refine .ite (fun _ => maintains_outlet hS hself he.1) fun _ => maintains_create hS hself ho he fun hdissolves => ?_
    rw [hg.verbatim, Bool.and_eq_true, not_and] at hc
    simpa using hc hdissolves

theorem maintains_element (ho : o.Spelling S.letters) :
    Maintains (S.Fits v) (emitElement o self i done) (S.Admits v) := by
  refine .bind maintains_elementAt fun e he => .bind maintains_flagsOf fun _ _ => ?_
  refine .ite (fun _ => maintains_hoisted hS hself) fun _ => .ite (fun _ => maintains_once hS hself) fun _ => ?_
  exact maintains_inPlace hS hself ho he

omit hself in
theorem maintains_run (ho : o.Spelling S.letters) (fuel : Nat) (task : Task) :
    Maintains (S.Fits v) (run o fuel task) (S.Admits v) := by
  induction fuel generalizing v task with
  | zero => exact .throw _
  | succ fuel ih =>
    cases task with
    | element i done => exact maintains_element hS ih ho
    | onceElement i done => exact maintains_once hS ih
    | slotEntry i done => exact maintains_slotEntry hS ih

omit hself in
theorem maintains_root (ho : o.Spelling S.letters) (root : Option Nat) :
    Maintains (S.Fits v) (emitRoot o root) (S.Admits v) := by
  cases root with
  | none => exact .pure ((hS.spelling v).callHelper .create ((hS.spelling v).fixed (by decide)))
  | some i =>
    refine .bind .get fun g _ => .bind maintains_elementAt fun e _ => ?_
    exact maintains_template hS (maintains_run hS ho _) i e

end Generator

/-- The code of a template is admitted where the switch is off. -/
theorem Rubric.admits_generate {S : Rubric} (hS : S.Sound) (ht : S.tree.Over S.letters) {o : Options}
    (ho : o.Spelling S.letters) {root : Option Nat} {c : Code} (h : (S.tree.generate o root).code = .ok c) :
    S.Admits false c := by
  rw [Generator.generate_eq] at h
  have hstart : S.Fits false { tree := S.tree } := ⟨.refl S.tree, ht, Memo.recalls_nil _, rfl⟩
  exact (Generator.maintains_root hS ho (root.or S.tree.root) _ hstart c _ (Prod.ext h rfl)).1

end TemplateCompiler
