import TemplateCompiler.Generator.Data
import TemplateCompiler.Proofs.Code.Spelled
import TemplateCompiler.Proofs.Tree.Spelled

/-!
# What is written for an element over an alphabet

The parts of the code of an element over `P` have every judgement that texts over `P` have: the objects of properties
and listeners, the arguments of outlets, the descriptors of slots, the entries of a data object and the list of
children.
-/

namespace TemplateCompiler

open Text
open Code (Spelling)

variable {P : Char → Prop} {J : Code → Prop} (hJ : Spelling P J)

/-! ## Entries by name -/

/-- Entries whose names are over `P` and whose values have `J`. -/
structure KeyedEntries.Spelled (P : Char → Prop) (J : Code → Prop) (k : KeyedEntries) : Prop where
  fixed : ∀ e ∈ k.fixed, Text.Over P e.1 ∧ J e.2
  dynamic : ∀ e ∈ k.dynamic, Text.Over P e.1 ∧ J e.2

namespace KeyedEntries.Spelled

variable {k : KeyedEntries}

theorem empty : ({} : KeyedEntries).Spelled P J := ⟨nofun, nofun⟩

theorem add (h : k.Spelled P J) {name : String} (hname : Text.Over P name) (dynamic : Bool) {value : Code}
    (hv : J value) : (k.add name dynamic value).Spelled P J := by
  cases dynamic with
  | true => exact ⟨h.fixed, List.forall_mem_append.mpr ⟨h.dynamic, List.forall_mem_singleton.mpr ⟨hname, hv⟩⟩⟩
  | false => exact ⟨List.forall_mem_append.mpr ⟨h.fixed, List.forall_mem_singleton.mpr ⟨hname, hv⟩⟩, h.dynamic⟩

include hJ

theorem code (h : k.Spelled P J) : J k.code := by
  have hP := hJ.alphabet
  have hcomma : Text.Over P "," := hP.fixed (by decide)
  have hfixed : J (Code.text "\x7b" ++ Code.join "," (k.fixed.map fun e =>
      Code.text ("\"" ++ e.1 ++ "\":") ++ e.2) ++ Code.text "\x7d") := by
    refine hJ.append (hJ.append (hJ.fixed (by decide)) (hJ.join hcomma fun c hc => ?_)) (hJ.fixed (by decide))
    obtain ⟨e, he, rfl⟩ := List.mem_map.mp hc
    obtain ⟨hname, hvalue⟩ := h.fixed e he
    refine hJ.append (hJ.text ?_) hvalue
    simp (disch := decide) only [over_append, hP.fixed, hname, and_self]
  have hdynamic : J (Code.join "," (k.dynamic.map fun e => Code.text (e.1 ++ ",") ++ e.2)) := by
    refine hJ.join hcomma fun c hc => ?_
    obtain ⟨e, he, rfl⟩ := List.mem_map.mp hc
    obtain ⟨hname, hvalue⟩ := h.dynamic e he
    exact hJ.append (hJ.text (over_append.mpr ⟨hname, hcomma⟩)) hvalue
  unfold KeyedEntries.code
  split
  · exact hfixed
  · refine hJ.callHelper _ (hJ.append (hJ.append (hJ.append hfixed ?_) hdynamic) ?_)
    · exact hJ.fixed (by decide)
    · exact hJ.fixed (by decide)

end KeyedEntries.Spelled

include hJ

theorem spelled_of_propsEntries {props : List Attr} (hp : ∀ a ∈ props, a.Over P) {k : KeyedEntries}
    (h : propsEntries props = .ok k) : J k.code := by
  have hP := hJ.alphabet
  refine KeyedEntries.Spelled.code hJ (foldlM_ok (fun k a hmem k' hk ha => ?_) .empty h)
  obtain ⟨hname, hvalue⟩ := hp a hmem
  split at ha
  · next v hv =>
    cases ha
    rw [hv, Json.over_string] at hvalue
    exact hk.add (hname.shown hP) _ (hJ.text (Json.over_escapeSeparators hP hvalue))
  · cases ha

/-! ## Listeners -/

namespace Listener

theorem spelled_of_textKeyTest {key : String} (hkey : Text.Over P key) {c : Code} (h : textKeyTest key = .ok c) :
    J c := by
  have hP := hJ.alphabet
  -- The codes and names in the table of keys are printable.
  have haliases : ∀ k ∈ keyAliases,
      (oneOrMany (k.codes.map fun c : Nat => .int c)).letters.all isPrintable = true ∧
        (oneOrMany (k.names.map .string)).letters.all isPrintable = true := by
    decide +kernel
  have hliteral (f : KeyAlias → Json) (hf : ∀ k ∈ keyAliases, (f k).letters.all isPrintable = true) :
      Text.Over P (((keyAlias? key).map fun k => (f k).compact).getD "undefined") := by
    rcases hk : keyAlias? key with _ | k
    · exact hP.fixed (s := "undefined") (by decide)
    · refine Json.over_compact hP fun c hc => hP.printable c ?_
      exact List.all_eq_true.mp (hf k (List.mem_of_find?_eq_some hk)) c hc
  have hcodes := hliteral _ fun k hk => (haliases k hk).1
  have hnames := hliteral _ fun k hk => (haliases k hk).2
  have hnamed : J (Code.callHelper .checkKeyCodes (Code.text ("$event.keyCode," ++ Json.quote key ++ "," ++
      ((keyAlias? key).map fun k => (oneOrMany (k.codes.map fun c : Nat => .int c)).compact).getD "undefined" ++
      ",$event.key," ++
      ((keyAlias? key).map fun k => (oneOrMany (k.names.map .string)).compact).getD "undefined"))) := by
    refine hJ.callHelper _ (hJ.text ?_)
    simp (disch := decide) only [over_append, hP.fixed, Json.over_quote hP hkey, hcodes, hnames, and_self]
  unfold textKeyTest at h
  split at h
  · cases h; exact hnamed
  · split at h
    · cases h
    · cases h
      split
      · exact hnamed
      · exact hJ.text (over_append.mpr ⟨hP.fixed (by decide), Json.over_toString_int hP _⟩)

theorem spelled_of_keyTest {key : Json} (hkey : key.Over P) {c : Code} (h : keyTest key = .ok c) : J c := by
  obtain ⟨name, rfl, h⟩ := keyTest_eq_ok h
  exact spelled_of_textKeyTest hJ (Json.over_string.mp hkey) h

theorem spelled_guard {condition : Code} (h : J condition) : J (Statement.guard condition).code :=
  hJ.append (hJ.append (hJ.fixed (by decide)) h) (hJ.fixed (by decide))

theorem spelled_of_keyFilter {keys : List Json} (hkeys : ∀ k ∈ keys, k.Over P) {s : Statement}
    (h : keyFilter keys = .ok s) : J s.code := by
  obtain ⟨tests, ht, h⟩ := bind_ok h
  cases h
  refine spelled_guard hJ (hJ.append (hJ.fixed (by decide)) (hJ.join (hJ.alphabet.fixed (by decide)) ?_))
  exact mapM_ok (fun key hkey _ => spelled_of_keyTest hJ (hkeys key hkey)) ht

theorem spelled_of_modifierStatement {key : String} {s : Statement} (h : modifierStatement? key = some s) :
    J s.code := by
  unfold modifierStatement? at h
  split at h <;> cases h
  · exact hJ.fixed (by decide)
  · exact hJ.fixed (by decide)
  all_goals exact spelled_guard hJ (hJ.fixed (by decide +kernel))

theorem spelled_exactGuard (m : Modifiers) : J (exactGuard m).code := by
  have hP := hJ.alphabet
  have hkeys : ∀ k ∈ systemKeys, ("$event." ++ k ++ "Key").toList.all isPrintable = true := by decide
  refine spelled_guard hJ (hJ.text (over_intercalate (hP.fixed (by decide)) fun s hs => ?_))
  obtain ⟨k, hk, rfl⟩ := List.mem_map.mp hs
  exact hP.fixed (hkeys k (List.mem_filter.mp hk).1)

theorem spelled_of_statement {m : Modifiers} {key : Json} {s : Statement} (h : statement? m key = some s) :
    J s.code := by
  obtain ⟨name, -, hs | ⟨-, rfl⟩⟩ := statement?_eq_some h
  · exact spelled_of_modifierStatement hJ hs
  · exact spelled_exactGuard hJ m

theorem spelled_of_statements {m : Modifiers} (hm : ∀ e ∈ m, e.1.Over P) {ss : List Statement}
    (h : statements m = .ok ss) : ∀ s ∈ ss, J s.code := by
  intro s hs
  obtain ⟨keys, hkeys, hs⟩ | ⟨key, hs⟩ := mem_statements h hs
  · refine spelled_of_keyFilter hJ (fun k hk => ?_) hs
    obtain ⟨e, he, rfl⟩ := List.mem_map.mp (hkeys hk)
    exact hm e he
  · exact spelled_of_statement hJ hs

end Listener

theorem spelled_of_handler {h : Handler} (hh : h.Over P) {c : Code} (hc : h.code = .ok c) : J c := by
  have hP := hJ.alphabet
  obtain ⟨hv, hmodifiers⟩ := hh
  unfold Handler.code at hc
  split at hc
  · next value hvalue =>
    have hcode : Text.Over P value := by rwa [hvalue, Json.over_string] at hv
    have hreturn : Text.Over P ("return " ++ value) := over_append.mpr ⟨hP.fixed (by decide), hcode⟩
    have happly : Text.Over P ".apply(null, arguments)" := hP.fixed (by decide)
    split at hc
    · dsimp only at hc
      split at hc
      · cases hc; exact hJ.text hcode
      · cases hc
        refine hJ.text (over_append.mpr ⟨over_append.mpr ⟨hP.fixed (by decide), ?_⟩, hP.fixed (by decide)⟩)
        split
        · exact hreturn
        · exact hcode
    · next m hm =>
      rw [hm] at hmodifiers
      obtain ⟨ss, hs, hc⟩ := bind_ok hc
      cases hc
      refine hJ.append (hJ.append (hJ.fixed (by decide)) ?_)
        (hJ.text (over_append.mpr ⟨?_, hP.fixed (by decide)⟩))
      · refine hJ.join over_empty fun c hc => ?_
        obtain ⟨s, hmem, rfl⟩ := List.mem_map.mp hc
        exact Listener.spelled_of_statements hJ hmodifiers hs s hmem
      · split
        · exact over_append.mpr ⟨hreturn, happly⟩
        split
        · have hopen : Text.Over P "return (" := hP.fixed (by decide)
          have hclose : Text.Over P ").apply(null, arguments)" := hP.fixed (by decide)
          exact over_append.mpr ⟨over_append.mpr ⟨hopen, hcode⟩, hclose⟩
        split
        · exact hreturn
        · exact hcode
  · cases hc

theorem spelled_of_handlersCode {hs : List Handler} (hh : ∀ h ∈ hs, h.Over P) {c : Code}
    (h : handlersCode hs = .ok c) : J c := by
  unfold handlersCode at h
  split at h
  · cases h; exact hJ.fixed (by decide)
  · exact spelled_of_handler hJ (hh _ (List.mem_singleton_self _)) h
  · obtain ⟨codes, hm, h⟩ := bind_ok h
    cases h
    have hcodes := mapM_ok (fun h hmem _ => spelled_of_handler hJ (hh h hmem)) hm
    exact hJ.append (hJ.append (hJ.fixed (by decide)) (hJ.join (hJ.alphabet.fixed (by decide)) hcodes))
      (hJ.fixed (by decide))

theorem spelled_of_eventsCode {events : Events} (hevents : events.Over P) {native : Bool} {c : Code}
    (h : eventsCode events native = .ok c) : J c := by
  obtain ⟨k, he, h⟩ := bind_ok h
  cases h
  have hk : k.Spelled P J := by
    refine foldlM_ok (fun k e hmem k' hk hke => ?_) .empty he
    obtain ⟨hname, hhandlers⟩ := hevents e hmem
    obtain ⟨code, hc, hke⟩ := bind_ok hke
    cases hke
    exact hk.add hname _ (spelled_of_handlersCode hJ hhandlers hc)
  refine hJ.append ?_ (hk.code hJ)
  cases native with
  | true => exact hJ.fixed (by decide)
  | false => exact hJ.fixed (by decide)

/-! ## Parts of a data object -/

namespace DataPart

omit hJ in
def Spelled (P : Char → Prop) (J : Code → Prop) : DataPart → Prop
  | .entry code => J code
  | .fragments text => Text.Over P text

theorem Spelled.last {p : DataPart} (h : p.Spelled P J) : J p.last := by
  cases p with
  | entry code => exact h
  | fragments text =>
    refine hJ.text ?_
    unfold dropComma
    split
    · next rest hrest =>
      refine Over.of_subset h fun c hc => ?_
      rw [← List.mem_reverse, hrest]
      exact List.mem_cons_of_mem _ (List.mem_reverse.mp hc)
    · exact h

theorem spelled_join {parts : List DataPart} (h : ∀ p ∈ parts, p.Spelled P J) : J (join parts) := by
  induction parts with
  | nil => exact hJ.empty
  | cons p rest ih =>
    obtain ⟨hp, hrest⟩ := List.forall_mem_cons.mp h
    have hfollowed : J p.followed := by
      cases p with
      | entry code => exact hJ.append hp (hJ.fixed (by decide))
      | fragments text => exact hJ.text hp
    unfold join
    split
    · exact hp.last hJ
    · exact hJ.append hfollowed (ih hrest)

end DataPart

namespace Generator

variable {e : Element}

omit hJ in
theorem over_directiveEntry (hP : Alphabet P) {d : Directive} (hd : d.Over P) : Text.Over P (directiveEntry d) := by
  have hvalue : Text.Over P
      ((d.value.filled?.map fun v => ",value:(" ++ v ++ "),expression:" ++ d.value.compact).getD "") := by
    refine hd.value.filledMap hP fun s hs => ?_
    simp (disch := decide) only [over_append, hP.fixed, hs, Json.over_compact hP hd.value, and_self]
  have harg : Text.Over P ((d.arg.filled?.map fun a =>
      ",arg:" ++ if d.dynamicArg then a else "\"" ++ a ++ "\"").getD "") := by
    refine hd.arg.filledMap hP fun s hs => over_append.mpr ⟨hP.fixed (by decide), ?_⟩
    split
    · exact hs
    · simp (disch := decide) only [over_append, hP.fixed, hs, and_self]
  have hmodifiers : Text.Over P
      ((d.modifiers.map fun m => ",modifiers:" ++ m.object.compact).getD "") := by
    rcases hm : d.modifiers with _ | m
    · exact over_empty
    · exact over_append.mpr ⟨hP.fixed (by decide), Json.over_compact hP (hd.modifiers m hm)⟩
  unfold directiveEntry
  simp (disch := decide) only [over_append, hP.fixed, hd.name, hd.rawName.shown hP, hvalue, harg, hmodifiers, and_self]

theorem spelled_directivesEntry {kept : List Directive} (h : ∀ d ∈ kept, d.Over P) :
    ∀ p ∈ directivesEntry kept, p.Spelled P J := by
  have hP := hJ.alphabet
  unfold directivesEntry
  split
  · nofun
  · refine List.forall_mem_singleton.mpr (hJ.text ?_)
    have hentries : Text.Over P (String.intercalate "," (kept.map directiveEntry)) := by
      refine over_intercalate (hP.fixed (by decide)) fun s hs => ?_
      obtain ⟨d, hd, rfl⟩ := List.mem_map.mp hs
      exact over_directiveEntry hP (h d hd)
    simp (disch := decide) only [over_append, hP.fixed, hentries, and_self]

theorem spelled_textEntry {key : String} (hk : Text.Over P key) {value : Json} (hv : value.Over P) :
    ∀ p ∈ textEntry key value, p.Spelled P J := by
  unfold textEntry
  split
  · next v hfilled =>
    exact List.forall_mem_singleton.mpr (hJ.text (over_append.mpr ⟨hk, hv.of_filled? hJ.alphabet hfilled⟩))
  · nofun

theorem spelled_switchEntry {code : String} (hc : Text.Over P code) (on : Bool) :
    ∀ p ∈ switchEntry code on, p.Spelled P J := by
  unfold switchEntry
  split
  · exact List.forall_mem_singleton.mpr (hJ.text hc)
  · nofun

theorem spelled_ownEntries {o : Options} (he : e.Over P) (ho : ∀ m ∈ o.modules, Text.Over P (m.data e))
    (verbatim : Bool) : ∀ p ∈ ownEntries o e verbatim, p.Spelled P J := by
  have hP := hJ.alphabet
  have htag : Text.Over P ("tag:\"" ++ e.tag.shown ++ "\"") := by
    simp (disch := decide) only [over_append, hP.fixed, he.tag.shown hP, and_self]
  unfold ownEntries
  simp only [List.forall_mem_append, List.forall_mem_map]
  refine ⟨⟨⟨⟨⟨?_, ?_⟩, ?_⟩, ?_⟩, ?_⟩, ho⟩
  · exact spelled_textEntry hJ (hP.fixed (by decide)) (he.expressions e.key (by simp [Element.expressions]))
  · exact spelled_textEntry hJ (hP.fixed (by decide)) (he.expressions e.ref (by simp [Element.expressions]))
  · exact spelled_switchEntry hJ (hP.fixed (by decide)) _
  · exact spelled_switchEntry hJ (hP.fixed (by decide)) _
  · exact spelled_switchEntry hJ htag _

theorem spelled_targetEntry (he : e.Over P) : ∀ p ∈ targetEntry e, p.Spelled P J := by
  unfold targetEntry
  split
  · nofun
  · exact spelled_textEntry hJ (hJ.alphabet.fixed (by decide))
      (he.expressions e.slotTarget (by simp [Element.expressions]))

theorem spelled_modelEntry {m : ModelBinding} (hm : m.Over P) : (modelEntry m).Spelled P J := by
  have hP := hJ.alphabet
  obtain ⟨hvalue, hcallback, hexpression⟩ := hm
  refine hJ.text ?_
  simp (disch := decide) only [over_append, hP.fixed, hvalue.shown hP, hcallback.shown hP, hexpression.shown hP,
    and_self]

/-! ## Merged objects -/

theorem spelled_of_bindDynamicAttrs (he : e.Over P) {data c : Code} (hd : J data)
    (h : bindDynamicAttrs e data = .ok c) : J c := by
  have hP := hJ.alphabet
  unfold bindDynamicAttrs at h
  dsimp only at h
  split at h
  · cases h; exact hd
  · obtain ⟨k, hp, h⟩ := bind_ok h
    cases h
    refine hJ.callHelper _ (hJ.append (hJ.append hd (hJ.text ?_)) ?_)
    · simp (disch := decide) only [over_append, hP.fixed, he.tag.shown hP, and_self]
    · exact spelled_of_propsEntries hJ he.bindings.dynamicAttrs hp

theorem spelled_mergeObjects (he : e.Over P) {data : Code} (hd : J data) : J (mergeObjects e data) := by
  have hP := hJ.alphabet
  have hwrapped : J ((e.wrapData.map fun b => b.wrap data).getD data) := by
    rcases hb : e.wrapData with _ | b
    · exact hd
    · obtain ⟨hhelper, htag, hvalue⟩ := he.bindings.wrapData b hb
      have hprop : Text.Over P (if b.asProp then "true" else "false") := by
        split <;> exact hP.fixed (by decide)
      have hsync : Text.Over P (if b.sync then ",true" else "") := by
        split <;> exact hP.fixed (by decide)
      refine hJ.append (hJ.append (hJ.text (over_append.mpr ⟨hhelper, hP.fixed (by decide)⟩)) hd) (hJ.text ?_)
      simp (disch := decide) only [over_append, hP.fixed, htag.shown hP, hvalue.shown hP, hprop, hsync, and_self]
  unfold mergeObjects
  dsimp only
  rcases hl : e.wrapListeners with _ | l
  · exact hwrapped
  · obtain ⟨hhelper, hvalue⟩ := he.bindings.wrapListeners l hl
    refine hJ.append (hJ.append (hJ.text (over_append.mpr ⟨hhelper, hP.fixed (by decide)⟩)) hwrapped) (hJ.text ?_)
    simp (disch := decide) only [over_append, hP.fixed, hvalue.shown hP, and_self]

/-! ## Loops, outlets and slots -/

omit hJ in
theorem over_loopParams (hP : Alphabet P) (he : e.Over P) : Text.Over P (loopParams e) := by
  have hmore (v : Json) (hv : v.Over P) : Text.Over P ((v.filled?.map ("," ++ ·)).getD "") :=
    hv.filledMap hP fun s hs => over_append.mpr ⟨hP.fixed (by decide), hs⟩
  have halias : e.forAlias.Over P := he.expressions e.forAlias (by simp [Element.expressions])
  refine over_append.mpr ⟨over_append.mpr ⟨halias.shown hP, hmore _ ?_⟩, hmore _ ?_⟩
  · exact he.expressions e.iterator1 (by simp [Element.expressions])
  · exact he.expressions e.iterator2 (by simp [Element.expressions])

theorem spelled_of_outletProps (he : e.Over P) {props : Option Code} (h : outletProps e = .ok props) :
    ∀ c ∈ props, J c := by
  unfold outletProps at h
  split at h
  · obtain ⟨camel, hc, h⟩ := bind_ok h
    obtain ⟨k, hp, h⟩ := bind_ok h
    cases h
    have hattrs := List.forall_mem_append.mpr ⟨he.bindings.attrs, he.bindings.dynamicAttrs⟩
    have hcamel : ∀ a ∈ camel, a.Over P := by
      refine mapM_ok (fun a ha b hab => ?_) hc
      obtain ⟨hname, hvalue⟩ := hattrs a ha
      unfold camelAttr at hab
      split at hab <;> cases hab
      next name hn =>
      rw [hn, Json.over_string] at hname
      exact ⟨Json.over_string.mpr (hJ.alphabet.camelize hname), hvalue⟩
    rintro c ⟨⟩
    exact spelled_of_propsEntries hJ hcamel hp
  · cases h
    nofun

theorem spelled_outletArguments (he : e.Over P) {fallback props : Option Code} (hf : ∀ c ∈ fallback, J c)
    (hp : ∀ c ∈ props, J c) : J (outletArguments e fallback props) := by
  have hP := hJ.alphabet
  have hname : Text.Over P (e.slotName.filled?.getD "\"default\"") :=
    (he.expressions e.slotName (by simp [Element.expressions])).filledOr hP (hP.fixed (by decide))
  unfold outletArguments
  refine hJ.append (hJ.append (hJ.append (hJ.text hname) ?_) ?_) ?_
  · split
    · next c => exact hJ.append (hJ.append (hJ.fixed (by decide)) (hf c rfl)) (hJ.fixed (by decide))
    · split
      · exact hJ.fixed (by decide)
      · exact hJ.empty
  · split
    · next p => exact hJ.append (hJ.fixed (by decide)) (hp p rfl)
    · exact hJ.empty
  · split
    · next b hb =>
      have hobject : Text.Over P b := (he.rawValue "v-bind").of_filled? hP hb
      have hgap : Text.Over P (if props.isSome then "" else ",null") := by
        split <;> exact hP.fixed (by decide)
      exact hJ.text (over_append.mpr ⟨over_append.mpr ⟨hgap, hP.fixed (by decide)⟩, hobject⟩)
    · exact hJ.empty

theorem spelled_slotDescriptor (he : e.Over P) {target : Json} (ht : target.Over P) {body : Code} (hb : J body) :
    J (slotDescriptor e target body) := by
  have hP := hJ.alphabet
  have hscope : Json.Over P
      (if e.slotScope.isNull || e.slotScope.isText emptySlotScope then .string "" else e.slotScope) := by
    split
    · exact Json.over_string.mpr over_empty
    · exact he.expressions e.slotScope (by simp [Element.expressions])
  have hkey : Text.Over P (target.filled?.getD "\"default\"") := ht.filledOr hP (hP.fixed (by decide))
  have hproxy (scope : Json) : Text.Over P (if scope.truthy then "" else ",proxy:true") := by
    split <;> exact hP.fixed (by decide)
  refine hJ.append (hJ.append (hJ.text ?_) hb) (hJ.text ?_)
  · simp (disch := decide) only [over_append, hP.fixed, hkey, hscope.shown hP, and_self]
  · simp (disch := decide) only [over_append, hP.fixed, hproxy, and_self]

end Generator

/-! ## Children -/

namespace Children

omit hJ in
def Spelled (J : Code → Prop) : Children → Prop
  | .none => True
  | .bare loop _ => J loop
  | .list items _ => ∀ c ∈ items, J c

variable {children : Children}

theorem Spelled.code? (h : children.Spelled J) : ∀ c ∈ children.code?, J c := by
  have hP := hJ.alphabet
  cases children with
  | none => nofun
  | bare loop level =>
    rintro _ ⟨⟩
    refine hJ.append h (hJ.text ?_)
    rcases level with _ | n
    · exact over_empty
    · exact over_append.mpr ⟨hP.fixed (by decide), Json.over_toString_nat hP n⟩
  | list items level =>
    rintro _ ⟨⟩
    have hlevel : Text.Over P (if level = 0 then "" else "," ++ toString level) := by
      split
      · exact over_empty
      · exact over_append.mpr ⟨hP.fixed (by decide), Json.over_toString_nat hP level⟩
    refine hJ.append (hJ.append (hJ.fixed (by decide)) (hJ.join (hP.fixed (by decide)) h)) (hJ.text ?_)
    exact over_append.mpr ⟨hP.fixed (by decide), hlevel⟩

theorem Spelled.codeOr (h : children.Spelled J) {fallback : String} (hf : Text.Over P fallback) :
    J (children.code?.getD (Code.text fallback)) := by
  rcases hc : children.code? with _ | c
  · exact hJ.text hf
  · exact h.code? hJ c hc

theorem Spelled.argument (h : children.Spelled J) : J children.argument := by
  unfold Children.argument
  rcases hc : children.code? with _ | c
  · exact hJ.empty
  · exact hJ.append (hJ.fixed (by decide)) (h.code? hJ c hc)

end Children

end TemplateCompiler
