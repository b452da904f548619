import TemplateCompiler.Proofs.Code.Bracketed
import TemplateCompiler.Generator.Data
import TemplateCompiler.Proofs.Tree.Bracketed

/-!
# What is written for a bracketed element

The parts of the code of a bracketed element leave nothing open: the objects of properties and listeners, the
arguments of outlets, the descriptors of slots, the entries of a data object and the list of children. Modifiers
may be anything, since they are printed as literals or not at all.
-/

namespace TemplateCompiler

open Text
open Code (Takes bracketed_text bracketed_empty bracketed_join bracketed_callHelper)

theorem Json.eq_shown_of_filled? {v : Json} {s : String} (h : v.filled? = some s) : s = v.shown := by
  unfold filled? at h
  split at h <;> cases h
  rfl

/-! ## Entries by name -/

namespace KeyedEntries

structure Bracketed (k : KeyedEntries) : Prop where
  fixed : ∀ e ∈ k.fixed, Quotable e.1 ∧ e.2.Bracketed
  dynamic : ∀ e ∈ k.dynamic, Balanced e.1 ∧ e.2.Bracketed

variable {k : KeyedEntries}

theorem Bracketed.empty : ({} : KeyedEntries).Bracketed := ⟨nofun, nofun⟩

theorem Bracketed.add (h : k.Bracketed) {name : String} {dynamic : Bool} (hname : IsPrinted dynamic name)
    {value : Code} (hv : value.Bracketed) : (k.add name dynamic value).Bracketed := by
  cases dynamic with
  | true =>
    refine ⟨h.fixed, fun e he => ?_⟩
    rcases List.mem_append.mp he with he | he
    · exact h.dynamic e he
    · exact List.mem_singleton.mp he ▸ ⟨hname, hv⟩
  | false =>
    refine ⟨fun e he => ?_, h.dynamic⟩
    rcases List.mem_append.mp he with he | he
    · exact h.fixed e he
    · exact List.mem_singleton.mp he ▸ ⟨hname, hv⟩

theorem Bracketed.bracketed_code (h : k.Bracketed) : k.code.Bracketed := by
  have hfixed : (Code.text "\x7b" ++ Code.join "," (k.fixed.map fun e =>
      Code.text ("\"" ++ e.1 ++ "\":") ++ e.2) ++ Code.text "\x7d").Bracketed := by
    refine Takes.start "\x7b" rfl |>.code (bracketed_join (by decide) fun c hc => ?_) |>.fixed "\x7d" rfl
    obtain ⟨e, he, rfl⟩ := List.mem_map.mp hc
    have hkey : Balanced ("\"" ++ e.1 ++ "\":") :=
      Reads.start "\"" rfl |>.quoted (h.fixed e he).1 |>.fixed "\":" rfl
    exact (bracketed_text hkey).code (h.fixed e he).2
  have hdynamic : (Code.join "," (k.dynamic.map fun e => Code.text (e.1 ++ ",") ++ e.2)).Bracketed := by
    refine bracketed_join (by decide) fun c hc => ?_
    obtain ⟨e, he, rfl⟩ := List.mem_map.mp hc
    have hkey : Balanced (e.1 ++ ",") := Reads.fixed (h.dynamic e he).1 "," rfl
    exact (bracketed_text hkey).code (h.dynamic e he).2
  unfold KeyedEntries.code
  split
  · exact hfixed
  · exact bracketed_callHelper _ (hfixed.fixed ",[" rfl |>.code hdynamic |>.fixed "]" rfl)

end KeyedEntries

theorem bracketed_of_propsEntries {props : List Attr} (hp : ∀ a ∈ props, a.Bracketed) {k : KeyedEntries}
    (h : propsEntries props = .ok k) : k.code.Bracketed := by
  refine KeyedEntries.Bracketed.bracketed_code (foldlM_ok (fun k a hmem k' hk ha => ?_) .empty h)
  split at ha
  · next v hv =>
    cases ha
    obtain ⟨hname, hvalue⟩ := hp a hmem
    rw [hv] at hvalue
    exact hk.add hname (bracketed_text (Json.balanced_escapeSeparators hvalue))
  · cases ha

/-! ## Listeners -/

namespace Listener

theorem bracketed_of_keyTest {key : Json} {c : Code} (h : keyTest key = .ok c) : c.Bracketed := by
  obtain ⟨key, rfl, htest⟩ := keyTest_eq_ok h
  have hliteral (f : KeyAlias → Json) :
      Balanced (((keyAlias? key).map fun k => (f k).compact).getD "undefined") := by
    rcases keyAlias? key with _ | k
    · exact (by decide : Balanced "undefined")
    · exact Json.balanced_compact (f k)
  have hnamed := bracketed_callHelper .checkKeyCodes (bracketed_text (Reads.start "$event.keyCode," rfl
    |>.code (Json.balanced_quote key) |>.fixed "," rfl
    |>.code (hliteral fun k => oneOrMany (k.codes.map fun c : Nat => .int c)) |>.fixed ",$event.key," rfl
    |>.code (hliteral fun k => oneOrMany (k.names.map .string))))
  unfold textKeyTest at htest
  split at htest
  · cases htest; exact hnamed
  · split at htest
    · cases htest
    · cases htest
      split
      · exact hnamed
      · exact bracketed_text (Reads.start "$event.keyCode!==" rfl |>.code (balanced_toString_int _))

theorem bracketed_guard {condition : Code} (h : condition.Bracketed) :
    (Statement.guard condition).code.Bracketed :=
  Takes.start "if(" rfl |>.code h |>.fixed ")return null;" rfl

theorem bracketed_of_keyFilter {keys : List Json} {s : Statement} (h : keyFilter keys = .ok s) :
    s.code.Bracketed := by
  obtain ⟨tests, ht, h⟩ := bind_ok h
  cases h
  refine bracketed_guard (Takes.start "!$event.type.indexOf('key')&&" rfl |>.code ?_)
  exact bracketed_join (by decide) (mapM_ok (fun _ _ _ => bracketed_of_keyTest) ht)

theorem bracketed_of_modifierStatement {key : String} {s : Statement}
    (h : modifierStatement? key = some s) : s.code.Bracketed := by
  unfold modifierStatement? at h
  split at h <;> cases h
  · exact Takes.start _ rfl
  · exact Takes.start _ rfl
  all_goals exact bracketed_guard (Takes.start _ rfl)

theorem bracketed_exactGuard (m : Modifiers) : (exactGuard m).code.Bracketed := by
  have hkeys : ∀ k ∈ systemKeys, Balanced ("$event." ++ k ++ "Key") := by decide
  refine bracketed_guard (bracketed_text (Balanced.intercalate (by decide) fun s hs => ?_))
  obtain ⟨k, hk, rfl⟩ := List.mem_map.mp hs
  exact hkeys k (List.mem_filter.mp hk).1

theorem bracketed_of_statements {m : Modifiers} {ss : List Statement} (h : statements m = .ok ss) :
    ∀ s ∈ ss, s.code.Bracketed := by
  intro s hs
  obtain ⟨keys, -, hs⟩ | ⟨key, hs⟩ := mem_statements h hs
  · exact bracketed_of_keyFilter hs
  · obtain ⟨name, -, hs | ⟨-, rfl⟩⟩ := statement?_eq_some hs
    · exact bracketed_of_modifierStatement hs
    · exact bracketed_exactGuard m

end Listener

theorem bracketed_of_handler {h : Handler} (hv : h.value.IsCode) {c : Code} (hc : h.code = .ok c) :
    c.Bracketed := by
  unfold Handler.code at hc
  split at hc
  · next value hvalue =>
    have hcode : Balanced value := by rwa [hvalue] at hv
    have hreturn : Balanced ("return " ++ value) := Reads.start "return " rfl |>.code hcode
    split at hc
    · dsimp only at hc
      split at hc
      · cases hc; exact bracketed_text hcode
      · cases hc
        refine bracketed_text (Reads.start "function($event)\x7b" rfl |>.code ?_ |>.fixed "\x7d" rfl)
        split
        · exact hreturn
        · exact hcode
    · obtain ⟨ss, hs, hc⟩ := bind_ok hc
      cases hc
      refine Takes.start "function($event)\x7b" rfl |>.code ?_ |>.piece ((Balanced.reads ?_ _).fixed "\x7d" rfl)
      · refine bracketed_join (by decide) fun c hc => ?_
        obtain ⟨s, hmem, rfl⟩ := List.mem_map.mp hc
        exact Listener.bracketed_of_statements hs s hmem
      · split
        · exact hreturn.fixed ".apply(null, arguments)" rfl
        split
        · exact Reads.start "return (" rfl |>.code hcode |>.fixed ").apply(null, arguments)" rfl
        split
        · exact hreturn
        · exact hcode
  · cases hc

theorem bracketed_of_handlersCode {hs : List Handler} (hv : ∀ h ∈ hs, h.value.IsCode) {c : Code}
    (h : handlersCode hs = .ok c) : c.Bracketed := by
  unfold handlersCode at h
  split at h
  · cases h; exact Takes.start _ rfl
  · exact bracketed_of_handler (hv _ (List.mem_singleton_self _)) h
  · obtain ⟨codes, hm, h⟩ := bind_ok h
    cases h
    have hcodes := mapM_ok (fun h hmem _ => bracketed_of_handler (hv h hmem)) hm
    exact Takes.start "[" rfl |>.code (bracketed_join (by decide) hcodes) |>.fixed "]" rfl

theorem bracketed_of_eventsCode {events : Events} (hevents : events.Bracketed) {native : Bool} {c : Code}
    (h : eventsCode events native = .ok c) : c.Bracketed := by
  obtain ⟨k, he, h⟩ := bind_ok h
  cases h
  have hk : k.Bracketed := by
    refine foldlM_ok (fun k e hmem k' hk hke => ?_) .empty he
    obtain ⟨hname, hhandlers⟩ := hevents e hmem
    obtain ⟨code, hc, hke⟩ := bind_ok hke
    cases hke
    exact hk.add hname (bracketed_of_handlersCode hhandlers hc)
  have hkey : Balanced (if native then "nativeOn:" else "on:") := by cases native <;> decide
  exact (bracketed_text hkey).code hk.bracketed_code

/-! ## Modules -/

/-- A module whose fragments are balanced, and that leaves nothing open. -/
structure CompilerModule.Bracketing (m : CompilerModule) : Prop where
  data : ∀ {e : Element}, e.Bracketed → Balanced (m.data e)
  transform : ∀ {e : Element} {c : Code}, e.Bracketed → c.Bracketed → (m.transform e c).Bracketed

theorem CompilerModule.bracketing_standard : ∀ m ∈ CompilerModule.standard, m.Bracketing := by
  intro m hm
  simp only [CompilerModule.standard, List.mem_cons, List.not_mem_nil, or_false] at hm
  rcases hm with rfl | rfl
  · refine ⟨fun {e} h => Balanced.append ?_ ?_, fun _ hc => hc⟩
    · refine (h.codes e.staticClass (by simp [Element.expressions])).filledMap fun s hs => ?_
      exact Reads.start "staticClass:" rfl |>.code hs |>.fixed "," rfl
    · refine (h.codes e.classBinding (by simp [Element.expressions])).filledMap fun s hs => ?_
      exact Reads.start "class:" rfl |>.code hs |>.fixed "," rfl
  · refine ⟨fun {e} h => Balanced.append ?_ ?_, fun _ hc => hc⟩
    · refine (h.codes e.staticStyle (by simp [Element.expressions])).filledMap fun s hs => ?_
      exact Reads.start "staticStyle:" rfl |>.code hs |>.fixed "," rfl
    · refine (h.codes e.styleBinding (by simp [Element.expressions])).filledMap fun s hs => ?_
      exact Reads.start "style:(" rfl |>.code hs |>.fixed ")," rfl

/-! ## Parts of a data object -/

namespace DataPart

def Bracketed : DataPart → Prop
  | .entry code => code.Bracketed
  | .fragments text => Balanced text

theorem balanced_dropComma {text : String} (h : Balanced text) : Balanced (dropComma text) := by
  unfold dropComma
  split
  · next rest hrest =>
    have htext : text.toList = rest.reverse ++ [','] := by
      rw [← List.reverse_reverse text.toList, hrest, List.reverse_cons]
    unfold Text.Balanced Reads at h ⊢
    rw [String.toList_ofList]
    rw [htext] at h
    exact Reader.read_dropLast (by decide) h
  · exact h

theorem Bracketed.last {p : DataPart} (h : p.Bracketed) : p.last.Bracketed := by
  cases p with
  | entry code => exact h
  | fragments text => exact bracketed_text (balanced_dropComma h)

theorem Bracketed.followed {p : DataPart} (h : p.Bracketed) : p.followed.Bracketed := by
  cases p with
  | entry code => exact Takes.fixed h "," rfl
  | fragments text => exact bracketed_text h

theorem bracketed_join {parts : List DataPart} (h : ∀ p ∈ parts, p.Bracketed) :
    (join parts).Bracketed := by
  induction parts with
  | nil => exact bracketed_empty
  | cons p rest ih =>
    obtain ⟨hp, hrest⟩ := List.forall_mem_cons.mp h
    unfold join
    split
    · exact hp.last
    · exact hp.followed.code (ih hrest)

end DataPart

namespace Generator

variable {e : Element}

theorem balanced_directiveEntry {d : Directive} (hd : d.Bracketed) : Balanced (directiveEntry d) := by
  have hvalue : Balanced
      ((d.value.filled?.map fun v => ",value:(" ++ v ++ "),expression:" ++ d.value.compact).getD "") := by
    refine hd.value.filledMap fun s hs => ?_
    exact Reads.start ",value:(" rfl |>.code hs |>.fixed "),expression:" rfl |>.code (Json.balanced_compact _)
  have harg : Balanced ((d.arg.filled?.map fun a =>
      ",arg:" ++ if d.dynamicArg then a else "\"" ++ a ++ "\"").getD "") := by
    rcases ha : d.arg.filled? with _ | a
    · exact balanced_empty
    · have hprinted := hd.arg
      rw [← Json.eq_shown_of_filled? ha] at hprinted
      refine Reads.start ",arg:" rfl |>.code ?_
      unfold IsPrinted at hprinted
      split at hprinted
      · next hdynamic => rwa [if_pos hdynamic]
      · next hstatic =>
        rw [if_neg hstatic]
        exact Reads.start "\"" rfl |>.quoted hprinted |>.fixed "\"" rfl
  have hmodifiers : Balanced
      ((d.modifiers.map fun m => ",modifiers:" ++ m.object.compact).getD "") := by
    rcases d.modifiers with _ | m
    · exact balanced_empty
    · exact Reads.start ",modifiers:" rfl |>.code (Json.balanced_compact _)
  exact Reads.start "\x7bname:\"" rfl |>.quoted hd.name |>.fixed "\",rawName:\"" rfl |>.quoted hd.rawName
    |>.fixed "\"" rfl |>.code hvalue |>.code harg |>.code hmodifiers |>.fixed "\x7d" rfl

theorem bracketed_directivesEntry {kept : List Directive} (h : ∀ d ∈ kept, d.Bracketed) :
    ∀ p ∈ directivesEntry kept, p.Bracketed := by
  unfold directivesEntry
  split
  · nofun
  · refine List.forall_mem_singleton.mpr (bracketed_text ?_)
    refine Reads.start "directives:[" rfl |>.code (Balanced.intercalate (by decide) fun s hs => ?_)
      |>.fixed "]" rfl
    obtain ⟨d, hd, rfl⟩ := List.mem_map.mp hs
    exact balanced_directiveEntry (h d hd)

theorem bracketed_textEntry {key : String} (hk : Balanced key) {value : Json} (hv : value.IsCode) :
    ∀ p ∈ textEntry key value, p.Bracketed := by
  unfold textEntry
  split
  · next v hfilled =>
    exact List.forall_mem_singleton.mpr (bracketed_text (hk.append (hv.of_filled? hfilled)))
  · nofun

theorem bracketed_switchEntry {code : String} (hc : Balanced code) (on : Bool) :
    ∀ p ∈ switchEntry code on, p.Bracketed := by
  unfold switchEntry
  split
  · exact List.forall_mem_singleton.mpr (bracketed_text hc)
  · nofun

theorem bracketed_ownEntries {o : Options} (ho : ∀ m ∈ o.modules, m.Bracketing) (he : e.Bracketed)
    (verbatim : Bool) : ∀ p ∈ ownEntries o e verbatim, p.Bracketed := by
  have htag : Balanced ("tag:\"" ++ e.tag.shown ++ "\"") :=
    Reads.start "tag:\"" rfl |>.quoted he.tag |>.fixed "\"" rfl
  unfold ownEntries
  simp only [List.forall_mem_append, List.forall_mem_map]
  refine ⟨⟨⟨⟨⟨?_, ?_⟩, ?_⟩, ?_⟩, ?_⟩, ?_⟩
  · exact bracketed_textEntry (by decide) (he.codes e.key (by simp [Element.expressions]))
  · exact bracketed_textEntry (by decide) (he.codes e.ref (by simp [Element.expressions]))
  · exact bracketed_switchEntry (by decide) _
  · exact bracketed_switchEntry (by decide) _
  · exact bracketed_switchEntry htag _
  · exact fun m hm => (ho m hm).data he

theorem bracketed_targetEntry (he : e.Bracketed) : ∀ p ∈ targetEntry e, p.Bracketed := by
  unfold targetEntry
  split
  · nofun
  · exact bracketed_textEntry (by decide) (he.codes e.slotTarget (by simp [Element.expressions]))

theorem bracketed_modelEntry {m : ModelBinding} (hm : m.Bracketed) : (modelEntry m).Bracketed := by
  obtain ⟨hvalue, hcallback, hexpression⟩ := hm
  exact bracketed_text (Reads.start "model:\x7bvalue:" rfl |>.code hvalue |>.fixed ",callback:" rfl
    |>.code hcallback |>.fixed ",expression:" rfl |>.code hexpression |>.fixed "\x7d" rfl)

/-! ## Merged objects -/

theorem bracketed_of_bindDynamicAttrs (he : e.Bracketed) {data c : Code} (hd : data.Bracketed)
    (h : bindDynamicAttrs e data = .ok c) : c.Bracketed := by
  unfold bindDynamicAttrs at h
  dsimp only at h
  split at h
  · cases h; exact hd
  · obtain ⟨k, hp, h⟩ := bind_ok h
    cases h
    refine bracketed_callHelper _ (hd.piece ?_ |>.code ?_)
    · exact Reads.start ",\"" rfl |>.quoted he.tag |>.fixed "\"," rfl
    · exact bracketed_of_propsEntries he.bindings.dynamicAttrs hp

theorem bracketed_wrapData {b : ObjectBinding} (hb : b.Bracketed) {data : Code} (hd : data.Bracketed) :
    (b.wrap data).Bracketed := by
  obtain ⟨hhelper, htag, hvalue⟩ := hb
  have hprop : Balanced (if b.asProp then "true" else "false") := by cases b.asProp <;> decide
  have hsync : Balanced (if b.sync then ",true" else "") := by cases b.sync <;> decide
  have hopen : Reads {} (b.helper ++ "(") ⟨.code, [.round]⟩ := Reads.fixed hhelper "(" rfl
  refine (Takes.text hopen).code hd |>.piece ?_
  exact Reads.start ",'" rfl |>.quoted htag |>.fixed "'," rfl |>.code hvalue |>.fixed "," rfl |>.code hprop
    |>.code hsync |>.fixed ")" rfl

theorem bracketed_wrapListeners {l : ObjectListeners} (hl : l.Bracketed) {data : Code} (hd : data.Bracketed) :
    (l.wrap data).Bracketed := by
  obtain ⟨hhelper, hvalue⟩ := hl
  have hopen : Reads {} (l.helper ++ "(") ⟨.code, [.round]⟩ := Reads.fixed hhelper "(" rfl
  refine (Takes.text hopen).code hd |>.piece ?_
  exact Reads.start "," rfl |>.code hvalue |>.fixed ")" rfl

theorem bracketed_mergeObjects (he : e.Bracketed) {data : Code} (hd : data.Bracketed) :
    (mergeObjects e data).Bracketed := by
  have hwrapped : ((e.wrapData.map fun b => b.wrap data).getD data).Bracketed := by
    rcases hb : e.wrapData with _ | b
    · exact hd
    · exact bracketed_wrapData (he.bindings.wrapData b hb) hd
  unfold mergeObjects
  dsimp only
  rcases hl : e.wrapListeners with _ | l
  · exact hwrapped
  · exact bracketed_wrapListeners (he.bindings.wrapListeners l hl) hwrapped

/-! ## Loops, outlets and slots -/

theorem balanced_loopParams (he : e.Bracketed) : Balanced (loopParams e) := by
  have hmore (v : Json) (hv : v.IsCode) : Balanced ((v.filled?.map ("," ++ ·)).getD "") :=
    hv.filledMap fun s hs => Reads.start "," rfl |>.code hs
  have halias : Balanced e.forAlias.shown := he.codes e.forAlias (by simp [Element.expressions])
  refine (halias.append (hmore _ ?_)).append (hmore _ ?_)
  · exact he.codes e.iterator1 (by simp [Element.expressions])
  · exact he.codes e.iterator2 (by simp [Element.expressions])

theorem bracketed_camelAttr {a b : Attr} (ha : a.Bracketed) (h : camelAttr a = .ok b) : b.Bracketed := by
  obtain ⟨hname, hvalue⟩ := ha
  unfold camelAttr at h
  split at h <;> cases h
  next name hn =>
  refine ⟨?_, hvalue⟩
  rw [hn] at hname
  show IsPrinted a.dynamic (camelize name)
  unfold IsPrinted at hname ⊢
  split at hname
  · next hdynamic => rw [if_pos hdynamic]; exact Balanced.camelize hname
  · next hstatic => rw [if_neg hstatic]; exact Quotable.camelize hname

theorem bracketed_of_outletProps (he : e.Bracketed) {props : Option Code} (h : outletProps e = .ok props) :
    ∀ c ∈ props, c.Bracketed := by
  unfold outletProps at h
  split at h
  · obtain ⟨camel, hc, h⟩ := bind_ok h
    obtain ⟨k, hp, h⟩ := bind_ok h
    cases h
    have hattrs := List.forall_mem_append.mpr ⟨he.bindings.attrs, he.bindings.dynamicAttrs⟩
    have hcamel := mapM_ok (fun a ha b => bracketed_camelAttr (hattrs a ha)) hc
    rintro c ⟨⟩
    exact bracketed_of_propsEntries hcamel hp
  · cases h
    nofun

theorem bracketed_outletArguments (he : e.Bracketed) {fallback props : Option Code}
    (hf : ∀ c ∈ fallback, c.Bracketed) (hp : ∀ c ∈ props, c.Bracketed) :
    (outletArguments e fallback props).Bracketed := by
  have hname : Balanced (e.slotName.filled?.getD "\"default\"") :=
    (he.codes e.slotName (by simp [Element.expressions])).filledOr (by decide)
  unfold outletArguments
  refine (bracketed_text hname).code ?_ |>.code ?_ |>.code ?_
  · split
    · next c => exact Takes.start ",function()\x7breturn " rfl |>.code (hf c rfl) |>.fixed "\x7d" rfl
    · split
      · exact Takes.start _ rfl
      · exact bracketed_empty
  · split
    · next p => exact Takes.start "," rfl |>.code (hp p rfl)
    · exact bracketed_empty
  · split
    · next b hb =>
      have hobject : Balanced b := (he.rawValue (by simp [Json.isBound])).of_filled? hb
      have hgap : Balanced (if props.isSome then "" else ",null") := by split <;> decide
      exact bracketed_text (hgap.fixed "," rfl |>.code hobject)
    · exact bracketed_empty

theorem bracketed_slotDescriptor (he : e.Bracketed) {target : Json} (ht : target.IsCode) {body : Code}
    (hb : body.Bracketed) : (slotDescriptor e target body).Bracketed := by
  have hscope : Json.IsCode
      (if e.slotScope.isNull || e.slotScope.isText emptySlotScope then .string "" else e.slotScope) := by
    split
    · decide
    · exact he.codes e.slotScope (by simp [Element.expressions])
  have hkey : Balanced (target.filled?.getD "\"default\"") := ht.filledOr (by decide)
  have hhead : Reads {} _ ⟨.code, [.curly, .curly]⟩ := Reads.start "\x7bkey:" rfl |>.code hkey
    |>.fixed ",fn:function(" rfl |>.code hscope |>.fixed ")\x7breturn " rfl
  have hproxy (scope : Json) : Balanced (if scope.truthy then "" else ",proxy:true") := by split <;> decide
  refine (Takes.text hhead).code hb |>.piece ?_
  exact Reads.start "\x7d" rfl |>.code (hproxy _) |>.fixed "\x7d" rfl

end Generator

/-! ## Children -/

namespace Children

def Bracketed : Children → Prop
  | .none => True
  | .bare loop _ => loop.Bracketed
  | .list items _ => ∀ c ∈ items, c.Bracketed

variable {children : Children}

theorem Bracketed.code? (h : children.Bracketed) : ∀ c ∈ children.code?, c.Bracketed := by
  cases children with
  | none => nofun
  | bare loop level =>
    rintro _ ⟨⟩
    refine Takes.piece h ?_
    rcases level with _ | n
    · exact balanced_empty
    · exact Reads.start "," rfl |>.code (balanced_toString_nat n)
  | list items level =>
    rintro _ ⟨⟩
    have hlevel : Balanced (if level = 0 then "" else "," ++ toString level) := by
      split
      · exact balanced_empty
      · exact Reads.start "," rfl |>.code (balanced_toString_nat level)
    exact Takes.start "[" rfl |>.code (bracketed_join (by decide) h)
      |>.piece (Reads.start "]" rfl |>.code hlevel)

theorem Bracketed.codeOr (h : children.Bracketed) {fallback : String} (hf : Balanced fallback) :
    (children.code?.getD (Code.text fallback)).Bracketed := by
  rcases hc : children.code? with _ | c
  · exact bracketed_text hf
  · exact h.code? c hc

theorem Bracketed.argument (h : children.Bracketed) : children.argument.Bracketed := by
  unfold Children.argument
  rcases hc : children.code? with _ | c
  · exact bracketed_empty
  · exact Takes.start "," rfl |>.code (h.code? c hc)

end Children

end TemplateCompiler
