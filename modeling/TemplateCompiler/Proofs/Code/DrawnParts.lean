import TemplateCompiler.Generator.Element
import TemplateCompiler.Proofs.Code.BracketedParts
import TemplateCompiler.Proofs.Code.Drawn
import TemplateCompiler.Proofs.Tree.Written

/-!
# What is written for an element under every naming

The parts of the code of an element are drawn if its bindings are and its other fields hold values of the template:
the objects of properties and listeners, the arguments of outlets, the descriptors of slots, the entries of a data
object and the list of children. Whether one of them can be written at all does not depend on names either.
-/

namespace TemplateCompiler

variable {V : Json → Prop}

/-! ## Building code -/

namespace Code.Drawn

variable {a b : Naming → Code}

theorem own (lit : String) (h : OwnChars lit.toList) : Drawn V fun _ => Code.text lit :=
  .text (.own lit h)

theorem code (ha : Drawn V a) (hb : Drawn V b) : Drawn V fun I => a I ++ b I :=
  .append ha hb

theorem fixed (ha : Drawn V a) (lit : String) (h : OwnChars lit.toList) : Drawn V fun I => a I ++ Code.text lit :=
  ha.code (own lit h)

theorem piece (ha : Drawn V a) {s : Naming → String} (hs : Text.Drawn V s) :
    Drawn V fun I => a I ++ Code.text (s I) :=
  ha.code (.text hs)

theorem empty : Drawn V fun _ => Code.empty :=
  own _ (by decide)

theorem join {sep : String} (hsep : OwnChars sep.toList) {cs : Naming → List Code} (h : Each (Drawn V) cs) :
    Drawn V fun I => Code.join sep (cs I) := by
  obtain ⟨fs, hfs, rfl⟩ := h
  induction fs with
  | nil => exact empty
  | cons f fs ih =>
    obtain ⟨hf, hfs⟩ := List.forall_mem_cons.mp hfs
    cases fs with
    | nil => exact hf
    | cons f' fs => exact (hf.fixed sep hsep).code (ih hfs)

theorem callHelper (h : Helper) (ha : Drawn V a) : Drawn V fun I => Code.callHelper h (a I) :=
  ((helper h).fixed "(" (by decide)).code ha |>.fixed ")" (by decide)

end Code.Drawn

/-! ## Entries by name -/

namespace KeyedEntries

/-- An entry with the same name under every naming. -/
def EntryDrawn (V : Json → Prop) (e : Naming → String × Code) : Prop :=
  ∃ (name : String) (value : Naming → Code), Text.Drawn V (fun _ => name) ∧ Code.Drawn V value ∧
    e = fun I => (name, value I)

structure Drawn (V : Json → Prop) (k : Naming → KeyedEntries) : Prop where
  fixed : Each (EntryDrawn V) fun I => (k I).fixed
  dynamic : Each (EntryDrawn V) fun I => (k I).dynamic

namespace Drawn

variable {k : Naming → KeyedEntries}

theorem empty : Drawn V fun _ => {} :=
  ⟨.nil, .nil⟩

theorem add (h : Drawn V k) {name : String} (hname : Text.Drawn V fun _ => name) (dynamic : Bool)
    {value : Naming → Code} (hv : Code.Drawn V value) : Drawn V fun I => (k I).add name dynamic (value I) := by
  have hentry : Each (EntryDrawn V) fun I => [(name, value I)] := .singleton ⟨name, value, hname, hv, rfl⟩
  cases dynamic with
  | true => exact ⟨h.fixed, h.dynamic.append hentry⟩
  | false => exact ⟨h.fixed.append hentry, h.dynamic⟩

theorem code (h : Drawn V k) : Code.Drawn V fun I => (k I).code := by
  have hfixed : Code.Drawn V fun I => Code.text "\x7b" ++ Code.join "," ((k I).fixed.map fun e =>
      Code.text ("\"" ++ e.1 ++ "\":") ++ e.2) ++ Code.text "\x7d" := by
    refine (Code.Drawn.own _ (by decide)).code (.join (by decide) (h.fixed.map ?_)) |>.fixed _ (by decide)
    rintro _ ⟨name, value, hname, hvalue, rfl⟩
    exact (Code.Drawn.text (((Text.Drawn.own _ (by decide)).text hname).fixed _ (by decide))).code hvalue
  have hlist : Code.Drawn V fun I => Code.join "," ((k I).dynamic.map fun e => Code.text (e.1 ++ ",") ++ e.2) := by
    refine .join (by decide) (h.dynamic.map ?_)
    rintro _ ⟨name, value, hname, hvalue, rfl⟩
    exact (Code.Drawn.text (hname.fixed _ (by decide))).code hvalue
  obtain ⟨none, hnone⟩ := (Each.isEmpty h.dynamic).exists_eq
  unfold KeyedEntries.code
  simp only [congrFun hnone]
  cases none with
  | true => exact hfixed
  | false => exact .callHelper _ ((hfixed.fixed _ (by decide)).code hlist |>.fixed _ (by decide))

end Drawn

end KeyedEntries

theorem agree_propsEntries {props : Naming → List Attr} (h : Each (Attr.Drawn V) props) :
    Agree (KeyedEntries.Drawn V) fun I => propsEntries (props I) := by
  refine Agree.foldlM h .empty fun a ha k hk => ?_
  obtain ⟨a₀, hname, ⟨s, hs, rfl⟩ | ⟨hvalue, rfl⟩⟩ := ha
  · exact .pure (hk.add hname a₀.dynamic (.text hs.escapeSeparators))
  · rcases hv : a₀.value with _ | _ | _ | _ | s | _ | _
    case string => exact absurd hv (hvalue s)
    all_goals
      simp only [hv]
      exact .error _

/-! ## Listeners -/

namespace Listener

/-- What the table of keys holds is the compiler's own. -/
theorem own_keyAliases : ∀ k ∈ keyAliases,
    OwnChars (oneOrMany (k.codes.map fun c : Nat => .int c)).compact.toList ∧
      OwnChars (oneOrMany (k.names.map .string)).compact.toList := by
  decide +kernel

theorem drawn_of_keyTest {key : Json} (hkey : V key) {c : Code} (h : keyTest key = .ok c) :
    Code.Drawn V fun _ => c := by
  obtain ⟨key, rfl, htest⟩ := keyTest_eq_ok h
  have hliteral {f : KeyAlias → Json} (hf : ∀ k ∈ keyAliases, OwnChars (f k).compact.toList) :
      OwnChars (((keyAlias? key).map fun k => (f k).compact).getD "undefined").toList := by
    rcases hk : keyAlias? key with _ | k
    · exact (by decide : OwnChars "undefined".toList)
    · exact hf k (List.mem_of_find?_eq_some hk)
  have hnamed : Code.Drawn V fun _ => Code.callHelper .checkKeyCodes (Code.text _) :=
    .callHelper _ (.text ((Text.Drawn.own (V := V) "$event.keyCode," (by decide)).offered
      (.quote (.shown hkey)) |>.fixed "," (by decide) |>.fixed _ (hliteral fun k hk => (own_keyAliases k hk).1)
      |>.fixed ",$event.key," (by decide) |>.fixed _ (hliteral fun k hk => (own_keyAliases k hk).2)))
  unfold textKeyTest at htest
  split at htest
  · cases htest; exact hnamed
  · split at htest
    · cases htest
    · cases htest
      split
      · exact hnamed
      · exact .text ((Text.Drawn.own _ (by decide)).fixed _ (.toString_int _))

theorem drawn_guard {condition : Code} (h : Code.Drawn V fun _ => condition) :
    Code.Drawn V fun _ => (Statement.guard condition).code :=
  (Code.Drawn.own _ (by decide)).code h |>.fixed ")return null;" (by decide)

theorem drawn_of_keyFilter {keys : List Json} (hkeys : ∀ k ∈ keys, V k) {s : Statement}
    (h : keyFilter keys = .ok s) : Code.Drawn V fun _ => s.code := by
  obtain ⟨tests, ht, h⟩ := bind_ok h
  cases h
  refine drawn_guard ((Code.Drawn.own _ (by decide)).code (.join (by decide) (.const ?_)))
  exact mapM_ok (fun k hk _ => drawn_of_keyTest (hkeys k hk)) ht

theorem drawn_of_modifierStatement {key : String} {s : Statement} (h : modifierStatement? key = some s) :
    Code.Drawn V fun _ => s.code := by
  unfold modifierStatement? at h
  split at h <;> cases h
  · exact .own _ (by decide)
  · exact .own _ (by decide)
  all_goals exact drawn_guard (.own _ (by decide))

theorem drawn_exactGuard (m : Modifiers) : Code.Drawn V fun _ => (exactGuard m).code := by
  have hkeys : ∀ k ∈ systemKeys, OwnChars ("$event." ++ k ++ "Key").toList := by decide
  refine drawn_guard (.text (Each.intercalate (by decide) (.const fun s hs => ?_)))
  obtain ⟨k, hk, rfl⟩ := List.mem_map.mp hs
  exact .own _ (hkeys k (List.mem_filter.mp hk).1)

theorem drawn_of_statements {m : Modifiers} (hm : ∀ e ∈ m, V e.1) {ss : List Statement}
    (h : statements m = .ok ss) : ∀ s ∈ ss, Code.Drawn V fun _ => s.code := by
  intro s hs
  obtain ⟨keys, hkeys, hs⟩ | ⟨key, hs⟩ := mem_statements h hs
  · refine drawn_of_keyFilter (fun k hk => ?_) hs
    obtain ⟨e, he, rfl⟩ := List.mem_map.mp (hkeys hk)
    exact hm e he
  · obtain ⟨name, -, hs | ⟨-, rfl⟩⟩ := statement?_eq_some hs
    · exact drawn_of_modifierStatement hs
    · exact drawn_exactGuard m

end Listener

theorem agree_handler {h : Naming → Handler} (hh : Handler.Drawn V h) : Agree (Code.Drawn V) fun I => (h I).code := by
  obtain ⟨h₀, hmodifiers, ⟨s, hs, hkind, rfl⟩ | ⟨hvalue, rfl⟩⟩ := hh
  · obtain ⟨path, hpath⟩ := hkind.methodPath.exists_eq
    obtain ⟨function, hfunction⟩ := hkind.functionExpression.exists_eq
    obtain ⟨invocation, hinvocation⟩ := hkind.invocation.exists_eq
    have hreturn : Text.Drawn V fun I => "return " ++ s I := (Text.Drawn.own _ (by decide)).text hs
    unfold Handler.code
    simp only [congrFun hpath, congrFun hfunction, congrFun hinvocation]
    rcases hm : h₀.modifiers with _ | m
    · dsimp only
      split
      · exact .pure (.text hs)
      · refine .pure (.text ((Text.Drawn.own _ (by decide)).text ?_ |>.fixed _ (by decide)))
        split
        · exact hreturn
        · exact hs
    · rw [hm] at hmodifiers
      dsimp only
      refine (Agree.steady (Listener.statements m)).bind ?_
      rintro _ ⟨statements, hstatements, rfl⟩
      have hall := Listener.drawn_of_statements hmodifiers hstatements
      refine .pure ((Code.Drawn.own _ (by decide)).code (.join (by decide) (.const ?_)) |>.piece
        (Text.Drawn.fixed ?_ _ (by decide)))
      · exact List.forall_mem_map.mpr hall
      · split
        · exact hreturn.fixed _ (by decide)
        split
        · exact ((Text.Drawn.own _ (by decide)).text hs).fixed _ (by decide)
        split
        · exact hreturn
        · exact hs
  · unfold Handler.code
    rcases hv : h₀.value with _ | _ | _ | _ | s | _ | _
    case string => exact absurd hv (hvalue s)
    all_goals
      simp only [hv]
      exact .error _

theorem agree_handlersCode {handlers : Naming → List Handler} (h : Each (Handler.Drawn V) handlers) :
    Agree (Code.Drawn V) fun I => handlersCode (handlers I) := by
  have hlist := h
  obtain ⟨hs, hhs, rfl⟩ := h
  rcases hs with _ | ⟨h₁, _ | ⟨h₂, hs⟩⟩
  · exact .pure (.own _ (by decide))
  · exact agree_handler (hhs h₁ (List.mem_singleton_self _))
  · refine (Agree.mapM hlist fun _ => agree_handler).bind fun codes hcodes => ?_
    exact .pure ((Code.Drawn.own _ (by decide)).code (.join (by decide) hcodes) |>.fixed _ (by decide))

theorem agree_eventsCode {events : Naming → Events} (h : Events.Drawn V events) (native : Bool) :
    Agree (Code.Drawn V) fun I => eventsCode (events I) native := by
  have hentries : Agree (KeyedEntries.Drawn V) fun I => eventsEntries (events I) := by
    refine Agree.foldlM h .empty ?_
    rintro _ ⟨name, handlers, hname, hhandlers, rfl⟩ k hk
    have hdynamic : Steady fun I => (handlers I).any (·.dynamic) := by
      refine hhandlers.any ?_
      rintro _ ⟨h₀, -, ⟨_, -, -, rfl⟩ | ⟨-, rfl⟩⟩ <;> exact fun _ _ => rfl
    obtain ⟨dynamic, hdynamic⟩ := hdynamic.exists_eq
    simp only [congrFun hdynamic]
    exact (agree_handlersCode hhandlers).bind fun code hcode => .pure (hk.add hname dynamic hcode)
  refine hentries.bind fun k hk => .pure ((Code.Drawn.own _ ?_).code hk.code)
  cases native <;> decide

/-! ## Fields of an element -/

/-- The fields of an element other than its bindings hold values of the template. -/
structure Element.Written (V : Json → Prop) (e : Element) : Prop where
  tag : V e.tag
  codes : ∀ v ∈ e.expressions, V v
  raw : ∀ a ∈ e.attrsMap, V a.2
  directives : ∀ d ∈ e.directives, ∀ v ∈ d.values, V v

theorem offered_of_filled? {v : Json} (h : V v) {s : String} (hs : v.filled? = some s) : Offered V s :=
  Json.eq_shown_of_filled? hs ▸ .shown h

namespace Text.Drawn

theorem filledOr {v : Json} (h : V v) {fallback : String} (hf : OwnChars fallback.toList) :
    Drawn V fun _ => v.filled?.getD fallback := by
  rcases hv : v.filled? with _ | s
  · exact own _ hf
  · exact given (offered_of_filled? h hv)

theorem filledMap {v : Json} (h : V v) {f : String → String} (hf : ∀ s, Offered V s → Drawn V fun _ => f s) :
    Drawn V fun _ => (v.filled?.map f).getD "" := by
  rcases hv : v.filled? with _ | s
  · exact own "" (by decide)
  · exact hf s (offered_of_filled? h hv)

end Text.Drawn

theorem Element.Written.raw_of_not_isNull {e : Element} (h : e.Written V) {name : String}
    (hv : ¬(e.rawValue name).isNull = true) : V (e.rawValue name) := by
  unfold Element.rawValue at hv ⊢
  rcases hget : Table.get? (.string name) e.attrsMap with _ | v <;> rw [hget] at hv ⊢
  · exact absurd rfl hv
  · exact h.raw _ (Table.mem_of_get? hget)

theorem Element.Written.raw_filled? {e : Element} (h : e.Written V) {name s : String}
    (hs : (e.rawValue name).filled? = some s) : Offered V s := by
  unfold Element.rawValue at hs
  rcases hv : Table.get? (.string name) e.attrsMap with _ | v <;> rw [hv] at hs
  · cases hs
  · exact offered_of_filled? (h.raw _ (Table.mem_of_get? hv)) hs

/-! ## Parts of a data object -/

namespace DataPart

/-- Fragments of a module: nothing, or a text with a comma after it. -/
def IsFragment (V : Json → Prop) (text : String) : Prop :=
  text = "" ∨ ∃ s, Text.Drawn V (fun _ => s) ∧ text = s ++ ","

theorem IsFragment.append {a b : String} (ha : IsFragment V a) (hb : IsFragment V b) : IsFragment V (a ++ b) := by
  rcases ha with rfl | ⟨s, hs, rfl⟩
  · rwa [String.empty_append]
  rcases hb with rfl | ⟨s', hs', rfl⟩
  · rw [String.append_empty]
    exact .inr ⟨s, hs, rfl⟩
  · exact .inr ⟨s ++ "," ++ s', (hs.fixed _ (by decide)).text hs', String.append_assoc.symm⟩

/-- A fragment that is there if a value is given. -/
theorem isFragment_filled {v : Json} (h : V v) {f : String → String}
    (hf : ∀ s, Offered V s → ∃ s', Text.Drawn V (fun _ => s') ∧ f s = s' ++ ",") :
    IsFragment V ((v.filled?.map f).getD "") := by
  rcases hv : v.filled? with _ | s
  · exact .inl rfl
  · exact .inr (hf s (offered_of_filled? h hv))

theorem isFragment_standard {e : Element} (he : e.Written V) :
    ∀ m ∈ CompilerModule.standard, IsFragment V (m.data e) := by
  intro m hm
  simp only [CompilerModule.standard, List.mem_cons, List.not_mem_nil, or_false] at hm
  rcases hm with rfl | rfl
  · refine .append (isFragment_filled (he.codes _ (by simp [Element.expressions])) fun s hs => ?_)
      (isFragment_filled (he.codes _ (by simp [Element.expressions])) fun s hs => ?_)
    · exact ⟨_, (Text.Drawn.own "staticClass:" (by decide)).offered hs, rfl⟩
    · exact ⟨_, (Text.Drawn.own "class:" (by decide)).offered hs, rfl⟩
  · refine .append (isFragment_filled (he.codes _ (by simp [Element.expressions])) fun s hs => ?_)
      (isFragment_filled (he.codes _ (by simp [Element.expressions])) fun s hs => ?_)
    · exact ⟨_, (Text.Drawn.own "staticStyle:" (by decide)).offered hs, rfl⟩
    · refine ⟨_, (Text.Drawn.own "style:(" (by decide)).offered hs |>.fixed ")" (by decide), ?_⟩
      show "style:(" ++ s ++ (")" ++ ",") = "style:(" ++ s ++ ")" ++ ","
      exact String.append_assoc.symm

/-- Parts that are built alike under every naming. -/
inductive Drawn (V : Json → Prop) : (Naming → DataPart) → Prop
  | entry {c : Naming → Code} (h : Code.Drawn V c) : Drawn V fun I => .entry (c I)
  | fragments {text : String} (h : IsFragment V text) : Drawn V fun _ => .fragments text

namespace Drawn

variable {p : Naming → DataPart}

theorem isBlank (h : Drawn V p) : Steady fun I => (p I).isBlank := by
  cases h <;> exact fun _ _ => rfl

theorem followed (h : Drawn V p) : Code.Drawn V fun I => (p I).followed := by
  cases h with
  | entry h => exact h.fixed _ (by decide)
  | fragments h =>
    rcases h with rfl | ⟨s, hs, rfl⟩
    · exact .own _ (by decide)
    · exact .text (hs.fixed _ (by decide))

theorem last (h : Drawn V p) : Code.Drawn V fun I => (p I).last := by
  cases h with
  | entry h => exact h
  | fragments h =>
    rcases h with rfl | ⟨s, hs, rfl⟩
    · exact .own _ (by decide)
    · have hcomma : dropComma (s ++ ",") = s := by
        unfold dropComma
        simp
      show Code.Drawn V fun _ => Code.text (dropComma (s ++ ","))
      rw [hcomma]
      exact .text hs

theorem join {parts : Naming → List DataPart} (h : Each (Drawn V) parts) :
    Code.Drawn V fun I => DataPart.join (parts I) := by
  obtain ⟨ps, hps, rfl⟩ := h
  induction ps with
  | nil => exact .empty
  | cons p ps ih =>
    obtain ⟨hp, hps⟩ := List.forall_mem_cons.mp hps
    have hblank : Steady fun I => (ps.map (· I)).all DataPart.isBlank := by
      intro I J
      rw [Bool.eq_iff_iff]
      simp only [List.all_map, Function.comp_def, List.all_eq_true]
      exact forall₂_congr fun q hq => Bool.eq_iff_iff.mp ((hps q hq).isBlank I J)
    obtain ⟨blank, hblank⟩ := hblank.exists_eq
    simp only [List.map_cons, DataPart.join, congrFun hblank]
    split
    · exact hp.last
    · exact hp.followed.code (ih hps)

end Drawn

end DataPart

namespace Generator

open DataPart (Drawn)

variable {e : Element}

theorem drawn_directiveEntry {d : Directive} (hd : ∀ v ∈ d.values, V v) :
    Text.Drawn V fun _ => directiveEntry d := by
  have hvalue : V d.value := hd _ (by simp [Directive.values])
  have hname : Text.Drawn V fun _ => "\x7bname:\"" ++ d.name ++ "\",rawName:\"" ++ d.rawName.shown ++ "\"" :=
    (Text.Drawn.own _ (by decide)).offered (.shown (hd (.string d.name) (by simp [Directive.values])))
      |>.fixed _ (by decide) |>.offered (.shown (hd d.rawName (by simp [Directive.values]))) |>.fixed _ (by decide)
  refine hname.text (.filledMap hvalue fun s hs => ?_) |>.text
    (.filledMap (hd d.arg (by simp [Directive.values])) fun s hs => ?_) |>.text ?_ |>.fixed _ (by decide)
  · exact (Text.Drawn.own _ (by decide)).offered hs |>.fixed _ (by decide) |>.offered (.compact hvalue)
  · refine (Text.Drawn.own _ (by decide)).text ?_
    split
    · exact .given hs
    · exact (Text.Drawn.own _ (by decide)).offered hs |>.fixed _ (by decide)
  · rcases hm : d.modifiers with _ | m
    · exact .own "" (by decide)
    · exact (Text.Drawn.own _ (by decide)).offered (.compact (hd m.object (by simp [Directive.values, hm])))

theorem drawn_directivesEntry {kept : List Directive} (h : ∀ d ∈ kept, ∀ v ∈ d.values, V v) :
    Each (Drawn V) fun _ => directivesEntry kept := by
  unfold directivesEntry
  split
  · exact .nil
  · refine .singleton (.entry (.text ((Text.Drawn.own _ (by decide)).text (Each.intercalate (by decide) (.const ?_))
      |>.fixed _ (by decide))))
    exact List.forall_mem_map.mpr fun d hd => drawn_directiveEntry (h d hd)

theorem drawn_textEntry {key : String} (hk : OwnChars key.toList) {value : Json} (hv : V value) :
    Each (Drawn V) fun _ => textEntry key value := by
  unfold textEntry
  split
  · next v hfilled => exact .singleton (.entry (.text ((Text.Drawn.own _ hk).offered (offered_of_filled? hv hfilled))))
  · exact .nil

theorem drawn_switchEntry {code : String} (hc : Text.Drawn V fun _ => code) (on : Bool) :
    Each (Drawn V) fun _ => switchEntry code on := by
  unfold switchEntry
  split
  · exact .singleton (.entry (.text hc))
  · exact .nil

theorem drawn_ownEntries {o : Options} (ho : o.modules = CompilerModule.standard) (he : e.Written V)
    (verbatim : Bool) : Each (Drawn V) fun _ => ownEntries o e verbatim := by
  have htag : Text.Drawn V fun _ => "tag:\"" ++ e.tag.shown ++ "\"" :=
    (Text.Drawn.own _ (by decide)).offered (.shown he.tag) |>.fixed _ (by decide)
  unfold ownEntries
  refine (Each.append ?_ ?_).append ?_ |>.append ?_ |>.append ?_ |>.append ?_
  · exact drawn_textEntry (by decide) (he.codes e.key (by simp [Element.expressions]))
  · exact drawn_textEntry (by decide) (he.codes e.ref (by simp [Element.expressions]))
  · exact drawn_switchEntry (.own _ (by decide)) _
  · exact drawn_switchEntry (.own _ (by decide)) _
  · exact drawn_switchEntry htag _
  · rw [ho]
    exact .const (List.forall_mem_map.mpr fun m hm => .fragments (DataPart.isFragment_standard he m hm))

theorem drawn_targetEntry (he : e.Written V) : Each (Drawn V) fun _ => targetEntry e := by
  unfold targetEntry
  split
  · exact .nil
  · exact drawn_textEntry (by decide) (he.codes e.slotTarget (by simp [Element.expressions]))

theorem drawn_modelEntry {m : Naming → ModelBinding} (hm : ModelBinding.Drawn V m) :
    Drawn V fun I => modelEntry (m I) :=
  .entry (.text ((Text.Drawn.own _ (by decide)).text hm.value |>.fixed _ (by decide) |>.text hm.callback
    |>.fixed _ (by decide) |>.text hm.expression |>.fixed _ (by decide)))

/-! ## Merged objects -/

theorem drawn_wrapData {b : Naming → ObjectBinding} (hb : ObjectBinding.Drawn V b) {data : Naming → Code}
    (hd : Code.Drawn V data) : Code.Drawn V fun I => (b I).wrap (data I) := by
  obtain ⟨b₀, helper, htag, hvalue, hhelper, rfl⟩ := hb
  have hprop : OwnChars (if b₀.asProp then "true" else "false").toList := by cases b₀.asProp <;> decide
  have hsync : OwnChars (if b₀.sync then ",true" else "").toList := by cases b₀.sync <;> decide
  refine (Code.Drawn.text (hhelper.fixed "(" (by decide))).code hd |>.piece ?_
  exact (Text.Drawn.own _ (by decide)).offered (.shown htag) |>.fixed _ (by decide) |>.offered (.shown hvalue)
    |>.fixed _ (by decide) |>.fixed _ hprop |>.fixed _ hsync |>.fixed _ (by decide)

theorem drawn_wrapListeners {l : Naming → ObjectListeners} (hl : ObjectListeners.Drawn V l) {data : Naming → Code}
    (hd : Code.Drawn V data) : Code.Drawn V fun I => (l I).wrap (data I) := by
  obtain ⟨value, helper, hvalue, hhelper, rfl⟩ := hl
  refine (Code.Drawn.text (hhelper.fixed "(" (by decide))).code hd |>.piece ?_
  exact (Text.Drawn.own _ (by decide)).offered (.shown hvalue) |>.fixed _ (by decide)

theorem drawn_mergeObjects {b : Naming → Bindings} (hb : Bindings.Drawn V b) {data : Naming → Code}
    (hd : Code.Drawn V data) : Code.Drawn V fun I => mergeObjects (e.rebind (b I)) (data I) := by
  have hwrapped : Code.Drawn V fun I => ((b I).wrapData.map fun w => w.wrap (data I)).getD (data I) := by
    rcases hb.wrapData with hnone | ⟨w, hw, hsome⟩
    · simp only [congrFun hnone]
      exact hd
    · simp only [congrFun hsome]
      exact drawn_wrapData hw hd
  unfold mergeObjects
  simp only [Element.toBindings_rebind]
  rcases hb.wrapListeners with hnone | ⟨l, hl, hsome⟩
  · simp only [congrFun hnone]
    exact hwrapped
  · simp only [congrFun hsome]
    exact drawn_wrapListeners hl hwrapped

/-- Attributes as they were written. -/
theorem each_attrs {attrs : List Attr} (h : ∀ a ∈ attrs, V a.name ∧ V a.value) :
    Each (Attr.Drawn V) fun _ => attrs :=
  .const fun a ha => Attr.drawn_const (.shown (h a ha).1) (h a ha).2

theorem agree_bindDynamicAttrs (he : e.Written V) {b : Naming → Bindings} (hb : Bindings.Drawn V b)
    {data : Naming → Code} (hd : Code.Drawn V data) :
    Agree (Code.Drawn V) fun I => bindDynamicAttrs (e.rebind (b I)) (data I) := by
  obtain ⟨dynamic, hdynamic⟩ := hb.dynamicAttrs.exists_eq
  have hattrs : ∀ a ∈ dynamic.getD [], V a.name ∧ V a.value := fun a ha =>
    hb.written default a (List.mem_append_right _ (by rwa [congrFun hdynamic default]))
  unfold bindDynamicAttrs
  simp only [Element.toBindings_rebind, congrFun hdynamic]
  split
  · exact .pure hd
  · refine (agree_propsEntries (each_attrs hattrs)).bind fun k hk => .pure (.callHelper _ ?_)
    refine (hd.piece ?_).code hk.code
    exact (Text.Drawn.own _ (by decide)).offered (.shown he.tag) |>.fixed _ (by decide)

/-! ## Loops, outlets and slots -/

theorem drawn_loopParams (he : e.Written V) : Text.Drawn V fun _ => loopParams e := by
  have hmore {v : Json} (hv : V v) : Text.Drawn V fun _ => (v.filled?.map ("," ++ ·)).getD "" :=
    .filledMap hv fun _ hs => (Text.Drawn.own _ (by decide)).offered hs
  refine ((Text.Drawn.shown (he.codes e.forAlias (by simp [Element.expressions]))).text (hmore ?_)).text (hmore ?_)
  · exact he.codes e.iterator1 (by simp [Element.expressions])
  · exact he.codes e.iterator2 (by simp [Element.expressions])

/-- An outlet hands out attributes as they were written, under other names. -/
theorem agree_outletProps {b : Naming → Bindings} (hb : Bindings.Drawn V b) :
    Agree (Maybe (Code.Drawn V)) fun I => outletProps (e.rebind (b I)) := by
  obtain ⟨attrs, hattrs⟩ := hb.attrs.exists_eq
  obtain ⟨dynamic, hdynamic⟩ := hb.dynamicAttrs.exists_eq
  have hwritten : ∀ a ∈ attrs.getD [] ++ dynamic.getD [], V a.name ∧ V a.value := fun a ha =>
    hb.written default a (by rwa [congrFun hattrs default, congrFun hdynamic default])
  have hcamel (a : Attr) (ha : V a.name ∧ V a.value) : Agree (Attr.Drawn V) fun _ => camelAttr a := by
    unfold camelAttr
    split
    · next name hname =>
      rw [hname] at ha
      exact .pure (Attr.drawn_const (.given (.camelize (.shown ha.1))) ha.2)
    · exact .error _
  unfold outletProps
  simp only [Element.toBindings_rebind, congrFun hattrs, congrFun hdynamic]
  split
  · have hlist : Each (fun f => ∃ a : Attr, (V a.name ∧ V a.value) ∧ f = fun _ => a)
        fun _ => attrs.getD [] ++ dynamic.getD [] := .const fun a ha => ⟨a, hwritten a ha, rfl⟩
    refine (Agree.mapM (Q := Attr.Drawn V) hlist ?_).bind fun camel hall => ?_
    · rintro _ ⟨a, ha, rfl⟩
      exact hcamel a ha
    · exact (agree_propsEntries hall).bind fun k hk => .pure (.inr ⟨_, hk.code, rfl⟩)
  · exact .pure (.inl rfl)

theorem drawn_outletArguments (he : e.Written V) {fallback props : Naming → Option Code}
    (hf : Maybe (Code.Drawn V) fallback) (hp : Maybe (Code.Drawn V) props) :
    Code.Drawn V fun I => outletArguments e (fallback I) (props I) := by
  have hnull (on : Bool) : Code.Drawn V fun _ => if on then Code.text ",null" else Code.empty := by
    cases on with
    | true => exact .own _ (by decide)
    | false => exact .empty
  have hobject {b : String} (hb : (e.rawValue "v-bind").filled? = some b) (given : Bool) :
      Code.Drawn V fun _ => Code.text ((if given then "" else ",null") ++ "," ++ b) := by
    have hskip : OwnChars (if given then "" else ",null").toList := by cases given <;> decide
    exact .text (((Text.Drawn.own _ hskip).fixed _ (by decide)).offered (he.raw_filled? hb))
  have hname : Code.Drawn V fun _ => Code.text (e.slotName.filled?.getD "\"default\"") :=
    .text (.filledOr (he.codes e.slotName (by simp [Element.expressions])) (by decide))
  unfold outletArguments
  refine ((hname.code ?_).code ?_).code ?_
  · rcases hf with rfl | ⟨c, hc, rfl⟩
    · rcases hp with rfl | ⟨p, -, rfl⟩ <;> exact hnull _
    · exact ((Code.Drawn.own ",function()\x7breturn " (by decide)).code hc).fixed "\x7d" (by decide)
  · rcases hp with rfl | ⟨p, hp, rfl⟩
    · exact .empty
    · exact (Code.Drawn.own "," (by decide)).code hp
  · rcases hb : (e.rawValue "v-bind").filled? with _ | b
    · exact .empty
    · rcases hp with rfl | ⟨p, -, rfl⟩
      · exact hobject hb false
      · exact hobject hb true

theorem drawn_slotDescriptor (he : e.Written V) {target : Json} (ht : V target) {body : Naming → Code}
    (hb : Code.Drawn V body) : Code.Drawn V fun I => slotDescriptor e target (body I) := by
  have hscope : Text.Drawn V fun _ => Json.shown
      (if e.slotScope.isNull || e.slotScope.isText emptySlotScope then .string "" else e.slotScope) := by
    split
    · exact .own "" (by decide)
    · exact .shown (he.codes e.slotScope (by simp [Element.expressions]))
  have hproxy (on : Bool) : OwnChars (if on then "" else ",proxy:true").toList := by cases on <;> decide
  refine (Code.Drawn.text ?_).code hb |>.piece ?_
  · exact (Text.Drawn.own _ (by decide)).text (.filledOr ht (by decide)) |>.fixed _ (by decide) |>.text hscope
      |>.fixed _ (by decide)
  · exact ((Text.Drawn.own _ (by decide)).fixed _ (hproxy _)).fixed _ (by decide)

end Generator

/-! ## Children -/

namespace Children

/-- Children that are listed alike under every naming. -/
inductive Drawn (V : Json → Prop) : (Naming → Children) → Prop
  | none : Drawn V fun _ => .none
  | bare {loop : Naming → Code} (h : Code.Drawn V loop) (level : Option Nat) : Drawn V fun I => .bare (loop I) level
  | list {items : Naming → List Code} (h : Each (Code.Drawn V) items) (level : Nat) :
      Drawn V fun I => .list (items I) level

namespace Drawn

variable {c : Naming → Children}

theorem code? (h : Drawn V c) : Maybe (Code.Drawn V) fun I => (c I).code? := by
  have hlevel (n : Nat) : Text.Drawn V fun _ => "," ++ toString n :=
    (Text.Drawn.own _ (by decide)).fixed _ (.toString_nat n)
  cases h with
  | none => exact .inl rfl
  | bare h level =>
    refine .inr ⟨_, h.piece ?_, rfl⟩
    cases level with
    | none => exact .own "" (by decide)
    | some n => exact hlevel n
  | list h level =>
    refine .inr ⟨_, (Code.Drawn.own _ (by decide)).code (.join (by decide) h) |>.piece ?_, rfl⟩
    refine (Text.Drawn.own _ (by decide)).text ?_
    split
    · exact .own "" (by decide)
    · exact hlevel level

theorem codeOr (h : Drawn V c) (lit : String) (hlit : OwnChars lit.toList) :
    Code.Drawn V fun I => (c I).code?.getD (Code.text lit) := by
  rcases h.code? with hnone | ⟨code, hcode, hsome⟩
  · simp only [congrFun hnone]
    exact .own _ hlit
  · simp only [congrFun hsome]
    exact hcode

theorem argument (h : Drawn V c) : Code.Drawn V fun I => (c I).argument := by
  unfold Children.argument
  rcases h.code? with hnone | ⟨code, hcode, hsome⟩
  · simp only [congrFun hnone]
    exact .empty
  · simp only [congrFun hsome]
    exact (Code.Drawn.own _ (by decide)).code hcode

end Drawn

end Children

theorem Generator.drawn_slotContent {e : Element} (he : e.Written V) (i : Nat) (legacy : Bool)
    {children : Naming → Children} (h : Children.Drawn V children) :
    Code.Drawn V fun I => slotContent i e legacy (children I) := by
  have hcontent := h.codeOr "undefined" (by decide)
  unfold slotContent
  dsimp only
  split
  · next test htest =>
    split
    · refine .branch i (.given ?_) hcontent (.own _ (by decide))
      exact offered_of_filled? (he.codes e.ifExpr (by simp [Element.expressions])) htest
    · exact hcontent
  · exact hcontent

end TemplateCompiler
