import TemplateCompiler.Plugin.Standard
import TemplateCompiler.Proofs.Code.DrawnParts

/-!
# The standard directives under every naming

A standard directive writes names of helpers into the bindings of an element. Run under every naming, from an element
whose bindings are drawn, it leaves drawn bindings again and replies the same (`drawn_standard`).

The listener of a two-way binding assigns to the target, so its text may begin with a name or with the template's own
text. What tells its kind apart stands right after it: `Text.Ready` texts are of the same kind under every naming.
-/

namespace TemplateCompiler

open Text Cell

variable {V : Json → Prop}

/-! ## Texts of listeners -/

/-- The text of a listener: its kind is settled before a name could decide it. -/
def Text.Ready (V : Json → Prop) (s : Naming → String) : Prop :=
  ∃ st : Stencil, st.Sound V ∧ Settled st.cells ∧ ∀ I, s I = st.fill I.names

namespace Text.Ready

variable {s s' : Naming → String}

theorem own (lit : String) (h : OwnChars lit.toList) (hc : lit.toList.any (Settles ·) = true) :
    Ready V fun _ => lit := by
  refine ⟨[.own lit], List.forall_mem_singleton.mpr h, ?_, fun _ => String.append_empty.symm⟩
  exact (Settled.of_any hc).append []

theorem offered {text : String} (ht : Offered V text) (lit : String) (h : OwnChars lit.toList)
    (hc : lit.toList.any (Settles ·) = true) : Ready V fun _ => text ++ lit := by
  refine ⟨[.given text, .own lit], by simp [Stencil.Sound, Part.Sound, ht, h], ?_, fun _ => by simp [Part.fill]⟩
  have hcells : Stencil.cells [.given text, .own lit] = (text.toList ++ lit.toList).map char := by
    simp [Stencil.cells, Part.cells]
  rw [hcells]
  exact .of_any (by rw [List.any_append, hc, Bool.or_true])

theorem call (k : Helper) (lit : String) (h : OwnChars lit.toList) (hopen : lit.toList.head? = some '(') :
    Ready V fun I => I k ++ lit := by
  obtain ⟨rest, hrest⟩ := List.head?_eq_some_iff.mp hopen
  refine ⟨[.hole k, .own lit], by simp [Stencil.Sound, Part.Sound, h], .inr ⟨k, rest.map char, ?_⟩,
    fun _ => by simp [Part.fill]⟩
  simp [Stencil.cells, Part.cells, hrest]

theorem text (h : Ready V s) (h' : Drawn V s') : Ready V fun I => s I ++ s' I := by
  obtain ⟨a, ha, hsettled, hs⟩ := h
  obtain ⟨b, hb, hs'⟩ := h'
  refine ⟨a ++ b, ha.append hb, ?_, fun I => ?_⟩
  · rw [Stencil.cells, List.flatMap_append]
    exact hsettled.append _
  · show s I ++ s' I = _
    rw [hs, hs', Stencil.fill_append]

theorem fixed (h : Ready V s) (lit : String) (hlit : OwnChars lit.toList) : Ready V fun I => s I ++ lit :=
  h.text (.own lit hlit)

theorem drawn (h : Ready V s) : Drawn V s := by
  obtain ⟨st, hst, -, hs⟩ := h
  exact ⟨st, hst, hs⟩

theorem classified (h : Ready V s) : Classified fun I => Text.trim (s I) := by
  obtain ⟨st, -, hsettled, hs⟩ := h
  simp only [hs]
  exact TemplateCompiler.classified hsettled

end Text.Ready

/-! ## Assignments -/

namespace ModelPath

/-- Object and key of a path are parts of the target, apart from the quotes around a member's name. -/
theorem offered_splitAtPoint {cs : List Char} (h : ∀ part, part <:+: cs → Offered V (String.ofList part)) :
    Offered V (splitAtPoint cs).object ∧ ∀ key ∈ (splitAtPoint cs).key, Text.Drawn V fun _ => key := by
  unfold splitAtPoint
  split
  · next last point rest hspan =>
    rw [List.span_eq_takeWhile_dropWhile, Prod.mk.injEq] at hspan
    have hcs : cs = rest.reverse ++ point :: last.reverse := by
      rw [← List.reverse_reverse cs, ← List.takeWhile_append_dropWhile (p := (· != '.')) (l := cs.reverse), hspan.1,
        hspan.2]
      simp
    have hlast : last.reverse <:+: cs := ⟨rest.reverse ++ [point], [], by simp [hcs]⟩
    refine ⟨h _ ⟨[], point :: last.reverse, by simp [hcs]⟩, ?_⟩
    intro key hmem
    obtain rfl := Option.mem_some_iff.mp hmem
    have hkey : String.ofList ('"' :: last.reverse ++ ['"']) = "\"" ++ String.ofList last.reverse ++ "\"" := by
      apply String.toList_injective
      simp
    rw [hkey]
    exact ((Text.Drawn.own _ (by decide)).offered (h _ hlast)).fixed _ (by decide)
  · exact ⟨h cs (List.infix_refl cs), nofun⟩

theorem offered_parse {target : String} (ht : Offered V target) :
    Offered V (parse target).object ∧ ∀ key ∈ (parse target).key, Text.Drawn V fun _ => key := by
  have htrim : trimChars target.toList <:+: target.toList :=
    ( List.rdropWhile_prefix _ _).isInfix.trans (List.dropWhile_suffix _).isInfix
  have hpart {part : List Char} (h : part <:+: trimChars target.toList) : Offered V (String.ofList part) :=
    ht.part (h.trans htrim)
  unfold parse
  dsimp only
  split
  · refine ⟨hpart ( List.take_prefix _ _).isInfix, ?_⟩
    intro key hmem
    obtain rfl := Option.mem_some_iff.mp hmem
    exact .given (hpart ((List.drop_suffix _ _).isInfix.trans ( List.take_prefix _ _).isInfix))
  · exact offered_splitAtPoint fun _ => hpart

/-- The code that assigns to a target begins with the target or calls a helper. -/
theorem ready_assignment {target : String} (ht : Offered V target) {value : Naming → String} (hv : Text.Drawn V value) :
    Ready V fun I => assignment I.names target (value I) := by
  obtain ⟨hobject, hkey⟩ := offered_parse ht
  unfold assignment
  dsimp only
  rcases hpath : (parse target).key with _ | key
  · exact (Ready.offered ht "=" (by decide) (by decide)).text hv
  · exact (Ready.call .set "(" (by decide) rfl).text (.given hobject) |>.fixed _ (by decide) |>.text (hkey key hpath)
      |>.fixed _ (by decide) |>.text hv |>.fixed _ (by decide)

end ModelPath

/-! ## Adding bindings -/

theorem Table.get?_map {κ α β : Type} [DecidableEq κ] {key : κ} {f : α → β} (t : Table κ α) :
    get? key (t.map fun e => (e.1, f e.2)) = (get? key t).map f := by
  induction t with
  | nil => rfl
  | cons e t ih =>
    simp only [List.map_cons, get?, ih]
    split <;> rfl

namespace Events.Drawn

variable {events : Naming → Events} {name : String}

theorem put (h : Events.Drawn V events) (hname : Text.Drawn V fun _ => name) {handlers : Naming → List Handler}
    (hh : Each (Handler.Drawn V) handlers) : Events.Drawn V fun I => Table.put name (handlers I) (events I) := by
  obtain ⟨es, hes, rfl⟩ := h
  have hnew : EntryDrawn V fun I => (name, handlers I) := ⟨name, handlers, hname, hh, rfl⟩
  induction es with
  | nil => exact .singleton hnew
  | cons e es ih =>
    obtain ⟨⟨name', handlers', hname', hh', rfl⟩, hrest⟩ := List.forall_mem_cons.mp hes
    simp only [List.map_cons, Table.put]
    by_cases hn : name' = name
    · subst hn
      simp only [if_pos]
      exact Each.cons hnew ⟨es, hrest, rfl⟩
    · simp only [if_neg hn]
      exact (ih hrest).cons ⟨name', handlers', hname', hh', rfl⟩

theorem handlers (h : Events.Drawn V events) (name : String) :
    Each (Handler.Drawn V) fun I => (Table.get? name (events I)).getD [] := by
  obtain ⟨es, hes, rfl⟩ := h
  induction es with
  | nil => exact .nil
  | cons e es ih =>
    obtain ⟨⟨name', handlers', -, hh', rfl⟩, hrest⟩ := List.forall_mem_cons.mp hes
    simp only [List.map_cons, Table.get?]
    by_cases hn : name' = name
    · simp only [if_pos hn]
      exact hh'
    · simp only [if_neg hn]
      exact ih hrest

theorem add (h : Events.Drawn V events) (hname : Text.Drawn V fun _ => name) {handler : Naming → Handler}
    (hh : Handler.Drawn V handler) (important : Bool) :
    Events.Drawn V fun I => (events I).add name (handler I) important := by
  refine h.put hname ?_
  cases important with
  | true => exact (h.handlers name).cons hh
  | false => exact (h.handlers name).append (.singleton hh)

end Events.Drawn

/-- The element `e₀` with drawn bindings in place of its own. -/
def Element.Drawn (V : Json → Prop) (e₀ : Element) (e : Naming → Element) : Prop :=
  ∃ b, Bindings.Drawn V b ∧ e = fun I => e₀.rebind (b I)

namespace Element.Drawn

variable {e₀ : Element} {e : Naming → Element}

theorem addProp (h : Element.Drawn V e₀ e) {name : String} (hname : Text.Drawn V fun _ => name) (span : Span)
    {value : Naming → String} (hv : Text.Drawn V value) :
    Element.Drawn V e₀ fun I => (e I).addProp { name := name, value := value I, span } := by
  obtain ⟨b, hb, rfl⟩ := h
  have hattr : Attr.Drawn V fun I => { name := name, value := value I, span } :=
    ⟨{ name := name, value := "", span }, hname, .inl ⟨value, hv, rfl⟩⟩
  exact ⟨fun I => { b I with props := (b I).props ++ [_], plain := .bool false },
    { hb with props := hb.props.append (.singleton hattr), plain := fun _ _ => rfl }, rfl⟩

/-- A listener without modifiers goes to the events under its own name. -/
theorem addHandler (h : Element.Drawn V e₀ e) {name : String} (hname : Text.Drawn V fun _ => name) (important : Bool)
    (helper : Naming → String) {code : Naming → String} (hc : Ready V code) : Element.Drawn V e₀ fun I =>
      (e I).addHandler { name, value := code I, important, prependHelper := helper I } := by
  obtain ⟨b, hb, rfl⟩ := h
  have hhandler : Handler.Drawn V fun I => { value := .string (Text.trim (code I)) } :=
    ⟨{ value := .null }, nofun, .inl ⟨_, hc.drawn.trim, hc.classified, rfl⟩⟩
  exact ⟨fun I => { b I with events := (b I).events.add name _ important, plain := .bool false },
    { hb with events := hb.events.add hname hhandler important, plain := fun _ _ => rfl }, rfl⟩

end Element.Drawn

/-- Taking an attribute reads no binding and changes only the list of attributes. -/
theorem exists_takeAttr (e : Element) (name : String) : ∃ f : List Attr → List Attr, ∀ b : Bindings,
    (e.rebind b).takeAttr name false = (e.rawValue name, e.rebind { b with attrsList := f b.attrsList }) := by
  unfold Element.takeAttr
  by_cases hnull : (e.rawValue name).isNull = true
  · refine ⟨id, fun b => ?_⟩
    show (e.rawValue name, if (e.rawValue name).isNull then e.rebind b else _) = _
    rw [if_pos hnull]
    rfl
  · refine ⟨fun l => l.eraseP (·.name.isText name), fun b => ?_⟩
    show (e.rawValue name, if (e.rawValue name).isNull then e.rebind b else _) = _
    rw [if_neg hnull]
    rfl

/-- So does taking a binding; what is taken is offered by the template. -/
theorem exists_takeBinding {e : Element} (he : e.Written V) (name : String) : ∃ (v : Json) (f : List Attr → List Attr),
    (∀ s, v.filled? = some s → Offered V s) ∧ ∀ b : Bindings,
      (e.rebind b).takeBinding name true = (v, e.rebind { b with attrsList := f b.attrsList }) := by
  obtain ⟨short, hshort⟩ := exists_takeAttr e (":" ++ name)
  obtain ⟨long, hlong⟩ := exists_takeAttr e ("v-bind:" ++ name)
  obtain ⟨own, hown⟩ := exists_takeAttr e name
  have hliteral : ∀ s, (if (e.rawValue name).isNull then Json.null else .string (e.rawValue name).spaced).filled? =
      some s → Offered V s := by
    intro s hs
    split at hs
    · cases hs
    · next hnull => exact Json.eq_shown_of_filled? hs ▸ .spaced (he.raw_of_not_isNull hnull)
  unfold Element.takeBinding
  simp only [hshort]
  by_cases htruthy : (e.rawValue (":" ++ name)).truthy = true
  · simp only [if_pos htruthy]
    by_cases hnull : (e.rawValue (":" ++ name)).isNull = true
    · simp only [hnull, hown]
      exact ⟨_, fun l => own (short l), hliteral, fun _ => rfl⟩
    · simp only [hnull]
      exact ⟨_, short, fun _ => he.raw_filled?, fun _ => rfl⟩
  · simp only [if_neg htruthy, hlong]
    by_cases hnull : (e.rawValue ("v-bind:" ++ name)).isNull = true
    · simp only [hnull, hown]
      exact ⟨_, fun l => own (long (short l)), hliteral, fun _ => rfl⟩
    · simp only [hnull]
      exact ⟨_, fun l => long (short l), fun _ => he.raw_filled?, fun _ => rfl⟩

/-! ## Two-way bindings -/

namespace Model

variable {e₀ : Element} {u : Use}

theorem uniform_assign (hu : Offered V u.text) {value : Naming → String} (hv : Text.Drawn V value) :
    Uniform (Element.Drawn V e₀) (fun I => u.assign I.names (value I)) (Ready V) := by
  unfold Use.assign
  split
  · next target ht =>
    rw [Use.text, ht] at hu
    exact .pure (ModelPath.ready_assignment hu hv)
  · exact .throw _

theorem drawn_number (u : Use) {code : Naming → String} (hc : Text.Drawn V code) :
    Text.Drawn V fun I => u.number I.names (code I) := by
  unfold Use.number
  split
  · exact (Text.Drawn.hole .toNumber).fixed _ (by decide) |>.text hc |>.fixed _ (by decide)
  · exact hc

theorem uniform_listen {event : String} (he : OwnChars event.toList) {code : Naming → String} (hc : Ready V code) :
    Uniform (Element.Drawn V e₀) (fun I => listen I.names event (code I)) fun _ => True :=
  .modify fun _ h => h.addHandler (.own _ he) true _ hc

theorem uniform_setProp {name : String} (hn : OwnChars name.toList) {value : Naming → String}
    (hv : Text.Drawn V value) : Uniform (Element.Drawn V e₀) (fun I => setProp name (value I)) fun _ => True :=
  .modify fun _ h => h.addProp (.own _ hn) {} hv

theorem uniform_bindingOr (he : e₀.Written V) (name : String) {fallback : String} (hf : OwnChars fallback.toList) :
    Uniform (Element.Drawn V e₀) (fun _ => bindingOr name fallback)
      fun s => ∃ value, Text.Drawn V (fun _ => value) ∧ s = fun _ => value := by
  obtain ⟨v, f, hv, htake⟩ := exists_takeBinding he name
  rintro _ ⟨b, hb, rfl⟩
  have hrun (I : Naming) : ((bindingOr name fallback).run.run (e₀.rebind (b I))) =
      (.ok (v.filled?.getD fallback), e₀.rebind { b I with attrsList := f (b I).attrsList }) := by
    show (Except.ok (((e₀.rebind (b I)).takeBinding name true).1.filled?.getD fallback),
      ((e₀.rebind (b I)).takeBinding name true).2) = _
    rw [htake]
  simp only [hrun]
  refine ⟨⟨fun I => { b I with attrsList := f (b I).attrsList },
    { hb with attrsList := fun I J => congrArg f (hb.attrsList I J) }, rfl⟩, .pure ⟨_, ?_, rfl⟩⟩
  rcases hfilled : v.filled? with _ | s
  · exact .own _ hf
  · exact .given (hv s hfilled)

theorem uniform_component (hu : Offered V u.text) :
    Uniform (Element.Drawn V e₀) (fun I => ofComponent I.names u) fun _ => True := by
  have hvalue : OwnChars
      (if u.modifiers.on "trim" then "(typeof $$v === 'string'? $$v.trim(): $$v)" else "$$v").toList := by
    split <;> decide
  refine .bind (uniform_assign hu (drawn_number u (.own _ hvalue))) fun assign hassign => .modify ?_
  rintro _ ⟨b, hb, rfl⟩
  refine ⟨fun I => { b I with model := some _ }, { hb with model := .inr ⟨_, ⟨?_, ?_, ?_⟩, rfl⟩ }, rfl⟩
  · exact ((Text.Drawn.own _ (by decide)).offered hu).fixed _ (by decide)
  · exact ((Text.Drawn.own _ (by decide)).text hassign.drawn).fixed _ (by decide)
  · exact .given (.quote hu)

theorem uniform_checkbox (he : e₀.Written V) (hu : Offered V u.text) :
    Uniform (Element.Drawn V e₀) (fun I => ofCheckbox I.names u) fun _ => True := by
  have hchecked {yes : String} (hyes : Text.Drawn V fun _ => yes) : Text.Drawn V fun I =>
      if yes = "true" then ":(" ++ u.text ++ ")" else ":" ++ I .looseEqual ++ "(" ++ u.text ++ "," ++ yes ++ ")" := by
    split
    · exact ((Text.Drawn.own _ (by decide)).offered hu).fixed _ (by decide)
    · exact (Text.Drawn.own _ (by decide)).name .looseEqual |>.fixed _ (by decide) |>.offered hu
        |>.fixed _ (by decide) |>.text hyes |>.fixed _ (by decide)
  refine .bind (uniform_bindingOr he _ (by decide)) ?_
  rintro _ ⟨value, hvalue, rfl⟩
  refine .bind (uniform_bindingOr he _ (by decide)) ?_
  rintro _ ⟨yes, hyes, rfl⟩
  refine .bind (uniform_bindingOr he _ (by decide)) ?_
  rintro _ ⟨no, hno, rfl⟩
  refine .bind (uniform_setProp (by decide) ?_) fun _ _ => ?_
  · exact (Text.Drawn.own _ (by decide)).offered hu |>.fixed _ (by decide) |>.name .looseIndexOf
      |>.fixed _ (by decide) |>.offered hu |>.fixed _ (by decide) |>.text hvalue |>.fixed _ (by decide)
      |>.text (hchecked hyes)
  refine .bind (uniform_assign hu (.own _ (by decide))) fun added hadded => ?_
  refine .bind (uniform_assign hu (.own _ (by decide))) fun removed hremoved => ?_
  refine .bind (uniform_assign hu (.own _ (by decide))) fun single hsingle => ?_
  refine uniform_listen (by decide) ?_
  exact (Ready.own "var $$a=" (by decide) (by decide)).text (.given hu) |>.fixed _ (by decide) |>.text hyes
    |>.fixed _ (by decide) |>.text hno |>.fixed _ (by decide) |>.fixed _ (by decide) |>.text (drawn_number u hvalue)
    |>.fixed _ (by decide) |>.text (.hole .looseIndexOf) |>.fixed _ (by decide) |>.fixed _ (by decide)
    |>.text hadded.drawn |>.fixed _ (by decide) |>.fixed _ (by decide) |>.text hremoved.drawn |>.fixed _ (by decide)
    |>.fixed _ (by decide) |>.text hsingle.drawn |>.fixed _ (by decide)

theorem uniform_radio (he : e₀.Written V) (hu : Offered V u.text) :
    Uniform (Element.Drawn V e₀) (fun I => ofRadio I.names u) fun _ => True := by
  refine .bind (uniform_bindingOr he _ (by decide)) ?_
  rintro _ ⟨value, hvalue, rfl⟩
  have hnumber := drawn_number u hvalue
  refine .bind (uniform_setProp (by decide) ?_) fun _ _ => ?_
  · exact (Text.Drawn.hole .looseEqual).fixed _ (by decide) |>.offered hu |>.fixed _ (by decide) |>.text hnumber
      |>.fixed _ (by decide)
  · exact .bind (uniform_assign hu hnumber) fun assign hassign => uniform_listen (by decide) hassign

theorem uniform_select (hu : Offered V u.text) :
    Uniform (Element.Drawn V e₀) (fun I => ofSelect I.names u) fun _ => True := by
  have hval : Text.Drawn V fun I => u.number I.names "val" := drawn_number u (.own _ (by decide))
  refine .bind (uniform_assign hu (.own _ (by decide))) fun assign hassign => ?_
  refine uniform_listen (by decide) ((Ready.own "var $$selectedVal = " (by decide) (by decide)).text ?_
    |>.fixed _ (by decide) |>.text hassign.drawn)
  exact (Text.Drawn.own _ (by decide)).fixed _ (by decide) |>.fixed _ (by decide) |>.text hval |>.fixed _ (by decide)

theorem uniform_text (hu : Offered V u.text) :
    Uniform (Element.Drawn V e₀) (fun I => ofText I.names u) fun _ => True := by
  have hinput : OwnChars
      (if u.modifiers.on "trim" then "$event.target.value.trim()" else "$event.target.value").toList := by
    split <;> decide
  refine .bind .get ?_
  rintro _ ⟨b, -, rfl⟩
  have htype (I : Naming) : (e₀.rebind (b I)).rawValue "type" = e₀.rawValue "type" := rfl
  simp only [htype]
  refine .bind (uniform_assign hu (drawn_number u (.own _ hinput))) fun assign hassign => ?_
  refine .bind (uniform_setProp (by decide) ?_) fun _ _ => ?_
  · exact ((Text.Drawn.own _ (by decide)).offered hu).fixed _ (by decide)
  refine .bind (uniform_listen ?_ ?_) fun _ _ => ?_
  · split
    · decide
    · split <;> decide
  · split
    · exact (Ready.own _ (by decide) (by decide)).text hassign.drawn
    · exact hassign
  refine .ite (fun _ _ => rfl) (.modify fun _ h => ?_) (.pure trivial)
  exact h.addHandler (.own _ (by decide)) false _ (Ready.call .forceUpdate "()" (by decide) rfl)

theorem uniform_control (he : e₀.Written V) (hu : Offered V u.text) (kind : Kind) :
    Uniform (Element.Drawn V e₀) (fun I => kind.control I.names u) fun _ => True := by
  cases kind with
  | component => exact uniform_component hu
  | select => exact uniform_select hu
  | checkbox => exact uniform_checkbox he hu
  | radio => exact uniform_radio he hu
  | text => exact uniform_text hu
  | unsupported => exact .pure trivial

theorem drawn_compile (reserved : String → Bool) (site : Site) (he : e₀.Written V) {d : Directive} (hd : V d.value)
    {e : Naming → Element} (h : Element.Drawn V e₀ e) :
    Element.Drawn V e₀ (fun I => (compile { names := I.names, reserved } site (e I) d).element) ∧
      Steady fun I => (compile { names := I.names, reserved } site (e I) d).reply := by
  have hu : Offered V (Use.ofDirective d).text := by
    unfold Use.text Use.ofDirective
    split
    · exact .shown hd
    · exact Offered.part (.shown hd) List.nil_infix
  have hheld := h
  obtain ⟨b, hb, rfl⟩ := h
  have hkind (I : Naming) : kindOf reserved (e₀.rebind (b I)) = kindOf reserved e₀ := rfl
  unfold compile
  simp only [hkind]
  rcases kindOf reserved e₀ with failure | kind
  · exact ⟨hheld, fun _ _ => rfl⟩
  · obtain ⟨hafter, hreply⟩ := uniform_control he hu kind _ hheld
    exact ⟨hafter, fun I J => congrArg (Except.map _) (hreply.steady_unit I J)⟩

end Model

/-! ## All standard directives -/

/-- From the element with drawn bindings, the plugins run for a directive leave drawn bindings and reply the same. -/
def Runs (V : Json → Prop) (e₀ : Element) (d : Directive) (p : Naming → DirectivePlugin) : Prop :=
  ∀ (site : Site) (e : Naming → Element), Element.Drawn V e₀ e →
    Element.Drawn V e₀ (fun I => ((p I).compile site (e I) d).element) ∧
      Steady fun I => ((p I).compile site (e I) d).reply

variable {e₀ : Element} {d : Directive}

theorem runs_domProperty (kind : PluginKind) {property : String} (hp : OwnChars property.toList) (hd : V d.value) :
    Runs V e₀ d fun I => .domProperty kind property I.names := by
  intro site e h
  unfold DirectivePlugin.domProperty
  dsimp only
  rcases hv : d.value.filled? with _ | v
  · exact ⟨h, fun _ _ => rfl⟩
  · refine ⟨h.addProp (.own _ hp) d.span ?_, fun _ _ => rfl⟩
    exact (Text.Drawn.hole .toText).fixed _ (by decide) |>.offered (offered_of_filled? hd hv) |>.fixed _ (by decide)

/-- The standard directives, as plugins that are still to be given names. -/
def standardPlugins (reserved : String → Bool) : Table String (Naming → DirectivePlugin) :=
  [("on", fun I => .on I.names), ("bind", fun I => .bind I.names), ("cloak", fun _ => .cloak),
    ("text", fun I => .domProperty .text "textContent" I.names),
    ("html", fun I => .domProperty .html "innerHTML" I.names),
    ("model", fun I => Model.plugin { names := I.names, reserved })]

theorem drawn_standard (reserved : String → Bool) (he : e₀.Written V) (hd : ∀ v ∈ d.values, V v) :
    Maybe (Runs V e₀ d) fun I => Table.get? d.name (DirectivePlugin.standard I.names reserved) := by
  have hvalue : V d.value := hd d.value (by simp [Directive.values])
  have hget (I : Naming) : Table.get? d.name (DirectivePlugin.standard I.names reserved) =
      (Table.get? d.name (standardPlugins reserved)).map (· I) :=
    Table.get?_map (f := (· I)) (standardPlugins reserved)
  simp only [hget]
  rcases hp : Table.get? d.name (standardPlugins reserved) with _ | p
  · exact .inl rfl
  · refine .inr ⟨p, ?_, rfl⟩
    have hmem := Table.mem_of_get? hp
    simp only [standardPlugins, List.mem_cons, List.not_mem_nil, or_false, Prod.mk.injEq] at hmem
    obtain ⟨-, rfl⟩ | ⟨-, rfl⟩ | ⟨-, rfl⟩ | ⟨-, rfl⟩ | ⟨-, rfl⟩ | ⟨-, rfl⟩ := hmem
    · rintro site _ ⟨b, hb, rfl⟩
      refine ⟨⟨fun I => { b I with wrapListeners := some _ }, { hb with wrapListeners := ?_ }, rfl⟩, fun _ _ => rfl⟩
      exact .inr ⟨_, ⟨d.value, fun I => I .bindObjectListeners, hvalue, .hole _, rfl⟩, rfl⟩
    · rintro site _ ⟨b, hb, rfl⟩
      refine ⟨⟨fun I => { b I with wrapData := some _ }, { hb with wrapData := ?_ }, rfl⟩, fun _ _ => rfl⟩
      let merged : ObjectBinding :=
        { helper := "", tag := e₀.tag, value := d.value, asProp := Modifiers.on (d.modifiers.getD []) "prop",
          sync := Modifiers.on (d.modifiers.getD []) "sync" }
      exact .inr ⟨_, ⟨merged, fun I => I .bindObjectProps, he.tag, hvalue, .hole _, rfl⟩, rfl⟩
    · exact fun site e h => ⟨h, fun _ _ => rfl⟩
    · exact runs_domProperty _ (by decide) hvalue
    · exact runs_domProperty _ (by decide) hvalue
    · exact fun site e h => Model.drawn_compile reserved site he hvalue h

end TemplateCompiler
