import TemplateCompiler.Proofs.Code.Bracketed
import TemplateCompiler.Proofs.Tree.Bracketed

/-!
# What the standard directives add is well bracketed

A standard directive leaves a bracketed element bracketed (`bracketed_standard`). For the controls of a two-way
binding, `Model.Gives x Q` says that `x` keeps the element bracketed, and that its result has `Q`.
-/

namespace TemplateCompiler

open Text ModelPath

/-! ## Adding bindings -/

theorem Events.Bracketed.add {events : Events} (h : events.Bracketed) {name : String} (hbalanced : Balanced name)
    (hquotable : Quotable name) {handler : Handler} (hhandler : handler.value.IsCode) (important : Bool) :
    (events.add name handler important).Bracketed := by
  have hothers : ∀ h ∈ (Table.get? name events).getD [], h.value.IsCode := by
    rcases hget : Table.get? name events with _ | others
    · nofun
    · exact (h _ (Table.mem_of_get? hget)).2
  intro e he
  rcases Table.mem_put he with he | rfl
  · exact h e he
  · refine ⟨isPrinted_of_both hbalanced hquotable _, fun h' hh' => ?_⟩
    dsimp only at hh'
    split at hh'
    · exact (List.mem_cons.mp hh').elim (fun h => h ▸ hhandler) (hothers h')
    · rcases List.mem_append.mp hh' with hh' | hh'
      · exact hothers h' hh'
      · exact List.mem_singleton.mp hh' ▸ hhandler

namespace Element.Bracketed

variable {e : Element}

theorem addProp (h : e.Bracketed) {a : Attr} (ha : a.Bracketed) : (e.addProp a).Bracketed := by
  refine h.of_unbound rfl { h.bindings with props := fun b hb => ?_ }
  rcases List.mem_append.mp hb with hb | hb
  · exact h.bindings.props b hb
  · exact List.mem_singleton.mp hb ▸ ha

/-- A listener without modifiers goes to the events under its own name. -/
theorem addHandler (h : e.Bracketed) {l : Listener} (hm : l.modifiers = none) (hbalanced : Balanced l.name)
    (hquotable : Quotable l.name) (hv : Balanced l.value) : (e.addHandler l).Bracketed := by
  have hresolve : l.resolve = (l.name, false, none) := by
    unfold Listener.resolve Listener.given
    rw [hm]
    rfl
  refine h.of_unbound (e.unbound_addHandler l) ?_
  have hhandler : l.handler.value.IsCode := hv.trim
  unfold Element.addHandler
  rw [hresolve]
  exact { h.bindings with events := h.bindings.events.add hbalanced hquotable hhandler l.important }

theorem takeAttr (h : e.Bracketed) (name : String) : (e.takeAttr name false).2.Bracketed := by
  refine h.of_unbound (e.unbound_takeAttr name) ?_
  show (if (e.rawValue name).isNull then e
    else { e with attrsList := e.attrsList.eraseP (·.name.isText name) }).toBindings.Bracketed
  split
  · exact h.bindings
  · exact { h.bindings with }

/-- What is bound to an attribute is code, and its own value is shown as a literal. -/
theorem takeBinding (h : e.Bracketed) (name : String) (withStatic : Bool) :
    (e.takeBinding name withStatic).1.IsCode ∧ (e.takeBinding name withStatic).2.Bracketed := by
  have hshort : (e.takeAttr (":" ++ name) false).1.IsCode := h.rawValue (by simp [Json.isBound])
  have hafter := h.takeAttr (":" ++ name)
  have hlong : ((e.takeAttr (":" ++ name) false).2.takeAttr ("v-bind:" ++ name) false).1.IsCode :=
    hafter.rawValue (by simp [Json.isBound])
  have hrest := hafter.takeAttr ("v-bind:" ++ name)
  have hnull : Json.null.IsCode := by decide
  have hliteral (v : Json) : (if v.isNull then Json.null else .string v.spaced).IsCode := by
    split
    · exact hnull
    · exact Json.balanced_spaced v
  unfold Element.takeBinding
  dsimp only
  split <;> split
  · exact ⟨hshort, hafter⟩
  · split
    · exact ⟨hliteral _, hafter.takeAttr name⟩
    · exact ⟨hnull, hafter⟩
  · exact ⟨hlong, hrest⟩
  · split
    · exact ⟨hliteral _, hrest.takeAttr name⟩
    · exact ⟨hnull, hrest⟩

end Element.Bracketed

/-! ## Two-way bindings -/

namespace Model

variable {α β : Type}

/-- The control keeps an element bracketed, and what it returns has `Q`. -/
def Gives (x : Control α) (Q : α → Prop) : Prop :=
  ∀ e, e.Bracketed → (x.run.run e).2.Bracketed ∧ ∀ a, (x.run.run e).1 = .ok a → Q a

namespace Gives

variable {Q : α → Prop} {R : β → Prop}

theorem pure {a : α} (h : Q a) : Gives (pure a) Q :=
  Keeps.pure h

theorem throw (f : Failure) : Gives (throw f : Control α) Q :=
  Keeps.throw f

theorem modify {f : Element → Element} (h : ∀ e, e.Bracketed → (f e).Bracketed) :
    Gives (modify f : Control Unit) fun _ => True :=
  Keeps.modify h

theorem get : Gives get fun _ => True :=
  Keeps.get

theorem bind {x : Control α} {f : α → Control β} (hx : Gives x Q) (hf : ∀ a, Q a → Gives (f a) R) :
    Gives (x >>= f) R :=
  Keeps.bind hx hf

end Gives

/-- A use whose target can be read and assigned to. -/
structure Use.Bracketed (u : Use) : Prop where
  text : Balanced u.text
  target : ∀ s, u.target = .string s → s = "" ∨ MemberPath s

variable {names : Names} {u : Use} (hn : names.Balanced)

include hn

theorem gives_assign (hu : u.Bracketed) {value : String} (hv : Balanced value) :
    Gives (u.assign names value) Balanced := by
  unfold Use.assign
  split
  · next ht => exact .pure (balanced_assignment (hn _) (hu.target _ ht) hv)
  · exact .throw _

theorem balanced_number (u : Use) {code : String} (hc : Balanced code) : Balanced (u.number names code) := by
  unfold Use.number
  split
  · exact (hn .toNumber) |>.fixed "(" rfl |>.code hc |>.fixed ")" rfl
  · exact hc

omit hn in
theorem gives_listen {event code : String} (hb : Balanced event) (hq : Quotable event) (hc : Balanced code) :
    Gives (listen names event code) fun _ => True :=
  .modify fun _ he => he.addHandler rfl hb hq hc

omit hn in
theorem gives_setProp {name value : String} (hq : Quotable name) (hv : Balanced value) :
    Gives (setProp name value) fun _ => True :=
  .modify fun _ he => he.addProp ⟨hq, hv⟩

omit hn in
theorem gives_bindingOr (name : String) {fallback : String} (hf : Balanced fallback) :
    Gives (bindingOr name fallback) Balanced := by
  intro e he
  obtain ⟨hcode, hafter⟩ := he.takeBinding name true
  exact ⟨hafter, fun a ha => Except.ok.inj ha ▸ hcode.filledOr hf⟩

theorem gives_component (hu : u.Bracketed) : Gives (ofComponent names u) fun _ => True := by
  have hvalue : Balanced
      (if u.modifiers.on "trim" then "(typeof $$v === 'string'? $$v.trim(): $$v)" else "$$v") := by
    split <;> decide
  refine .bind (gives_assign hn hu (balanced_number hn u hvalue)) fun assign hassign => ?_
  refine .modify fun e he => he.of_unbound rfl { he.bindings with model := ?_ }
  rintro _ ⟨⟩
  refine ⟨?_, ?_, Json.balanced_quote u.text⟩
  · exact Reads.start "(" rfl |>.code hu.text |>.fixed ")" rfl
  · exact Reads.start "function ($$v) \x7b" rfl |>.code hassign |>.fixed "\x7d" rfl

theorem gives_checkbox (hu : u.Bracketed) : Gives (ofCheckbox names u) fun _ => True := by
  refine .bind (gives_bindingOr _ (by decide)) fun value hvalue => ?_
  refine .bind (gives_bindingOr _ (by decide)) fun yes hyes => ?_
  refine .bind (gives_bindingOr _ (by decide)) fun no hno => ?_
  refine .bind (gives_setProp (by decide) ?_) fun _ _ => ?_
  · have hsingle : Balanced (if yes = "true" then ":(" ++ u.text ++ ")"
        else ":" ++ names .looseEqual ++ "(" ++ u.text ++ "," ++ yes ++ ")") := by
      split
      · exact Reads.start ":(" rfl |>.code hu.text |>.fixed ")" rfl
      · exact Reads.start ":" rfl |>.code (hn .looseEqual) |>.fixed "(" rfl |>.code hu.text |>.fixed "," rfl
          |>.code hyes |>.fixed ")" rfl
    exact Reads.start "Array.isArray(" rfl |>.code hu.text |>.fixed ")?" rfl |>.code (hn .looseIndexOf)
      |>.fixed "(" rfl |>.code hu.text |>.fixed "," rfl |>.code hvalue |>.fixed ")>-1" rfl |>.code hsingle
  refine .bind (gives_assign hn hu (by decide)) fun added hadded => ?_
  refine .bind (gives_assign hn hu (by decide)) fun removed hremoved => ?_
  refine .bind (gives_assign hn hu (by decide)) fun single hsingle => ?_
  refine gives_listen (by decide) (by decide) ?_
  exact Reads.start "var $$a=" rfl |>.code hu.text |>.fixed _ rfl |>.code hyes |>.fixed _ rfl |>.code hno
    |>.fixed _ rfl |>.fixed _ rfl |>.code (balanced_number hn u hvalue) |>.fixed _ rfl
    |>.code (hn .looseIndexOf) |>.fixed _ rfl |>.fixed _ rfl |>.code hadded |>.fixed _ rfl |>.fixed _ rfl
    |>.code hremoved |>.fixed _ rfl |>.fixed _ rfl |>.code hsingle |>.fixed _ rfl

theorem gives_radio (hu : u.Bracketed) : Gives (ofRadio names u) fun _ => True := by
  refine .bind (gives_bindingOr _ (by decide)) fun value hvalue => ?_
  have hnumber := balanced_number hn u hvalue
  refine .bind (gives_setProp (by decide) ?_) fun _ _ => ?_
  · exact (hn .looseEqual) |>.fixed "(" rfl |>.code hu.text |>.fixed "," rfl |>.code hnumber |>.fixed ")" rfl
  · exact .bind (gives_assign hn hu hnumber) fun assign hassign => gives_listen (by decide) (by decide) hassign

theorem gives_select (hu : u.Bracketed) : Gives (ofSelect names u) fun _ => True := by
  have hval : Balanced (u.number names "val") := balanced_number hn u (by decide)
  refine .bind (gives_assign hn hu (by decide)) fun assign hassign => ?_
  refine gives_listen (by decide) (by decide) ?_
  refine Reads.start "var $$selectedVal = " rfl |>.code ?_ |>.fixed "; " rfl |>.code hassign
  exact Reads.start "Array.prototype.filter.call($event.target.options," rfl |>.fixed _ rfl |>.fixed _ rfl
    |>.code hval |>.fixed _ rfl

theorem gives_text (hu : u.Bracketed) : Gives (ofText names u) fun _ => True := by
  have hinput : Balanced
      (if u.modifiers.on "trim" then "$event.target.value.trim()" else "$event.target.value") := by
    split <;> decide
  refine .bind .get fun e _ => .bind (gives_assign hn hu (balanced_number hn u hinput)) fun assign hassign => ?_
  refine .bind (gives_setProp (by decide) ?_) fun _ _ => ?_
  · exact Reads.start "(" rfl |>.code hu.text |>.fixed ")" rfl
  refine .bind (gives_listen ?_ ?_ ?_) fun _ _ => ?_
  · split
    · decide
    · split <;> decide
  · split
    · decide
    · split <;> decide
  · split
    · exact Reads.start "if($event.target.composing)return;" rfl |>.code hassign
    · exact hassign
  split
  · have hcode : Balanced "blur" := by decide
    have hquoted : Quotable "blur" := by decide
    refine .modify fun e he => he.addHandler rfl hcode hquoted ?_
    exact (hn .forceUpdate) |>.fixed "()" rfl
  · exact .pure trivial

theorem gives_control (hu : u.Bracketed) (kind : Kind) : Gives (kind.control names u) fun _ => True := by
  cases kind with
  | component => exact gives_component hn hu
  | select => exact gives_select hn hu
  | checkbox => exact gives_checkbox hn hu
  | radio => exact gives_radio hn hu
  | text => exact gives_text hn hu
  | unsupported => exact .pure trivial

theorem bracketed_compile (reserved : String → Bool) (site : Site) {e : Element} (he : e.Bracketed)
    {d : Directive} (hd : d.Bracketed) (ht : ∀ s, d.value = .string s → s = "" ∨ MemberPath s) :
    (compile { names, reserved } site e d).element.Bracketed := by
  have hu : (Use.ofDirective d).Bracketed := by
    unfold Use.ofDirective
    by_cases hv : d.value.truthy = true
    · simp only [if_pos hv]
      exact ⟨hd.value, ht⟩
    · simp only [if_neg hv]
      exact ⟨balanced_empty, fun s hs => .inl (Json.string.inj hs).symm⟩
  unfold compile
  dsimp only
  split
  · exact he
  · exact (gives_control hn hu _ e he).1

end Model

/-! ## All standard directives -/

/-- A directive that sets a property to text. -/
theorem bracketed_domProperty {names : Names} (hn : names.Balanced) (kind : PluginKind) {property : String}
    (hp : Quotable property) (site : Site) {e : Element} (he : e.Bracketed) {d : Directive} (hd : d.Bracketed) :
    ((DirectivePlugin.domProperty kind property names).compile site e d).element.Bracketed := by
  unfold DirectivePlugin.domProperty
  dsimp only
  split
  · next v hv =>
    refine he.addProp ⟨hp, ?_⟩
    exact (hn .toText) |>.fixed "(" rfl |>.code (hd.value.of_filled? hv) |>.fixed ")" rfl
  · exact he

theorem bracketed_standard {names : Names} (hn : names.Balanced) {reserved : String → Bool}
    {p : DirectivePlugin} {d : Directive}
    (h : Table.get? d.name (DirectivePlugin.standard names reserved) = some p) (site : Site) {e : Element}
    (he : e.Bracketed) (hd : d.Bracketed) (ht : ∀ s ∈ d.target?, s = "" ∨ MemberPath s) :
    (p.compile site e d).element.Bracketed := by
  simp only [DirectivePlugin.standard, Table.get?] at h
  split at h
  · cases h
    refine he.of_unbound rfl { he.bindings with wrapListeners := ?_ }
    rintro _ ⟨⟩
    exact ⟨hn _, hd.value⟩
  split at h
  · cases h
    refine he.of_unbound rfl { he.bindings with wrapData := ?_ }
    rintro _ ⟨⟩
    exact ⟨hn _, he.tag, hd.value⟩
  split at h
  · cases h; exact he
  split at h
  · cases h; exact bracketed_domProperty hn _ (by decide) site he hd
  split at h
  · cases h; exact bracketed_domProperty hn _ (by decide) site he hd
  split at h
  · next hname =>
    cases h
    refine Model.bracketed_compile hn reserved site he hd fun s hs => ht s ?_
    rw [Directive.target?, if_pos hname.symm, hs]
    rfl
  · cases h

end TemplateCompiler
