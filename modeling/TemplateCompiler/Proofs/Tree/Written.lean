import TemplateCompiler.Proofs.Listener.Steady
import TemplateCompiler.Proofs.Naming.Uniform
import TemplateCompiler.Proofs.Tree.Bracketed

/-!
# What is written in a template

`Tree.Writes t v` says that `v` is one of the values of the template: a text, an expression, or what stands in a
field of an element. Names of events and modifiers are values as well.

Directive plugins put code with names of helpers into the bindings of an element. A family of bindings, one for each
naming, is `Drawn` if the bindings differ in such code only.
-/

namespace TemplateCompiler

/-! ## Values -/

def Attr.values (a : Attr) : List Json :=
  [a.name, a.value]

def Handler.values (h : Handler) : List Json :=
  h.value :: (h.modifiers.getD []).map Prod.fst

def Events.values (events : Events) : List Json :=
  events.flatMap fun e => .string e.1 :: e.2.flatMap Handler.values

def ModelBinding.values (m : ModelBinding) : List Json :=
  [m.value, m.callback, m.expression]

def ObjectBinding.values (b : ObjectBinding) : List Json :=
  [.string b.helper, b.tag, b.value]

def ObjectListeners.values (l : ObjectListeners) : List Json :=
  [.string l.helper, l.value]

def Bindings.values (b : Bindings) : List Json :=
  b.events.values ++ b.nativeEvents.values ++ b.props.flatMap Attr.values ++
    (b.attrs.getD [] ++ b.dynamicAttrs.getD []).flatMap Attr.values ++ b.model.toList.flatMap ModelBinding.values ++
    b.wrapData.toList.flatMap ObjectBinding.values ++ b.wrapListeners.toList.flatMap ObjectListeners.values

def Directive.values (d : Directive) : List Json :=
  [.string d.name, d.rawName, d.value, d.arg] ++ (d.modifiers.map Modifiers.object).toList

def Element.values (e : Element) : List Json :=
  e.toBindings.values ++ e.tag :: e.expressions ++ e.attrsMap.map Prod.snd ++ e.directives.flatMap Directive.values

def Node.values (n : Node) : List Json :=
  match n.content with
  | .element e => e.values
  | .text text => [text]
  | .expression code _ => [code]
  | .comment text => [text]

def Tree.Writes (t : Tree) (v : Json) : Prop :=
  ∃ i n, t.node? i = some n ∧ v ∈ n.values

/-! ## Bindings under every naming -/

/-- The element with other bindings. -/
def Element.rebind (e : Element) (b : Bindings) : Element :=
  { e with toBindings := b }

@[simp] theorem Element.toBindings_rebind (e : Element) (b : Bindings) : (e.rebind b).toBindings = b := rfl

variable {V : Json → Prop}

/-- Attributes with the same name, and drawn texts as values unless the value is no text. -/
def Attr.Drawn (V : Json → Prop) (a : Naming → Attr) : Prop :=
  ∃ a₀ : Attr, Text.Drawn V (fun _ => a₀.name.shown) ∧
    ((∃ s, Text.Drawn V s ∧ a = fun I => { a₀ with value := .string (s I) }) ∨
      (∀ s, a₀.value ≠ .string s) ∧ a = fun _ => a₀)

/-- Handlers of the same kind, with drawn texts as values unless the value is no text. -/
def Handler.Drawn (V : Json → Prop) (h : Naming → Handler) : Prop :=
  ∃ h₀ : Handler, (∀ m ∈ h₀.modifiers.getD [], V m.1) ∧
    ((∃ s, Text.Drawn V s ∧ Classified s ∧ h = fun I => { h₀ with value := .string (s I) }) ∨
      (∀ s, h₀.value ≠ .string s) ∧ h = fun _ => h₀)

/-- The handlers of one event. -/
def Events.EntryDrawn (V : Json → Prop) (e : Naming → String × List Handler) : Prop :=
  ∃ (name : String) (handlers : Naming → List Handler), Text.Drawn V (fun _ => name) ∧
    Each (Handler.Drawn V) handlers ∧ e = fun I => (name, handlers I)

def Events.Drawn (V : Json → Prop) (events : Naming → Events) : Prop :=
  Each (EntryDrawn V) events

structure ModelBinding.Drawn (V : Json → Prop) (m : Naming → ModelBinding) : Prop where
  value : Text.Drawn V fun I => (m I).value.shown
  callback : Text.Drawn V fun I => (m I).callback.shown
  expression : Text.Drawn V fun I => (m I).expression.shown

def ObjectBinding.Drawn (V : Json → Prop) (b : Naming → ObjectBinding) : Prop :=
  ∃ (b₀ : ObjectBinding) (helper : Naming → String), V b₀.tag ∧ V b₀.value ∧ Text.Drawn V helper ∧
    b = fun I => { b₀ with helper := helper I }

def ObjectListeners.Drawn (V : Json → Prop) (l : Naming → ObjectListeners) : Prop :=
  ∃ (value : Json) (helper : Naming → String), V value ∧ Text.Drawn V helper ∧ l = fun I => ⟨helper I, value⟩

structure Bindings.Drawn (V : Json → Prop) (b : Naming → Bindings) : Prop where
  attrsList : Steady fun I => (b I).attrsList
  plain : Steady fun I => (b I).plain
  attrs : Steady fun I => (b I).attrs
  dynamicAttrs : Steady fun I => (b I).dynamicAttrs
  written : ∀ I, ∀ a ∈ (b I).attrs.getD [] ++ (b I).dynamicAttrs.getD [], V a.name ∧ V a.value
  events : Events.Drawn V fun I => (b I).events
  nativeEvents : Events.Drawn V fun I => (b I).nativeEvents
  props : Each (Attr.Drawn V) fun I => (b I).props
  model : Maybe (ModelBinding.Drawn V) fun I => (b I).model
  wrapData : Maybe (ObjectBinding.Drawn V) fun I => (b I).wrapData
  wrapListeners : Maybe (ObjectListeners.Drawn V) fun I => (b I).wrapListeners

/-! ## Bindings as they were written -/

theorem Text.Drawn.shown {v : Json} (h : V v) : Text.Drawn V fun _ => v.shown :=
  .given (.shown h)

theorem Attr.drawn_const {a : Attr} (hname : Text.Drawn V fun _ => a.name.shown) (hvalue : V a.value) :
    Attr.Drawn V fun _ => a := by
  refine ⟨a, hname, ?_⟩
  rcases hv : a.value with _ | _ | _ | _ | s | _ | _
  case string =>
    rw [hv] at hvalue
    exact .inl ⟨fun _ => s, .given (.shown hvalue), by simp only [← hv]⟩
  all_goals exact .inr ⟨nofun, rfl⟩

theorem Handler.drawn_const {h : Handler} (hh : ∀ v ∈ h.values, V v) : Handler.Drawn V fun _ => h := by
  refine ⟨h, fun m hm => hh _ (List.mem_cons_of_mem _ (List.mem_map_of_mem hm)), ?_⟩
  have hvalue : V h.value := hh h.value (List.mem_cons_self ..)
  rcases hv : h.value with _ | _ | _ | _ | s | _ | _
  case string =>
    rw [hv] at hvalue
    exact .inl ⟨fun _ => s, .given (.shown hvalue), .const s, by simp only [← hv]⟩
  all_goals exact .inr ⟨nofun, rfl⟩

theorem Events.drawn_const {events : Events} (h : ∀ v ∈ events.values, V v) : Events.Drawn V fun _ => events := by
  refine Each.const fun e he => ⟨e.1, fun _ => e.2, ?_, .const fun handler hhandler => ?_, rfl⟩
  · exact .given (.shown (h _ (List.mem_flatMap.mpr ⟨e, he, List.mem_cons_self ..⟩)))
  · refine Handler.drawn_const fun v hv => h v ?_
    exact List.mem_flatMap.mpr ⟨e, he, List.mem_cons_of_mem _ (List.mem_flatMap.mpr ⟨handler, hhandler, hv⟩)⟩

theorem Bindings.drawn_const {b : Bindings} (h : ∀ v ∈ b.values, V v) : Bindings.Drawn V fun _ => b := by
  simp only [Bindings.values, List.forall_mem_append] at h
  obtain ⟨⟨⟨⟨⟨⟨hevents, hnative⟩, hprops⟩, hattrs⟩, hmodel⟩, hdata⟩, hlisteners⟩ := h
  constructor
  case written =>
    intro _ a ha
    have hvalues : ∀ v ∈ a.values, V v := fun v hv => hattrs v (List.mem_flatMap.mpr ⟨a, by simpa using ha, hv⟩)
    exact ⟨hvalues _ (by simp [Attr.values]), hvalues _ (by simp [Attr.values])⟩
  case events => exact Events.drawn_const hevents
  case nativeEvents => exact Events.drawn_const hnative
  case props =>
    have hvalues (a : Attr) (ha : a ∈ b.props) {v : Json} (hv : v ∈ a.values) : V v :=
      hprops v (List.mem_flatMap.mpr ⟨a, ha, hv⟩)
    exact .const fun a ha => Attr.drawn_const (.shown (hvalues a ha (by simp [Attr.values])))
      (hvalues a ha (by simp [Attr.values]))
  case model =>
    rcases hm : b.model with _ | m
    · exact .inl rfl
    · rw [hm] at hmodel
      refine .inr ⟨fun _ => m, ?_, rfl⟩
      exact ⟨.shown (hmodel _ (by simp [ModelBinding.values])), .shown (hmodel _ (by simp [ModelBinding.values])),
        .shown (hmodel _ (by simp [ModelBinding.values]))⟩
  case wrapData =>
    rcases hw : b.wrapData with _ | w
    · exact .inl rfl
    · rw [hw] at hdata
      refine .inr ⟨fun _ => w, ⟨w, fun _ => w.helper, ?_⟩, rfl⟩
      exact ⟨hdata _ (by simp [ObjectBinding.values]), hdata _ (by simp [ObjectBinding.values]),
        .given (.shown (hdata (.string w.helper) (by simp [ObjectBinding.values]))), rfl⟩
  case wrapListeners =>
    rcases hl : b.wrapListeners with _ | l
    · exact .inl rfl
    · rw [hl] at hlisteners
      refine .inr ⟨fun _ => l, ⟨l.value, fun _ => l.helper, ?_⟩, rfl⟩
      exact ⟨hlisteners _ (by simp [ObjectListeners.values]),
        .given (.shown (hlisteners (.string l.helper) (by simp [ObjectListeners.values]))), rfl⟩
  all_goals exact fun _ _ => rfl

end TemplateCompiler
