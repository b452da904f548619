import TemplateCompiler.Proofs.Json.Letters
import TemplateCompiler.Proofs.Tree.Written

/-!
# Trees over an alphabet

A tree is `Over P` if every character has `P` that its elements and expressions bring into code, and every character
of the literals that its texts and comments become.
-/

namespace TemplateCompiler

open Text

/-! ## Bindings -/

def Attr.Over (P : Char → Prop) (a : Attr) : Prop :=
  a.name.Over P ∧ a.value.Over P

def Handler.Over (P : Char → Prop) (h : Handler) : Prop :=
  h.value.Over P ∧ ∀ m ∈ h.modifiers.getD [], m.1.Over P

def Events.Over (P : Char → Prop) (events : Events) : Prop :=
  ∀ e ∈ events, Text.Over P e.1 ∧ ∀ h ∈ e.2, h.Over P

def ModelBinding.Over (P : Char → Prop) (m : ModelBinding) : Prop :=
  m.value.Over P ∧ m.callback.Over P ∧ m.expression.Over P

def ObjectBinding.Over (P : Char → Prop) (b : ObjectBinding) : Prop :=
  Text.Over P b.helper ∧ b.tag.Over P ∧ b.value.Over P

def ObjectListeners.Over (P : Char → Prop) (l : ObjectListeners) : Prop :=
  Text.Over P l.helper ∧ l.value.Over P

structure Bindings.Over (P : Char → Prop) (b : Bindings) : Prop where
  events : b.events.Over P
  nativeEvents : b.nativeEvents.Over P
  props : ∀ a ∈ b.props, a.Over P
  attrs : ∀ a ∈ b.attrs.getD [], a.Over P
  dynamicAttrs : ∀ a ∈ b.dynamicAttrs.getD [], a.Over P
  model : ∀ m ∈ b.model, m.Over P
  wrapData : ∀ w ∈ b.wrapData, w.Over P
  wrapListeners : ∀ l ∈ b.wrapListeners, l.Over P

/-! ## Elements -/

structure Directive.Over (P : Char → Prop) (d : Directive) : Prop where
  name : Text.Over P d.name
  rawName : d.rawName.Over P
  value : d.value.Over P
  arg : d.arg.Over P
  modifiers : ∀ m ∈ d.modifiers, m.object.Over P

structure Element.Over (P : Char → Prop) (e : Element) : Prop where
  bindings : e.toBindings.Over P
  tag : e.tag.Over P
  expressions : ∀ v ∈ e.expressions, v.Over P
  raw : ∀ a ∈ e.attrsMap, a.2.Over P
  directives : ∀ d ∈ e.directives, d.Over P

variable {P : Char → Prop}

theorem Events.over_of_values {events : Events} (h : ∀ v ∈ events.values, v.Over P) : events.Over P := by
  intro e he
  have hentry : ∀ v ∈ Json.string e.1 :: e.2.flatMap Handler.values, v.Over P :=
    fun v hv => h v (List.mem_flatMap.mpr ⟨e, he, hv⟩)
  refine ⟨Json.over_string.mp (hentry _ (List.mem_cons_self ..)), fun handler hhandler => ?_⟩
  have hvalues : ∀ v ∈ handler.values, v.Over P :=
    fun v hv => hentry v (List.mem_cons_of_mem _ (List.mem_flatMap.mpr ⟨handler, hhandler, hv⟩))
  refine ⟨hvalues _ (List.mem_cons_self ..), fun m hm => hvalues _ ?_⟩
  exact List.mem_cons_of_mem _ (List.mem_map_of_mem hm)

theorem Bindings.over_of_values {b : Bindings} (h : ∀ v ∈ b.values, v.Over P) : b.Over P := by
  simp only [Bindings.values, List.forall_mem_append] at h
  obtain ⟨⟨⟨⟨⟨⟨hevents, hnative⟩, hprops⟩, hattrs⟩, hmodel⟩, hdata⟩, hlisteners⟩ := h
  have hattr (as : List Attr) (has : ∀ v ∈ as.flatMap Attr.values, v.Over P) : ∀ a ∈ as, a.Over P := by
    intro a ha
    have hvalues : ∀ v ∈ a.values, v.Over P := fun v hv => has v (List.mem_flatMap.mpr ⟨a, ha, hv⟩)
    simpa [Attr.values, Attr.Over] using hvalues
  rw [List.flatMap_append, List.forall_mem_append] at hattrs
  refine ⟨Events.over_of_values hevents, Events.over_of_values hnative, hattr _ hprops, hattr _ hattrs.1,
    hattr _ hattrs.2, fun m hm => ?_, fun w hw => ?_, fun l hl => ?_⟩
  · rw [hm] at hmodel
    simpa [ModelBinding.values, ModelBinding.Over] using hmodel
  · rw [hw] at hdata
    simpa [ObjectBinding.values, ObjectBinding.Over, Json.over_string] using hdata
  · rw [hl] at hlisteners
    simpa [ObjectListeners.values, ObjectListeners.Over, Json.over_string] using hlisteners

theorem Directive.over_of_values {d : Directive} (h : ∀ v ∈ d.values, v.Over P) : d.Over P := by
  simp only [Directive.values, List.forall_mem_append, List.forall_mem_cons, Json.over_string] at h
  obtain ⟨⟨hname, hraw, hvalue, harg, -⟩, hmodifiers⟩ := h
  refine ⟨hname, hraw, hvalue, harg, fun m hm => hmodifiers _ ?_⟩
  rw [Option.mem_toList, hm]
  rfl

theorem Element.over_of_values {e : Element} (h : ∀ v ∈ e.values, v.Over P) : e.Over P := by
  simp only [Element.values, List.forall_mem_append, List.forall_mem_cons] at h
  obtain ⟨⟨⟨hbindings, htag, hexpressions⟩, hraw⟩, hdirectives⟩ := h
  refine ⟨Bindings.over_of_values hbindings, htag, hexpressions, fun a ha => hraw _ (List.mem_map_of_mem ha),
    fun d hd => Directive.over_of_values fun v hv => hdirectives v (List.mem_flatMap.mpr ⟨d, hd, hv⟩)⟩

namespace Element.Over

variable {e e' : Element}

theorem rawValue (h : e.Over P) (name : String) : (e.rawValue name).Over P := by
  unfold Element.rawValue
  rcases hv : Table.get? (.string name) e.attrsMap with _ | v <;> rw [hv]
  · exact List.forall_mem_nil P
  · exact h.raw _ (Table.mem_of_get? hv)

/-- An element with other bindings. -/
theorem of_unbound (h : e.Over P) (hu : e'.unbound = e.unbound) (hb : e'.toBindings.Over P) : e'.Over P := by
  have he' : e' = { e with toBindings := e'.toBindings } :=
    congrArg (fun x : Element => { x with toBindings := e'.toBindings }) hu
  rw [he']
  exact ⟨hb, h.tag, h.expressions, h.raw, h.directives⟩

end Element.Over

/-! ## Trees -/

def Content.Over (P : Char → Prop) : Content → Prop
  | .element e => e.Over P
  | .expression code _ => code.Over P
  | .text v => Text.Over P (Json.escapeSeparators v.compact)
  | .comment v => Text.Over P v.compact

def Tree.Over (P : Char → Prop) : Tree → Prop :=
  Tree.Contents (Content.Over P)

end TemplateCompiler
