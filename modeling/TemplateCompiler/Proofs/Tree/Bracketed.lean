import TemplateCompiler.Proofs.Json.Balanced
import TemplateCompiler.Proofs.Plugin.Frame
import TemplateCompiler.Proofs.Plugin.MemberPath
import TemplateCompiler.Proofs.Tree.Unflag

/-!
# Trees whose code is well bracketed

Most fields of an element hold code that was written in the template, and some hold names that are printed
between quotes. `Element.Printable` says that the former are balanced and the latter without quotes and
backslashes. An element is `Bracketed` if, besides, the targets of its two-way bindings are member paths. Texts,
comments and modifiers may be anything.
-/

namespace TemplateCompiler

open Text ModelPath

/-- A value that is balanced where it is shown as code. -/
def Json.IsCode (v : Json) : Prop :=
  Balanced v.shown

/-- A value that can be shown between quotes. -/
def Json.IsQuotable (v : Json) : Prop :=
  Quotable v.shown

/-- A name as it is printed: code if it is known only at run time, else between quotes. -/
def IsPrinted (dynamic : Bool) (name : String) : Prop :=
  if dynamic then Balanced name else Quotable name

instance (v : Json) : Decidable v.IsCode :=
  inferInstanceAs (Decidable (Balanced v.shown))

instance (v : Json) : Decidable v.IsQuotable :=
  inferInstanceAs (Decidable (Quotable v.shown))

instance (dynamic : Bool) (name : String) : Decidable (IsPrinted dynamic name) :=
  inferInstanceAs (Decidable (if dynamic then Balanced name else Quotable name))

theorem isPrinted_of_both {name : String} (hb : Balanced name) (hq : Quotable name) (dynamic : Bool) :
    IsPrinted dynamic name := by
  cases dynamic with
  | true => exact hb
  | false => exact hq

/-! ## Bindings -/

def Attr.Bracketed (a : Attr) : Prop :=
  IsPrinted a.dynamic a.name.shown ∧ a.value.IsCode

def Events.Bracketed (events : Events) : Prop :=
  ∀ e ∈ events, IsPrinted (e.2.any (·.dynamic)) e.1 ∧ ∀ h ∈ e.2, h.value.IsCode

def ModelBinding.Bracketed (m : ModelBinding) : Prop :=
  m.value.IsCode ∧ m.callback.IsCode ∧ m.expression.IsCode

def ObjectBinding.Bracketed (b : ObjectBinding) : Prop :=
  Balanced b.helper ∧ b.tag.IsQuotable ∧ b.value.IsCode

def ObjectListeners.Bracketed (l : ObjectListeners) : Prop :=
  Balanced l.helper ∧ l.value.IsCode

structure Bindings.Bracketed (b : Bindings) : Prop where
  events : b.events.Bracketed
  nativeEvents : b.nativeEvents.Bracketed
  props : ∀ a ∈ b.props, a.Bracketed
  attrs : ∀ a ∈ b.attrs.getD [], a.Bracketed
  dynamicAttrs : ∀ a ∈ b.dynamicAttrs.getD [], a.Bracketed
  model : ∀ m ∈ b.model, m.Bracketed
  wrapData : ∀ w ∈ b.wrapData, w.Bracketed
  wrapListeners : ∀ l ∈ b.wrapListeners, l.Bracketed

/-! ## Elements -/

structure Directive.Bracketed (d : Directive) : Prop where
  name : Quotable d.name
  rawName : d.rawName.IsQuotable
  value : d.value.IsCode
  arg : IsPrinted d.dynamicArg d.arg.shown

/-- The text of a two-way binding. -/
def Directive.target? (d : Directive) : Option String :=
  if d.name = "model" then
    match d.value with
    | .string s => some s
    | _ => none
  else none

/-- Whether the name of a raw attribute says that its value is code. -/
def Json.isBound : Json → Bool
  | .string name => [':'].isPrefixOf name.toList || ['v', '-', 'b', 'i', 'n', 'd'].isPrefixOf name.toList
  | _ => false

/-- The fields of an element that hold code. -/
def Element.expressions (e : Element) : List Json :=
  [e.forSource, e.forAlias, e.iterator1, e.iterator2, e.ifExpr, e.key, e.ref, e.slotTarget, e.slotScope,
    e.slotName, e.component, e.staticClass, e.classBinding, e.staticStyle, e.styleBinding] ++
    e.conditions.map Condition.expression

structure Element.Printable (e : Element) : Prop where
  bindings : e.toBindings.Bracketed
  tag : e.tag.IsQuotable
  codes : ∀ v ∈ e.expressions, v.IsCode
  raw : ∀ a ∈ e.attrsMap, a.1.isBound = true → a.2.IsCode
  directives : ∀ d ∈ e.directives, d.Bracketed

structure Element.Bracketed (e : Element) : Prop extends e.Printable where
  targets : ∀ d ∈ e.directives, ∀ s ∈ d.target?, s = "" ∨ MemberPath s

section

instance (a : Attr) : Decidable a.Bracketed :=
  inferInstanceAs (Decidable (_ ∧ _))

instance (events : Events) : Decidable events.Bracketed :=
  inferInstanceAs (Decidable (∀ e ∈ events, _))

instance (m : ModelBinding) : Decidable m.Bracketed :=
  inferInstanceAs (Decidable (_ ∧ _))

instance (b : ObjectBinding) : Decidable b.Bracketed :=
  inferInstanceAs (Decidable (_ ∧ _))

instance (l : ObjectListeners) : Decidable l.Bracketed :=
  inferInstanceAs (Decidable (_ ∧ _))

instance (b : Bindings) : Decidable b.Bracketed :=
  decidable_of_iff (b.events.Bracketed ∧ b.nativeEvents.Bracketed ∧ (∀ a ∈ b.props, a.Bracketed) ∧
      (∀ a ∈ b.attrs.getD [], a.Bracketed) ∧ (∀ a ∈ b.dynamicAttrs.getD [], a.Bracketed) ∧
      (∀ m ∈ b.model, m.Bracketed) ∧ (∀ w ∈ b.wrapData, w.Bracketed) ∧ ∀ l ∈ b.wrapListeners, l.Bracketed)
    ⟨fun ⟨h₁, h₂, h₃, h₄, h₅, h₆, h₇, h₈⟩ => ⟨h₁, h₂, h₃, h₄, h₅, h₆, h₇, h₈⟩,
      fun h => ⟨h.1, h.2, h.3, h.4, h.5, h.6, h.7, h.8⟩⟩

instance (d : Directive) : Decidable d.Bracketed :=
  decidable_of_iff (Quotable d.name ∧ d.rawName.IsQuotable ∧ d.value.IsCode ∧ IsPrinted d.dynamicArg d.arg.shown)
    ⟨fun ⟨h₁, h₂, h₃, h₄⟩ => ⟨h₁, h₂, h₃, h₄⟩, fun h => ⟨h.1, h.2, h.3, h.4⟩⟩

instance (e : Element) : Decidable e.Printable :=
  decidable_of_iff (e.toBindings.Bracketed ∧ e.tag.IsQuotable ∧ (∀ v ∈ e.expressions, v.IsCode) ∧
      (∀ a ∈ e.attrsMap, a.1.isBound = true → a.2.IsCode) ∧ ∀ d ∈ e.directives, d.Bracketed)
    ⟨fun ⟨h₁, h₂, h₃, h₄, h₅⟩ => ⟨h₁, h₂, h₃, h₄, h₅⟩, fun h => ⟨h.1, h.2, h.3, h.4, h.5⟩⟩

end

/-! ## Reading a field -/

namespace Json.IsCode

variable {v : Json}

theorem of_filled? (h : v.IsCode) {s : String} (hs : v.filled? = some s) : Balanced s := by
  unfold filled? at hs
  split at hs <;> cases hs
  exact h

theorem filledOr (h : v.IsCode) {fallback : String} (hf : Balanced fallback) :
    Balanced (v.filled?.getD fallback) := by
  rcases hv : v.filled? with _ | s
  · exact hf
  · exact h.of_filled? hv

theorem filledMap (h : v.IsCode) {f : String → String} (hf : ∀ s, Balanced s → Balanced (f s)) :
    Balanced ((v.filled?.map f).getD "") := by
  rcases hv : v.filled? with _ | s
  · exact balanced_empty
  · exact hf s (h.of_filled? hv)

end Json.IsCode

namespace Element.Bracketed

variable {e e' : Element}

theorem rawValue (h : e.Bracketed) {name : String} (hname : (Json.string name).isBound = true) :
    (e.rawValue name).IsCode := by
  unfold Element.rawValue
  rcases hv : Table.get? (.string name) e.attrsMap with _ | v <;> rw [hv]
  · decide
  · exact h.raw _ (Table.mem_of_get? hv) hname

/-- An element with other bindings. -/
theorem of_unbound (h : e.Bracketed) (hu : e'.unbound = e.unbound) (hb : e'.toBindings.Bracketed) :
    e'.Bracketed := by
  have he' : e' = { e with toBindings := e'.toBindings } :=
    congrArg (fun x : Element => { x with toBindings := e'.toBindings }) hu
  rw [he']
  exact ⟨⟨hb, h.tag, h.codes, h.raw, h.directives⟩, h.targets⟩

end Element.Bracketed

/-! ## Trees -/

def Node.Bracketed (n : Node) : Prop :=
  match n.content with
  | .element e => e.Bracketed
  | .expression code _ => code.IsCode
  | .text _ | .comment _ => True

def Tree.Bracketed (t : Tree) : Prop :=
  ∀ i n, t.node? i = some n → n.Bracketed

namespace Tree.Bracketed

variable {t u : Tree} {i : Nat} {e : Element}

theorem contents (h : t.Bracketed) : t.Contents fun c => Node.Bracketed { content := c } :=
  h

theorem element (h : t.Bracketed) (he : t.element? i = some e) : e.Bracketed :=
  h.contents.element he

theorem modifyElement (h : t.Bracketed) {f : Element → Element} (hf : ∀ e, e.Bracketed → (f e).Bracketed) :
    (t.modifyElement i f).Bracketed :=
  h.contents.modifyElement hf

/-- Flags are not printed. -/
theorem of_unflag (h : t.Bracketed) (hu : u.unflag = t.unflag) : u.Bracketed :=
  h.contents.of_unflag hu

end Tree.Bracketed

end TemplateCompiler
