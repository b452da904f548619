import TemplateCompiler.Generator.Element
import TemplateCompiler.Proofs.Code.Plain

/-!
# Fields that can be read

Tags, attributes and listeners have to be texts where code is made of them; else reading them fails. Given the
failures that are admitted, `Element.Legible F e` says that every field of `e` is a text, unless the failure that
it would cause is admitted. Then whatever fails while the fields are read fails in an admitted way
(`Within F`). With no failure admitted, this is a matter of the kinds of the fields, and reading succeeds. With
all failures admitted but the one for depth, every element is legible, and only depth is at stake.
-/

namespace TemplateCompiler

/-- `x` fails, if at all, in a way that `F` admits. -/
def Within {α : Type} (F : Failure → Prop) (x : Except Failure α) : Prop :=
  ∀ f, x = .error f → F f

namespace Within

variable {α β : Type} {F : Failure → Prop}

theorem ok (a : α) : Within F (.ok a) := fun _ h => nomatch h

theorem error {f : Failure} (h : F f) : Within F (.error f : Except Failure α) :=
  fun _ hf => Except.error.inj hf ▸ h

theorem bind {x : Except Failure α} {f : α → Except Failure β} (hx : Within F x)
    (hf : ∀ a, x = .ok a → Within F (f a)) : Within F (x >>= f) := by
  cases x with
  | error e => exact error (hx e rfl)
  | ok a => exact hf a rfl

theorem map {x : Except Failure α} (hx : Within F x) (f : α → β) : Within F (x.map f) := by
  cases x with
  | error e => exact error (hx e rfl)
  | ok a => exact ok _

theorem mapM {f : α → Except Failure β} {xs : List α} (h : ∀ x ∈ xs, Within F (f x)) :
    Within F (xs.mapM f) := by
  induction xs with
  | nil => exact ok _
  | cons x xs ih =>
    obtain ⟨hx, hxs⟩ := List.forall_mem_cons.mp h
    rw [List.mapM_cons]
    exact hx.bind fun y _ => (ih hxs).bind fun ys _ => ok _

theorem foldlM {f : β → α → Except Failure β} {xs : List α} (b : β)
    (h : ∀ b, ∀ x ∈ xs, Within F (f b x)) : Within F (xs.foldlM f b) := by
  induction xs generalizing b with
  | nil => exact ok _
  | cons x xs ih =>
    rw [List.foldlM_cons]
    refine (h b x (List.mem_cons_self ..)).bind fun b' _ => ?_
    exact ih b' fun b x hx => h b x (List.mem_cons_of_mem _ hx)

theorem anyM {f : α → Except Failure Bool} {xs : List α} (h : ∀ x ∈ xs, Within F (f x)) :
    Within F (xs.anyM f) := by
  induction xs with
  | nil => exact ok _
  | cons x xs ih =>
    obtain ⟨hx, hxs⟩ := List.forall_mem_cons.mp h
    rw [List.anyM]
    refine hx.bind fun b _ => ?_
    cases b with
    | false => exact ih hxs
    | true => exact ok _

end Within

/-! ## Legible fields -/

def Json.IsString (v : Json) : Prop :=
  ∃ s, v = .string s

instance (v : Json) : Decidable v.IsString :=
  match v with
  | .string s => isTrue ⟨s, rfl⟩
  | .null | .bool _ | .int _ | .real _ | .array _ | .object _ => isFalse fun ⟨_, h⟩ => nomatch h

/-- A modifier that is a text and names no key by a number, or by one that can be read. -/
def Listener.Readable : Json → Prop
  | .string key => ((Listener.leadingNumber? key.toList).all fun n => n.value?.isSome) = true
  | _ => False

instance (key : Json) : Decidable (Listener.Readable key) :=
  match key with
  | .string _ => inferInstanceAs (Decidable (_ = true))
  | .null | .bool _ | .int _ | .real _ | .array _ | .object _ => isFalse id

section

variable (F : Failure → Prop)

structure Attr.Legible (a : Attr) : Prop where
  name : F .attrNameNotText ∨ a.name.IsString
  value : F .attrValueNotText ∨ a.value.IsString

structure Handler.Legible (h : Handler) : Prop where
  value : F .handlerNotText ∨ h.value.IsString
  keys : F .unreadableKey ∧ F .keyNotText ∨ ∀ m, h.modifiers = some m → ∀ key ∈ Table.keys m, Listener.Readable key

def Events.Legible (events : Events) : Prop :=
  ∀ e ∈ events, ∀ h ∈ e.2, h.Legible F

/-- A directive has a text as its value, or nothing. -/
def Directive.Legible (d : Directive) : Prop :=
  F .targetNotText ∨ d.value.IsString ∨ d.value.truthy = false

structure Bindings.Legible (b : Bindings) : Prop where
  attrs : ∀ a ∈ b.attrs.getD [], a.Legible F
  dynamicAttrs : ∀ a ∈ b.dynamicAttrs.getD [], a.Legible F
  props : ∀ a ∈ b.props, a.Legible F
  events : b.events.Legible F
  nativeEvents : b.nativeEvents.Legible F

structure Element.Legible (e : Element) : Prop where
  tag : F .tagNotText ∧ F .tagCompound ∨ e.tag.IsString
  bindings : e.toBindings.Legible F
  directives : ∀ d ∈ e.directives, d.Legible F

end

variable {F : Failure → Prop}

/-- If everything but running out of depth is admitted, then every element is legible. -/
theorem Element.legible_of_admits (hF : ∀ f, f ≠ .tooDeep → F f) (e : Element) : e.Legible F := by
  have hattr (a : Attr) : a.Legible F :=
    ⟨.inl (hF _ (by decide)), .inl (hF _ (by decide))⟩
  have hevents (events : Events) : events.Legible F :=
    fun _ _ _ _ => ⟨.inl (hF _ (by decide)), .inl ⟨hF _ (by decide), hF _ (by decide)⟩⟩
  refine ⟨.inl ⟨hF _ (by decide), hF _ (by decide)⟩, ?_, fun _ _ => .inl (hF _ (by decide))⟩
  exact ⟨fun a _ => hattr a, fun a _ => hattr a, fun a _ => hattr a, hevents _, hevents _⟩

/-! ## Tags -/

theorem within_check (reserved : String → Bool) {tag : Json}
    (h : F .tagNotText ∧ F .tagCompound ∨ tag.IsString) : Within F (Tag.check reserved tag) := by
  rcases h with ⟨htext, hcompound⟩ | ⟨s, rfl⟩
  · unfold Tag.check
    split
    · exact .ok _
    · exact .error hcompound
    · exact .error hcompound
    · exact .error htext
  · exact .ok _

namespace Element.Legible

variable {e : Element}

theorem maybeComponent (h : e.Legible F) (o : Options) : Within F (o.maybeComponent e) := by
  unfold Options.maybeComponent
  split
  · exact .ok _
  · exact (within_check o.reserved h.tag).map _

end Element.Legible

/-! ## Attributes and listeners -/

theorem within_propsEntries {props : List Attr} (h : ∀ a ∈ props, a.Legible F) :
    Within F (propsEntries props) := by
  refine .foldlM _ fun k a ha => ?_
  rcases (h a ha).value with hF | ⟨s, hs⟩
  · split
    · exact .ok _
    · exact .error hF
  · rw [hs]
    exact .ok _

namespace Listener

theorem within_textKeyTest {key : String} (h : F .unreadableKey ∨ Readable (.string key)) :
    Within F (textKeyTest key) := by
  unfold textKeyTest
  dsimp only
  split
  · exact .ok _
  · rename_i number hnumber
    split
    · rename_i hvalue
      rcases h with hF | hread
      · exact .error hF
      · rw [Readable, hnumber, Option.all_some, hvalue] at hread
        cases hread
    · exact .ok _

theorem within_keyTest {key : Json} (h : F .unreadableKey ∧ F .keyNotText ∨ Readable key) : Within F (keyTest key) := by
  cases key with
  | string key => exact within_textKeyTest (h.imp_left And.left)
  | _ => exact .error (h.elim And.right False.elim)

theorem within_statements {m : Modifiers}
    (h : F .unreadableKey ∧ F .keyNotText ∨ ∀ key ∈ Table.keys m, Readable key) : Within F (statements m) := by
  have hfilter : Within F (keyFilter ((Table.keys m).filter (isKey m))) := by
    refine .bind (.mapM fun key hkey => within_keyTest ?_) fun tests _ => .ok _
    exact h.imp_right fun h => h key (List.mem_filter.mp hkey).1
  unfold statements
  dsimp only
  split
  · exact .ok _
  · exact hfilter.bind fun s _ => .ok _

end Listener

theorem Handler.Legible.code {h : Handler} (hl : h.Legible F) : Within F h.code := by
  unfold Handler.code
  split
  · dsimp only
    split
    · split <;> exact .ok _
    · rename_i m hm
      exact .bind (Listener.within_statements (hl.keys.imp_right fun h => h m hm)) fun _ _ => .ok _
  · rename_i hne
    rcases hl.value with hF | ⟨s, hs⟩
    · exact .error hF
    · exact absurd hs (hne s)

theorem within_handlersCode {hs : List Handler} (h : ∀ x ∈ hs, x.Legible F) :
    Within F (handlersCode hs) := by
  unfold handlersCode
  split
  · exact .ok _
  · exact (h _ (List.mem_singleton_self _)).code
  · exact .bind (.mapM fun x hx => (h x hx).code) fun _ _ => .ok _

theorem Events.Legible.code {events : Events} (h : events.Legible F) (native : Bool) :
    Within F (eventsCode events native) := by
  refine .bind (.foldlM _ fun k e he => ?_) fun _ _ => .ok _
  exact .bind (within_handlersCode (h e he)) fun _ _ => .ok _

/-! ## Outlets and data -/

namespace Generator

theorem within_outletProps {e : Element} (h : e.Legible F) : Within F (outletProps e) := by
  have hall : ∀ a ∈ e.attrs.getD [] ++ e.dynamicAttrs.getD [], a.Legible F := by
    intro a ha
    exact (List.mem_append.mp ha).elim (h.bindings.attrs a) (h.bindings.dynamicAttrs a)
  have hcamel (a : Attr) (ha : a.Legible F) : Within F (camelAttr a) := by
    unfold camelAttr
    split
    · exact .ok _
    · rename_i hne
      rcases ha.name with hF | ⟨s, hs⟩
      · exact .error hF
      · exact absurd hs (hne s)
  unfold outletProps
  split
  · refine .bind (.mapM fun a ha => hcamel a (hall a ha)) fun camel hc => ?_
    refine .bind (within_propsEntries (mapM_ok (fun a ha b hb => ?_) hc)) fun _ _ => .ok _
    unfold camelAttr at hb
    split at hb <;> cases hb
    exact ⟨.inr ⟨_, rfl⟩, (hall a ha).value⟩
  · exact .ok _

theorem within_bindDynamicAttrs {e : Element} (h : e.Legible F) (data : Code) :
    Within F (bindDynamicAttrs e data) := by
  unfold bindDynamicAttrs
  dsimp only
  split
  · exact .ok _
  · exact .bind (within_propsEntries h.bindings.dynamicAttrs) fun _ _ => .ok _

/-! ## Children -/

theorem within_loopLevel {loop : Element} (h : loop.Legible F) (o : Options) (wanted : Bool) :
    Within F (loopLevel o loop wanted) := by
  unfold loopLevel
  split
  · exact (h.maybeComponent o).map _
  · exact .ok _

theorem within_listLevel {t : Tree} (h : ∀ i e, t.element? i = some e → e.Legible F) (o : Options)
    (children : List Nat) (wanted : Bool) : Within F (listLevel o t children wanted) := by
  have hlevel (cs : List Nat) : Within F (flatteningLevel o t cs) := by
    induction cs with
    | nil => exact .ok _
    | cons c rest ih =>
      unfold flatteningLevel
      split
      · exact ih
      · rename_i e he
        dsimp only
        split
        · exact .ok _
        refine .bind (.anyM fun a ha => ?_) fun _ _ => .bind ih fun _ _ => .ok _
        rcases List.mem_cons.mp ha with rfl | ha
        · exact (h c a he).maybeComponent o
        · obtain ⟨b, -, hb⟩ := List.mem_filterMap.mp ha
          exact (h _ a hb).maybeComponent o
  unfold listLevel
  split
  · exact hlevel children
  · exact .ok _

end Generator

end TemplateCompiler
