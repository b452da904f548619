import TemplateCompiler.Plugin.Standard

/-!
# What the standard directives leave alone

A standard directive changes the bindings of an element and nothing else: `Element.unbound` drops the
bindings, and `unbound_standard` says that what is left is the same after any of the plugins ran, also if
it gave up half way. The controls of a two-way binding are made of small steps, so `Model.Framed` has a rule
for each of them.
-/

namespace TemplateCompiler

namespace Element

/-- The element without what plugins may change. -/
def unbound (e : Element) : Element :=
  { e with toBindings := {} }

@[simp] theorem unbound_addProp (e : Element) (a : Attr) : (e.addProp a).unbound = e.unbound := rfl

@[simp] theorem unbound_addHandler (e : Element) (l : Listener) :
    (e.addHandler l).unbound = e.unbound := by
  unfold addHandler
  split
  · split <;> rfl

@[simp] theorem unbound_takeAttr (e : Element) (name : String) :
    (e.takeAttr name false).2.unbound = e.unbound := by
  show (if (e.rawValue name).isNull then e
    else { e with attrsList := e.attrsList.eraseP (·.name.isText name) }).unbound = e.unbound
  split <;> rfl

@[simp] theorem unbound_takeBinding (e : Element) (name : String) (withStatic : Bool) :
    (e.takeBinding name withStatic).2.unbound = e.unbound := by
  unfold takeBinding
  dsimp only
  split <;> split
  · simp
  · split <;> simp
  · simp
  · split <;> simp

end Element

namespace Model

variable {α β : Type}

theorem run_bind (x : Control α) (f : α → Control β) (e : Element) :
    (ExceptT.run (x >>= f)).run e =
      match x.run.run e with
      | (.ok a, e') => (f a).run.run e'
      | (.error failure, e') => (.error failure, e') := by
  simp only [ExceptT.run_bind, StateT.run_bind]
  rcases h : x.run.run e with ⟨_ | a, e'⟩ <;> simp_all <;> rfl

/-- The control keeps what the element has, and what it returns has `Q`. -/
def Keeps (I : Element → Prop) (x : Control α) (Q : α → Prop) : Prop :=
  ∀ e, I e → I (x.run.run e).2 ∧ ∀ a, (x.run.run e).1 = .ok a → Q a

namespace Keeps

variable {I : Element → Prop} {Q : α → Prop} {R : β → Prop}

theorem pure {a : α} (h : Q a) : Keeps I (pure a) Q :=
  fun _ he => ⟨he, fun _ hb => Except.ok.inj hb ▸ h⟩

theorem throw (f : Failure) : Keeps I (throw f : Control α) Q :=
  fun _ he => ⟨he, fun _ hb => nomatch hb⟩

theorem modify {f : Element → Element} (h : ∀ e, I e → I (f e)) : Keeps I (modify f : Control Unit) fun _ => True :=
  fun e he => ⟨h e he, fun _ _ => trivial⟩

theorem get : Keeps I get fun _ => True :=
  fun _ he => ⟨he, fun _ _ => trivial⟩

theorem bind {x : Control α} {f : α → Control β} (hx : Keeps I x Q) (hf : ∀ a, Q a → Keeps I (f a) R) :
    Keeps I (x >>= f) R := by
  intro e he
  obtain ⟨hafter, hresult⟩ := hx e he
  rw [run_bind]
  rcases h : x.run.run e with ⟨_ | a, e'⟩
  · rw [h] at hafter
    exact ⟨hafter, fun _ hb => nomatch hb⟩
  · rw [h] at hafter hresult
    exact hf a (hresult a rfl) e' hafter

end Keeps

/-- Steps that change bindings only. -/
def Framed (x : Control α) : Prop :=
  ∀ e, (x.run.run e).2.unbound = e.unbound

namespace Framed

theorem pure (a : α) : Framed (pure a) := fun _ => rfl

theorem throw (f : Failure) : Framed (throw f : Control α) := fun _ => rfl

theorem get : Framed get := fun _ => rfl

theorem modify {f : Element → Element} (h : ∀ e, (f e).unbound = e.unbound) :
    Framed (modify f : Control Unit) := h

theorem bind {x : Control α} {f : α → Control β} (hx : Framed x) (hf : ∀ a, Framed (f a)) :
    Framed (x >>= f) := by
  intro e
  have hxe := hx e
  rw [run_bind]
  rcases h : x.run.run e with ⟨_ | a, e'⟩
  · rw [h] at hxe; exact hxe
  · rw [h] at hxe; exact (hf a e').trans hxe

theorem assign (u : Use) (names : Names) (value : String) : Framed (u.assign names value) := by
  unfold Use.assign
  split
  · exact pure _
  · exact throw _

end Framed

theorem framed_listen (names : Names) (event code : String) : Framed (listen names event code) :=
  .modify fun e => e.unbound_addHandler _

theorem framed_setProp (name value : String) : Framed (setProp name value) :=
  .modify fun _ => rfl

theorem framed_bindingOr (name fallback : String) : Framed (bindingOr name fallback) :=
  fun e => e.unbound_takeBinding name true

theorem framed_control (names : Names) (u : Use) (kind : Kind) : Framed (kind.control names u) := by
  cases kind with
  | component => exact .bind (.assign u names _) fun _ => .modify fun _ => rfl
  | select => exact .bind (.assign u names _) fun _ => framed_listen names _ _
  | checkbox =>
    refine .bind (framed_bindingOr _ _) fun value => .bind (framed_bindingOr _ _) fun yes => ?_
    refine .bind (framed_bindingOr _ _) fun no => .bind (framed_setProp _ _) fun _ => ?_
    refine .bind (.assign u names _) fun added => .bind (.assign u names _) fun removed => ?_
    exact .bind (.assign u names _) fun single => framed_listen names _ _
  | radio =>
    refine .bind (framed_bindingOr _ _) fun value => .bind (framed_setProp _ _) fun _ => ?_
    exact .bind (.assign u names _) fun _ => framed_listen names _ _
  | text =>
    refine .bind .get fun e => .bind (.assign u names _) fun assign => ?_
    refine .bind (framed_setProp _ _) fun _ => .bind (framed_listen names _ _) fun _ => ?_
    split
    · exact .modify fun e => e.unbound_addHandler _
    · exact .pure _
  | unsupported => exact .pure _

theorem unbound_compile (c : Config) (site : Site) (e : Element) (d : Directive) :
    (compile c site e d).element.unbound = e.unbound := by
  unfold compile
  dsimp only
  split
  · rfl
  · exact framed_control _ _ _ e

end Model

/-- A standard plugin changes the bindings of an element and nothing else. -/
theorem unbound_standard {names : Names} {reserved : String → Bool} {name : String}
    {p : DirectivePlugin} (h : Table.get? name (DirectivePlugin.standard names reserved) = some p)
    (site : Site) (e : Element) (d : Directive) : (p.compile site e d).element.unbound = e.unbound := by
  have hdom (kind : PluginKind) (property : String) :
      ((DirectivePlugin.domProperty kind property names).compile site e d).element.unbound =
        e.unbound := by
    unfold DirectivePlugin.domProperty
    dsimp only
    split <;> rfl
  simp only [DirectivePlugin.standard, Table.get?] at h
  split at h
  · cases h; rfl
  split at h
  · cases h; rfl
  split at h
  · cases h; rfl
  split at h
  · cases h; exact hdom _ _
  split at h
  · cases h; exact hdom _ _
  split at h
  · cases h; exact Model.unbound_compile _ site e d
  · cases h

end TemplateCompiler
