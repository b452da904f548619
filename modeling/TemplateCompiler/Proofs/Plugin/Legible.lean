import TemplateCompiler.Proofs.Generator.Ends
import TemplateCompiler.Proofs.Plugin.Frame

/-!
# The standard directives can be relied on

A standard directive keeps a legible element legible, lists nothing new, and gives up only if a field of the
element or of the directive cannot be read (`sound_standard`). This holds whatever failures are admitted. For the
controls of a two-way binding, `Model.Safe F x` says that `x` keeps the element legible and fails in admitted
ways only.
-/

namespace TemplateCompiler

variable {F : Failure → Prop}

theorem Element.listed_eq_of_unbound {e e' : Element} (h : e'.unbound = e.unbound) (k : Link) :
    e'.listed k = e.listed k := by
  have hu (e : Element) : e.unbound.listed k = e.listed k := by cases k <;> rfl
  rw [← hu, h, hu]

/-! ## Adding bindings -/

theorem Events.Legible.add {events : Events} (h : events.Legible F) (name : String) {handler : Handler}
    (hh : handler.Legible F) (important : Bool) : (events.add name handler important).Legible F := by
  have hothers : ∀ x ∈ (Table.get? name events).getD [], x.Legible F := by
    rcases hget : Table.get? name events with _ | others
    · nofun
    · exact h _ (Table.mem_of_get? hget)
  intro e he x hx
  rcases Table.mem_put he with he | rfl
  · exact h e he x hx
  · dsimp only at hx
    split at hx
    · exact (List.mem_cons.mp hx).elim (fun h => h ▸ hh) (hothers x)
    · rcases List.mem_append.mp hx with hx | hx
      · exact hothers x hx
      · exact List.mem_singleton.mp hx ▸ hh

namespace Element.Legible

variable {e e' : Element}

/-- Only the bindings of an element have changed. -/
theorem of_unbound (h : e.Legible F) (hu : e'.unbound = e.unbound) (hb : e'.toBindings.Legible F) :
    e'.Legible F := by
  have htag : e'.tag = e.tag := show e'.unbound.tag = e.unbound.tag by rw [hu]
  have hdirectives : e'.directives = e.directives :=
    show e'.unbound.directives = e.unbound.directives by rw [hu]
  exact ⟨htag ▸ h.tag, hb, hdirectives ▸ h.directives⟩

theorem addProp (h : e.Legible F) {a : Attr} (ha : a.Legible F) : (e.addProp a).Legible F := by
  refine h.of_unbound rfl { h.bindings with props := fun b hb => ?_ }
  rcases List.mem_append.mp hb with hb | hb
  · exact h.bindings.props b hb
  · exact List.mem_singleton.mp hb ▸ ha

/-- A listener without modifiers. -/
theorem addHandler (h : e.Legible F) {l : Listener} (hl : l.modifiers = none) : (e.addHandler l).Legible F := by
  have hresolve : l.resolve = (l.name, false, none) := by
    unfold Listener.resolve Listener.given
    rw [hl]
    rfl
  have hhandler : l.handler.Legible F := by
    refine ⟨.inr ⟨_, rfl⟩, .inr fun m hm => ?_⟩
    rw [Listener.handler, hresolve] at hm
    cases hm
  refine h.of_unbound (e.unbound_addHandler l) ?_
  unfold Element.addHandler
  rw [hresolve]
  exact { h.bindings with events := h.bindings.events.add l.name hhandler l.important }

theorem takeAttr (h : e.Legible F) (name : String) : (e.takeAttr name false).2.Legible F := by
  refine h.of_unbound (e.unbound_takeAttr name) ?_
  show (if (e.rawValue name).isNull then e
    else { e with attrsList := e.attrsList.eraseP (·.name.isText name) }).toBindings.Legible F
  split
  · exact h.bindings
  · exact { h.bindings with }

theorem takeBinding (h : e.Legible F) (name : String) (withStatic : Bool) :
    (e.takeBinding name withStatic).2.Legible F := by
  have hafter := h.takeAttr (":" ++ name)
  have hrest := hafter.takeAttr ("v-bind:" ++ name)
  unfold Element.takeBinding
  dsimp only
  split <;> split
  · exact hafter
  · split
    · exact hafter.takeAttr name
    · exact hafter
  · exact hrest
  · split
    · exact hrest.takeAttr name
    · exact hrest

end Element.Legible

/-! ## Two-way bindings -/

namespace Model

variable {α β : Type}

/-- The control keeps an element legible, and fails in admitted ways only. -/
def Safe (F : Failure → Prop) (x : Control α) : Prop :=
  ∀ e, e.Legible F → Within F (x.run.run e).1 ∧ (x.run.run e).2.Legible F

namespace Safe

theorem pure (a : α) : Safe F (pure a) :=
  fun _ he => ⟨.ok a, he⟩

theorem throw {f : Failure} (hf : F f) : Safe F (throw f : Control α) :=
  fun _ he => ⟨.error hf, he⟩

theorem get : Safe F get :=
  fun e he => ⟨.ok e, he⟩

theorem modify {f : Element → Element} (h : ∀ e, e.Legible F → (f e).Legible F) :
    Safe F (modify f : Control Unit) :=
  fun e he => ⟨.ok (), h e he⟩

theorem bind {x : Control α} {f : α → Control β} (hx : Safe F x) (hf : ∀ a, Safe F (f a)) :
    Safe F (x >>= f) := by
  intro e he
  obtain ⟨hresult, hafter⟩ := hx e he
  rw [run_bind]
  rcases h : x.run.run e with ⟨failure | a, e'⟩
  · rw [h] at hresult hafter
    exact ⟨.error (hresult failure rfl), hafter⟩
  · rw [h] at hafter
    exact hf a e' hafter

end Safe

theorem safe_listen (names : Names) (event code : String) : Safe F (listen names event code) :=
  .modify fun _ he => he.addHandler rfl

theorem safe_setProp (name value : String) : Safe F (setProp name value) :=
  .modify fun _ he => he.addProp ⟨.inr ⟨name, rfl⟩, .inr ⟨value, rfl⟩⟩

theorem safe_bindingOr (name fallback : String) : Safe F (bindingOr name fallback) :=
  fun _ he => ⟨.ok _, he.takeBinding name true⟩

theorem safe_assign {u : Use} (hu : F .targetNotText ∨ u.target.IsString) (names : Names) (value : String) :
    Safe F (u.assign names value) := by
  unfold Use.assign
  split
  · exact .pure _
  · rename_i hne
    rcases hu with hF | ⟨s, hs⟩
    · exact .throw hF
    · exact absurd hs (hne s)

theorem safe_control {u : Use} (hu : F .targetNotText ∨ u.target.IsString) (names : Names) (kind : Kind) :
    Safe F (kind.control names u) := by
  cases kind with
  | component =>
    exact .bind (safe_assign hu names _) fun _ => .modify fun _ he => he.of_unbound rfl { he.bindings with }
  | select => exact .bind (safe_assign hu names _) fun _ => safe_listen names _ _
  | checkbox =>
    refine .bind (safe_bindingOr _ _) fun value => .bind (safe_bindingOr _ _) fun yes => ?_
    refine .bind (safe_bindingOr _ _) fun no => .bind (safe_setProp _ _) fun _ => ?_
    refine .bind (safe_assign hu names _) fun added => .bind (safe_assign hu names _) fun removed => ?_
    exact .bind (safe_assign hu names _) fun single => safe_listen names _ _
  | radio =>
    refine .bind (safe_bindingOr _ _) fun value => .bind (safe_setProp _ _) fun _ => ?_
    exact .bind (safe_assign hu names _) fun _ => safe_listen names _ _
  | text =>
    refine .bind .get fun e => .bind (safe_assign hu names _) fun assign => ?_
    refine .bind (safe_setProp _ _) fun _ => .bind (safe_listen names _ _) fun _ => ?_
    split
    · exact .modify fun _ he => he.addHandler rfl
    · exact .pure _
  | unsupported => exact .pure _

theorem within_kindOf (reserved : String → Bool) {e : Element} (he : e.Legible F) :
    Within F (kindOf reserved e) := by
  unfold kindOf
  dsimp only
  split
  · exact .ok _
  split
  · exact .ok _
  split
  · exact .ok _
  split
  · exact .ok _
  split
  · exact .ok _
  · exact .bind (within_check reserved he.tag) fun _ _ => .ok _

theorem safe_compile (c : Config) (site : Site) {e : Element} (he : e.Legible F) {d : Directive}
    (hd : d.Legible F) :
    (compile c site e d).element.Legible F ∧ Within F (compile c site e d).reply := by
  have hu : F .targetNotText ∨ (Use.ofDirective d).target.IsString := by
    unfold Use.ofDirective
    rcases hd with hF | hd | hd
    · exact .inl hF
    · refine .inr ?_
      dsimp only
      split
      · exact hd
      · exact ⟨_, rfl⟩
    · exact .inr ⟨"", if_neg (by rw [hd]; decide)⟩
  unfold compile
  dsimp only
  split
  · rename_i failure hkind
    exact ⟨he, .error (within_kindOf c.reserved he failure hkind)⟩
  · rename_i kind _
    obtain ⟨hresult, hafter⟩ := safe_control hu c.names kind e he
    exact ⟨hafter, hresult.map _⟩

end Model

/-! ## All standard directives -/

theorem sound_standard (names : Names) (reserved : String → Bool) {o : Options}
    (ho : o.directives = DirectivePlugin.standard names reserved) : o.Sound F := by
  intro name p h site e d he hd
  rw [ho] at h
  suffices hsafe : (p.compile site e d).element.Legible F ∧ Within F (p.compile site e d).reply by
    refine ⟨hsafe.1, fun k => ?_, hsafe.2⟩
    rw [Element.listed_eq_of_unbound (unbound_standard h site e d)]
    exact List.Subset.refl _
  have hdom (kind : PluginKind) (property : String) :
      ((DirectivePlugin.domProperty kind property names).compile site e d).element.Legible F ∧
        Within F ((DirectivePlugin.domProperty kind property names).compile site e d).reply := by
    unfold DirectivePlugin.domProperty
    dsimp only
    split
    · exact ⟨he.addProp ⟨.inr ⟨_, rfl⟩, .inr ⟨_, rfl⟩⟩, .ok _⟩
    · exact ⟨he, .ok _⟩
  simp only [DirectivePlugin.standard, Table.get?] at h
  split at h
  · cases h; exact ⟨he.of_unbound rfl { he.bindings with }, .ok _⟩
  split at h
  · cases h; exact ⟨he.of_unbound rfl { he.bindings with }, .ok _⟩
  split at h
  · cases h; exact ⟨he, .ok _⟩
  split at h
  · cases h; exact hdom _ _
  split at h
  · cases h; exact hdom _ _
  split at h
  · cases h; exact Model.safe_compile _ site he hd
  · cases h

end TemplateCompiler
