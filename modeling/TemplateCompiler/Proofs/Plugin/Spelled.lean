import TemplateCompiler.Proofs.Tree.Spelled

/-!
# The characters that the standard directives add

A standard directive keeps an element over an alphabet, if the names of the helpers are over it as well
(`over_standard`): what it adds is made of the texts of the element and of the directive, of helper names, and of code
of its own.
-/

namespace TemplateCompiler

open Text

variable {P : Char → Prop}

/-! ## Targets -/

namespace ModelPath

theorem over_splitAtPoint (hP : Alphabet P) {cs : List Char} (h : ∀ c ∈ cs, P c) :
    Text.Over P (splitAtPoint cs).object ∧ ∀ k ∈ (splitAtPoint cs).key, Text.Over P k := by
  have hquote : P '"' := hP.printable _ (by decide)
  have hspan := List.span_eq_takeWhile_dropWhile (p := (· != '.')) (l := cs.reverse)
  have hreverse : ∀ c ∈ cs.reverse, P c := fun c hc => h c (List.mem_reverse.mp hc)
  unfold splitAtPoint
  split
  · next last _ rest hsplit =>
    rw [hspan, Prod.mk.injEq] at hsplit
    have hlast : ∀ c ∈ last, P c := fun c hc => hreverse c ((List.takeWhile_subset _) (hsplit.1 ▸ hc))
    have hrest : ∀ c ∈ rest, P c := fun c hc =>
      hreverse c ((List.dropWhile_subset _) (hsplit.2 ▸ List.mem_cons_of_mem _ hc))
    refine ⟨over_ofList.mpr fun c hc => hrest c (List.mem_reverse.mp hc), fun k hk => ?_⟩
    obtain rfl := Option.mem_some_iff.mp hk
    simp only [over_ofList, List.forall_mem_append, List.forall_mem_cons, List.mem_reverse]
    exact ⟨⟨hquote, hlast⟩, hquote, List.forall_mem_nil P⟩
  · exact ⟨over_ofList.mpr h, fun k hk => absurd hk (Option.not_mem_none k)⟩

theorem over_assignment (hP : Alphabet P) {names : Names} (hn : names.Over P) {target value : String}
    (ht : Text.Over P target) (hv : Text.Over P value) : Text.Over P (assignment names target value) := by
  have hchars : ∀ c ∈ trimChars target.toList, P c := over_ofList.mp ht.trim
  have hparts : Text.Over P (parse target).object ∧ ∀ k ∈ (parse target).key, Text.Over P k := by
    unfold parse
    dsimp only
    split
    · refine ⟨over_ofList.mpr fun c hc => hchars c (List.mem_of_mem_take hc), fun k hk => ?_⟩
      obtain rfl := Option.mem_some_iff.mp hk
      exact over_ofList.mpr fun c hc => hchars c (List.mem_of_mem_take (List.mem_of_mem_drop hc))
    · exact over_splitAtPoint hP hchars
  unfold assignment
  dsimp only
  split
  · simp only [over_append]
    exact ⟨⟨ht, hP.fixed rfl⟩, hv⟩
  · next key hkey =>
    simp (disch := decide +kernel) only [over_append, hP.fixed, hn _, hparts.1, hparts.2 key hkey, hv, and_self]

end ModelPath

/-! ## Adding bindings -/

theorem Events.Over.add {events : Events} (h : events.Over P) {name : String} (hname : Text.Over P name)
    {handler : Handler} (hhandler : handler.Over P) (important : Bool) :
    (events.add name handler important).Over P := by
  have hothers : ∀ h ∈ (Table.get? name events).getD [], h.Over P := by
    rcases hget : Table.get? name events with _ | others
    · nofun
    · exact (h _ (Table.mem_of_get? hget)).2
  intro e he
  rcases Table.mem_put he with he | rfl
  · exact h e he
  · refine ⟨hname, fun h' hh' => ?_⟩
    dsimp only at hh'
    split at hh'
    · exact (List.mem_cons.mp hh').elim (fun h => h ▸ hhandler) (hothers h')
    · rcases List.mem_append.mp hh' with hh' | hh'
      · exact hothers h' hh'
      · exact List.mem_singleton.mp hh' ▸ hhandler

namespace Element.Over

variable {e : Element}

theorem addProp (h : e.Over P) {a : Attr} (ha : a.Over P) : (e.addProp a).Over P := by
  refine h.of_unbound rfl { h.bindings with props := fun b hb => ?_ }
  rcases List.mem_append.mp hb with hb | hb
  · exact h.bindings.props b hb
  · exact List.mem_singleton.mp hb ▸ ha

/-- A listener without modifiers goes to the events under its own name. -/
theorem addHandler (h : e.Over P) {l : Listener} (hm : l.modifiers = none) (hname : Text.Over P l.name)
    (hv : Text.Over P l.value) : (e.addHandler l).Over P := by
  have hresolve : l.resolve = (l.name, false, none) := by
    unfold Listener.resolve Listener.given
    rw [hm]
    rfl
  have hhandler : l.handler.Over P := by
    unfold Listener.handler
    rw [hresolve]
    exact ⟨Json.over_string.mpr hv.trim, List.forall_mem_nil _⟩
  refine h.of_unbound (e.unbound_addHandler l) ?_
  unfold Element.addHandler
  rw [hresolve]
  exact { h.bindings with events := h.bindings.events.add hname hhandler l.important }

theorem takeAttr (h : e.Over P) (name : String) : (e.takeAttr name false).2.Over P := by
  refine h.of_unbound (e.unbound_takeAttr name) ?_
  show (if (e.rawValue name).isNull then e
    else { e with attrsList := e.attrsList.eraseP (·.name.isText name) }).toBindings.Over P
  split
  · exact h.bindings
  · exact { h.bindings with }

theorem takeBinding (hP : Alphabet P) (h : e.Over P) (name : String) (withStatic : Bool) :
    (e.takeBinding name withStatic).1.Over P ∧ (e.takeBinding name withStatic).2.Over P := by
  have hafter := h.takeAttr (":" ++ name)
  have hrest := hafter.takeAttr ("v-bind:" ++ name)
  have hnull : Json.null.Over P := List.forall_mem_nil P
  have hliteral {v : Json} (hv : v.Over P) : (if v.isNull then Json.null else .string v.spaced).Over P := by
    split
    · exact hnull
    · exact Json.over_string.mpr (Json.over_spaced hP v hv)
  unfold Element.takeBinding
  dsimp only
  split <;> split
  · exact ⟨h.rawValue _, hafter⟩
  · split
    · exact ⟨hliteral (hafter.rawValue _), hafter.takeAttr name⟩
    · exact ⟨hnull, hafter⟩
  · exact ⟨hafter.rawValue _, hrest⟩
  · split
    · exact ⟨hliteral (hrest.rawValue _), hrest.takeAttr name⟩
    · exact ⟨hnull, hrest⟩

end Element.Over

/-! ## Two-way bindings -/

namespace Model

variable {names : Names} {u : Use} (hP : Alphabet P) (hn : names.Over P) (hu : u.target.Over P)

include hP hn

theorem over_number {code : String} (hc : Text.Over P code) : Text.Over P (u.number names code) := by
  unfold Use.number
  split
  · simp (disch := decide +kernel) only [over_append, hP.fixed, hn _, hc, and_self]
  · exact hc

omit hn in
theorem keeps_bindingOr (name : String) {fallback : String} (hf : Text.Over P fallback) :
    Keeps (Element.Over P) (bindingOr name fallback) (Text.Over P) := by
  intro e he
  obtain ⟨hvalue, hafter⟩ := he.takeBinding hP name true
  exact ⟨hafter, fun a ha => Except.ok.inj ha ▸ hvalue.filledOr hP hf⟩

omit hP hn in
theorem keeps_listen {event code : String} (hevent : Text.Over P event) (hc : Text.Over P code) :
    Keeps (Element.Over P) (listen names event code) fun _ => True :=
  .modify fun _ he => he.addHandler rfl hevent hc

omit hP hn in
theorem keeps_setProp {name value : String} (hname : Text.Over P name) (hv : Text.Over P value) :
    Keeps (Element.Over P) (setProp name value) fun _ => True :=
  .modify fun _ he => he.addProp ⟨Json.over_string.mpr hname, Json.over_string.mpr hv⟩

include hu

theorem keeps_assign {value : String} (hv : Text.Over P value) :
    Keeps (Element.Over P) (u.assign names value) (Text.Over P) := by
  unfold Use.assign
  split
  · next target ht => exact .pure (ModelPath.over_assignment hP hn (Json.over_string.mp (ht ▸ hu)) hv)
  · exact .throw _

theorem keeps_control (kind : Kind) : Keeps (Element.Over P) (kind.control names u) fun _ => True := by
  have htext : Text.Over P u.text := hu.shown hP
  have hassign {value : String} (hv : Text.Over P value) := keeps_assign hP hn hu hv
  have hbinding {name fallback : String} (hf : fallback.toList.all isPrintable = true) :=
    keeps_bindingOr hP name (hP.fixed hf)
  cases kind with
  | component =>
    refine .bind (hassign (over_number hP hn ?_)) fun assign hassign => ?_
    · split <;> exact hP.fixed (by decide)
    refine .modify fun e he => he.of_unbound rfl { he.bindings with model := fun m hm => ?_ }
    obtain rfl := Option.mem_some_iff.mp hm
    simp (disch := decide +kernel) only [ModelBinding.Over, Json.over_string, over_append, hP.fixed, htext, hassign,
      Json.over_quote hP htext, and_self]
  | select =>
    have hval : Text.Over P (u.number names "val") := over_number hP hn (hP.fixed (by decide))
    refine .bind (hassign (hP.fixed (by decide))) fun assign hassign => keeps_listen (hP.fixed (by decide)) ?_
    simp (disch := decide +kernel) only [over_append, hP.fixed, hval, hassign, and_self]
  | checkbox =>
    refine .bind (hbinding (by decide)) fun value hvalue => .bind (hbinding (by decide)) fun yes hyes => ?_
    refine .bind (hbinding (by decide)) fun no hno => .bind (keeps_setProp (hP.fixed (by decide)) ?_) fun _ _ => ?_
    · split <;> simp (disch := decide +kernel) only [over_append, hP.fixed, hn _, htext, hvalue, hyes, and_self]
    refine .bind (hassign (hP.fixed (by decide))) fun added hadded => ?_
    refine .bind (hassign (hP.fixed (by decide))) fun removed hremoved => ?_
    refine .bind (hassign (hP.fixed (by decide))) fun single hsingle => keeps_listen (hP.fixed (by decide)) ?_
    simp (disch := decide +kernel) only [over_append, hP.fixed, hn _, htext, hyes, hno, hadded, hremoved, hsingle,
      over_number hP hn hvalue, and_self]
  | radio =>
    refine .bind (hbinding (by decide)) fun value hvalue => ?_
    have hnumber := over_number (u := u) hP hn hvalue
    refine .bind (keeps_setProp (hP.fixed (by decide)) ?_) fun _ _ => ?_
    · simp (disch := decide +kernel) only [over_append, hP.fixed, hn _, htext, hnumber, and_self]
    · exact .bind (hassign hnumber) fun assign hassign => keeps_listen (hP.fixed (by decide)) hassign
  | text =>
    refine .bind .get fun e _ => .bind (hassign (over_number hP hn ?_)) fun assign hassign => ?_
    · split <;> exact hP.fixed (by decide)
    refine .bind (keeps_setProp (hP.fixed (by decide)) ?_) fun _ _ => ?_
    · simp (disch := decide +kernel) only [over_append, hP.fixed, htext, and_self]
    refine .bind (keeps_listen ?_ ?_) fun _ _ => ?_
    · split
      · exact hP.fixed (by decide)
      · split <;> exact hP.fixed (by decide)
    · split
      · simp (disch := decide +kernel) only [over_append, hP.fixed, hassign, and_self]
      · exact hassign
    split
    · have hblur : Text.Over P "blur" := hP.fixed (by decide)
      refine .modify fun e he => he.addHandler rfl hblur ?_
      simp (disch := decide +kernel) only [over_append, hP.fixed, hn _, and_self]
    · exact .pure trivial
  | unsupported => exact .pure trivial

omit hu in
theorem over_compile (reserved : String → Bool) (site : Site) {e : Element} (he : e.Over P) {d : Directive}
    (hd : d.Over P) : (compile { names, reserved } site e d).element.Over P := by
  have hu : (Use.ofDirective d).target.Over P := by
    unfold Use.ofDirective
    dsimp only
    split
    · exact hd.value
    · exact Json.over_string.mpr over_empty
  unfold compile
  dsimp only
  split
  · exact he
  · exact (keeps_control hP hn hu _ e he).1

end Model

/-! ## All standard directives -/

/-- A directive that sets a property to text. -/
theorem over_domProperty (hP : Alphabet P) {names : Names} (hn : names.Over P) (kind : PluginKind)
    {property : String} (hp : Text.Over P property) (site : Site) {e : Element} (he : e.Over P) {d : Directive}
    (hd : d.Over P) : ((DirectivePlugin.domProperty kind property names).compile site e d).element.Over P := by
  unfold DirectivePlugin.domProperty
  dsimp only
  split
  · next v hv =>
    refine he.addProp ⟨Json.over_string.mpr hp, Json.over_string.mpr ?_⟩
    simp (disch := decide +kernel) only [over_append, hP.fixed, hn _, hd.value.of_filled? hP hv, and_self]
  · exact he

theorem over_standard (hP : Alphabet P) {names : Names} (hn : names.Over P) {reserved : String → Bool}
    {p : DirectivePlugin} {name : String} (h : Table.get? name (DirectivePlugin.standard names reserved) = some p)
    (site : Site) {e : Element} (he : e.Over P) {d : Directive} (hd : d.Over P) :
    (p.compile site e d).element.Over P := by
  simp only [DirectivePlugin.standard, Table.get?] at h
  split at h
  · cases h
    refine he.of_unbound rfl { he.bindings with wrapListeners := fun l hl => ?_ }
    obtain rfl := Option.mem_some_iff.mp hl
    exact ⟨hn _, hd.value⟩
  split at h
  · cases h
    refine he.of_unbound rfl { he.bindings with wrapData := fun w hw => ?_ }
    obtain rfl := Option.mem_some_iff.mp hw
    exact ⟨hn _, he.tag, hd.value⟩
  split at h
  · cases h; exact he
  split at h
  · cases h; exact over_domProperty hP hn _ (hP.fixed (by decide)) site he hd
  split at h
  · cases h; exact over_domProperty hP hn _ (hP.fixed (by decide)) site he hd
  split at h
  · cases h; exact Model.over_compile hP hn reserved site he hd
  · cases h

end TemplateCompiler
