import TemplateCompiler.Proofs.Generator.Coupling
import TemplateCompiler.Proofs.Generator.Rebound
import TemplateCompiler.Proofs.Plugin.Drawn

/-!
# Generations under every naming

While code is generated under every naming at once, the states differ in bindings that plugins have written, and in
warnings. `Kept V t` says so of a family of states: in each of them the tree is `t` with drawn bindings. What an
emitter asks a state about is answered the same under every naming, and plugins keep the states alike.
-/

namespace TemplateCompiler

open Generator

variable {V : Json → Prop}

/-- What generation reads under a naming: the standard modules, and the standard directives with its names. -/
def Naming.options (I : Naming) (reserved : String → Bool) : Options :=
  { modules := CompilerModule.standard, directives := DirectivePlugin.standard I.names reserved, reserved }

/-! ## Values of a tree -/

namespace Tree

variable {t : Tree} {i : Nat} {e : Element} (ht : ∀ v, t.Writes v → V v)

include ht

theorem forall_values {n : Node} (hn : t.node? i = some n) : ∀ v ∈ n.values, V v :=
  fun v hv => ht v ⟨i, n, hn, hv⟩

theorem forall_element_values (he : t.element? i = some e) : ∀ v ∈ e.values, V v := by
  obtain ⟨n, hn, hne⟩ := Option.bind_eq_some_iff.mp he
  have hvalues := forall_values ht hn
  unfold Node.element? at hne
  unfold Node.values at hvalues
  split at hne
  · next hc =>
    cases hne
    rwa [hc] at hvalues
  · cases hne

theorem written (he : t.element? i = some e) : e.Written V := by
  have hvalues := forall_element_values ht he
  simp only [Element.values, List.forall_mem_append, List.forall_mem_cons] at hvalues
  obtain ⟨⟨⟨-, htag, hcodes⟩, hraw⟩, hdirectives⟩ := hvalues
  refine ⟨htag, hcodes, List.forall_mem_map.mp hraw, fun d hd v hv => hdirectives v ?_⟩
  exact List.mem_flatMap.mpr ⟨d, hd, hv⟩

theorem bindings_drawn (he : t.element? i = some e) : Bindings.Drawn V fun _ => e.toBindings :=
  Bindings.drawn_const fun v hv => forall_element_values ht he v (by simp [Element.values, hv])

end Tree

/-! ## States -/

/-- In every state stands `t` with drawn bindings, and the same is known about verbatim elements. -/
structure Kept (V : Json → Prop) (t : Tree) (g : Naming → Generation) : Prop where
  rebound : ∀ I, t.Rebound (g I).tree
  element : ∀ i e₀, t.element? i = some e₀ → ∃ e, Element.Drawn V e₀ e ∧ ∀ I, (g I).tree.element? i = some (e I)
  memo : Steady fun I => (g I).memo
  verbatim : Steady fun I => (g I).verbatim

/-- A place in the tree, and its element with any bindings. -/
def OnePlace (p : Naming → Nat × Element) : Prop :=
  ∃ (c : Nat) (e₀ : Element) (b : Naming → Bindings), p = fun I => (c, e₀.rebind (b I))

variable {t : Tree} {i : Nat} {e₀ : Element}

namespace Kept

variable {g : Naming → Generation}

theorem start (ht : ∀ v, t.Writes v → V v) : Kept V t fun _ => { tree := t } where
  rebound _ := .refl t
  element _ e₀ he := ⟨fun _ => e₀, ⟨fun _ => e₀.toBindings, Tree.bindings_drawn ht he, rfl⟩, fun _ => he⟩
  memo _ _ := rfl
  verbatim _ _ := rfl

variable (h : Kept V t g)

include h

theorem element?_none (hi : t.element? i = none) (I : Naming) : (g I).tree.element? i = none := by
  have hmap := (h.rebound I).element? i
  rw [hi] at hmap
  exact Option.map_eq_none_iff.mp hmap

/-- Warnings do not matter. -/
theorem warned (warnings : Naming → List Warning) : Kept V t fun I => { g I with warnings := warnings I } :=
  ⟨h.rebound, h.element, h.memo, h.verbatim⟩

theorem modifyElement (hi : t.element? i = some e₀) {f : Naming → Element → Element}
    (hf : ∀ e, Element.Drawn V e₀ e → Element.Drawn V e₀ fun I => f I (e I)) :
    Kept V t fun I => { g I with tree := (g I).tree.modifyElement i (f I) } := by
  obtain ⟨e, he, hsome⟩ := h.element i e₀ hi
  have hafter := hf e he
  refine ⟨fun I => ?_, fun j e₁ hj => ?_, h.memo, h.verbatim⟩
  · obtain ⟨b, -, rfl⟩ := he
    obtain ⟨b', -, hb'⟩ := hafter
    refine (h.rebound I).modifyElement fun e' he' => ?_
    rw [hsome] at he'
    cases he'
    rw [congrFun hb' I]
    rfl
  · by_cases hij : i = j
    · subst hij
      rw [hi] at hj
      cases hj
      refine ⟨_, hafter, fun I => ?_⟩
      simp only [Tree.element?_modifyElement, if_pos, hsome, Option.map_some]
    · obtain ⟨e', he', hsome'⟩ := h.element j e₁ hj
      refine ⟨e', he', fun I => ?_⟩
      simp only [Tree.element?_modifyElement, if_neg hij, hsome']

/-- The lone loop among children. -/
theorem loneLoop? (children : List Nat) :
    Maybe OnePlace fun I => Generator.loneLoop? (g I).tree children := by
  rcases children with _ | ⟨c, _ | ⟨_, _⟩⟩
  · exact .inl rfl
  · unfold Generator.loneLoop?
    rcases hc : t.element? c with _ | e₀
    · simp only [h.element?_none hc]
      exact .inl rfl
    · obtain ⟨_, ⟨b, -, rfl⟩, hsome⟩ := h.element c e₀ hc
      simp only [hsome]
      by_cases hloops : (e₀.loops && !e₀.hasTag "template" && !e₀.hasTag "slot") = true
      · exact .inr ⟨_, ⟨c, e₀, b, rfl⟩, funext fun I => if_pos hloops⟩
      · exact .inl (funext fun I => if_neg hloops)
  · exact .inl rfl

theorem firstElement? (e : Element) (b : Naming → Bindings) :
    Maybe OnePlace fun I => Generator.firstElement? (g I).tree (e.rebind (b I)) := by
  have hfirst (I : Naming) : Generator.firstElement? (g I).tree (e.rebind (b I)) =
      e.children.head?.bind fun c => ((g I).tree.element? c).map fun child => (c, child) := rfl
  simp only [hfirst]
  rcases e.children.head? with _ | c
  · exact .inl rfl
  · simp only [Option.bind_some]
    rcases hc : t.element? c with _ | e₀
    · simp only [h.element?_none hc]
      exact .inl rfl
    · obtain ⟨_, ⟨b', -, rfl⟩, hsome⟩ := h.element c e₀ hc
      simp only [hsome]
      exact .inr ⟨_, ⟨c, e₀, b', rfl⟩, rfl⟩

end Kept

/-! ## Reading and changing the state -/

namespace Uniform

variable {α : Type} {Q : (Naming → α) → Prop} {x : Naming → GenM α}

theorem liftFailure {r : Naming → Except Failure α} (h : Agree Q r) :
    Uniform (Kept V t) (fun I => Generator.liftFailure (r I)) Q := by
  rcases h with ⟨e, rfl⟩ | ⟨a, ha, rfl⟩
  · exact throw e
  · exact pure ha

theorem liftSteady {r : Naming → Except Failure α} (h : Steady r) :
    Uniform (Kept V t) (fun I => Generator.liftFailure (r I)) Steady := by
  obtain ⟨r, rfl⟩ := h.exists_eq
  refine liftFailure ((Agree.steady r).mono ?_)
  rintro _ ⟨c, -, rfl⟩
  exact fun _ _ => rfl

theorem siteOf : Uniform (Kept V t) (fun _ => Generator.siteOf i) Steady :=
  get.bind fun _ hg => pure (.of_eq fun I => congrArg (Site.mk i) ((hg.rebound I).span i))

theorem flagsOf : Uniform (Kept V t) (fun _ => Generator.flagsOf i) Steady :=
  get.bind fun _ hg => pure (.of_eq fun I => (hg.rebound I).flags i)

/-- The node is the one of the tree, apart from bindings. -/
theorem nodeAt : Uniform (Kept V t) (fun _ => Generator.nodeAt i)
    fun n => ∃ n₀, t.node? i = some n₀ ∧ ∀ I, (n I).unbound = n₀.unbound := by
  refine get.bind fun g hg => ?_
  rcases hi : t.node? i with _ | n₀
  · have hnone (I : Naming) : (g I).tree.node? i = none := by
      have hmap := (hg.rebound I).2 i
      rw [hi] at hmap
      exact Option.map_eq_none_iff.mp hmap
    simp only [hnone]
    exact throw _
  · have hsome (I : Naming) : ∃ n, (g I).tree.node? i = some n ∧ n.unbound = n₀.unbound := by
      have hmap := (hg.rebound I).2 i
      rw [hi] at hmap
      exact Option.map_eq_some_iff.mp hmap
    choose n hn hunbound using hsome
    simp only [hn]
    exact pure ⟨n₀, rfl, hunbound⟩

/-- The element is the one of the tree, with drawn bindings. -/
theorem elementAt (ht : ∀ v, t.Writes v → V v) : Uniform (Kept V t) (fun _ => Generator.elementAt i)
    fun e => ∃ e₀ b, t.element? i = some e₀ ∧ e₀.Written V ∧ Bindings.Drawn V b ∧ e = fun I => e₀.rebind (b I) := by
  intro g hg
  have hrun (I : Naming) : (Generator.elementAt i).run.run (g I) = _ := outcome_elementAt i (g I)
  simp only [hrun]
  rcases hi : t.element? i with _ | e₀
  · simp only [hg.element?_none hi]
    exact ⟨hg, .error _⟩
  · obtain ⟨_, ⟨b, hb, rfl⟩, hsome⟩ := hg.element i e₀ hi
    simp only [hsome]
    exact ⟨hg, .pure ⟨e₀, b, rfl, Tree.written ht hi, hb, rfl⟩⟩

theorem warn (w : Naming → Warning) : Uniform (Kept V t) (fun I => Generator.warn (w I)) fun _ => True :=
  modify fun _ hg => hg.warned _

theorem isVerbatim : Uniform (Kept V t) (fun _ => Generator.isVerbatim i) Steady := by
  intro g hg
  obtain ⟨memo, hmemo⟩ := hg.memo.exists_eq
  have hquery (I : Naming) : Memo.query (g I).tree ((g I).tree.size + 1) i (g I).memo =
      Memo.query t (t.size + 1) i memo := by
    rw [(hg.rebound I).query, (hg.rebound I).1, congrFun hmemo I]
  exact ⟨⟨hg.rebound, hg.element, .of_eq fun I => congrArg Prod.snd (hquery I), hg.verbatim⟩,
    .pure (.of_eq fun I => congrArg Prod.fst (hquery I))⟩

theorem setVerbatim {on : Naming → Bool} (h : Steady on) :
    Uniform (Kept V t) (fun I => Generator.setVerbatim (on I)) fun _ => True :=
  modify fun _ hg => ⟨hg.rebound, hg.element, hg.memo, h⟩

theorem enterVerbatim : Uniform (Kept V t) (fun _ => Generator.enterVerbatim i) fun _ => True :=
  isVerbatim.bind fun _ hv => ite hv (setVerbatim fun _ _ => rfl) (pure trivial)

theorem apart (hx : Uniform (Kept V t) x Q) : Uniform (Kept V t) (fun I => Generator.apart (x I)) Q := by
  refine get.bind fun outer houter => .bind (modify fun g hg => ?_) fun _ _ => hx.bind fun a ha => ?_
  · exact ⟨hg.rebound, hg.element, fun _ _ => rfl, fun _ _ => rfl⟩
  · refine .bind (modify fun g hg => ?_) fun _ _ => pure ha
    exact ⟨hg.rebound, hg.element, houter.memo, houter.verbatim⟩

theorem restoringBindings (hi : t.element? i = some e₀) {b : Naming → Bindings} (hb : Bindings.Drawn V b)
    (hx : Uniform (Kept V t) x Q) : Uniform (Kept V t) (fun I => Generator.restoringBindings i (b I) (x I)) Q := by
  intro g hg
  obtain ⟨hstate, hresult⟩ := hx g hg
  refine ⟨hstate.modifyElement hi ?_, hresult⟩
  rintro _ ⟨_, -, rfl⟩
  exact ⟨b, hb, rfl⟩

end Uniform

/-! ## Directives -/

theorem uniform_runDirective (ht : ∀ v, t.Writes v → V v) (reserved : String → Bool) (hi : t.element? i = some e₀)
    {d : Directive} (hd : d ∈ e₀.directives) :
    Uniform (Kept V t) (fun I => runDirective (I.options reserved) i d) Steady := by
  have he := Tree.written ht hi
  unfold runDirective
  simp only [Naming.options]
  rcases drawn_standard reserved he (he.directives d hd) with hnone | ⟨p, hp, hsome⟩
  · simp only [congrFun hnone]
    exact .pure fun _ _ => rfl
  · simp only [congrFun hsome]
    refine .bind .siteOf fun site hsite => .bind (.elementAt ht) ?_
    obtain ⟨site, rfl⟩ := hsite.exists_eq
    rintro _ ⟨e₁, b, hi₁, -, hb, rfl⟩
    obtain rfl : e₁ = e₀ := Option.some.inj (hi₁.symm.trans hi)
    obtain ⟨hafter, hreply⟩ := hp site _ ⟨b, hb, rfl⟩
    refine .bind (.modify fun g hg => ?_) fun _ _ => .bind (.liftSteady hreply) fun reply hreply => ?_
    · exact (hg.modifyElement hi fun _ _ => hafter).warned _
    · exact .pure fun I J => congrArg Json.truthy (hreply I J)

end TemplateCompiler
