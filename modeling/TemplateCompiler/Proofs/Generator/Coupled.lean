import Mathlib.Data.List.Forall2
import TemplateCompiler.Generator.Element

/-!
# Two generations side by side

`Coupled G x y R G'` runs `x` and `y` from states that `G` relates. If `x` returns, so does `y`, with
results that `R` relates, and `G'` relates the states they leave. The rules follow the way in which
actions are built: `bind` for steps, `mapM` and `filterM` for lists, and one rule for each basic action.
With equal states on both sides the same rules speak about a single generation.
-/

namespace TemplateCompiler.Generator

variable {α β γ δ : Type}

/-- What an action gives from a state, and the state it leaves. -/
def outcome (x : GenM α) (g : Generation) : Except Failure α × Generation :=
  x.run.run g

@[simp] theorem outcome_pure (a : α) (g : Generation) :
    outcome (pure a) g = (.ok a, g) := rfl

@[simp] theorem outcome_throw (e : Failure) (g : Generation) :
    outcome (throw e : GenM α) g = (.error e, g) := rfl

@[simp] theorem outcome_get (g : Generation) : outcome get g = (.ok g, g) := rfl

@[simp] theorem outcome_set (s g : Generation) : outcome (set s) g = (.ok (), s) := rfl

@[simp] theorem outcome_modify (f : Generation → Generation) (g : Generation) :
    outcome (modify f) g = (.ok (), f g) := rfl

theorem outcome_bind (x : GenM α) (f : α → GenM β) (g : Generation) :
    outcome (x >>= f) g =
      match outcome x g with
      | (.ok a, g') => outcome (f a) g'
      | (.error e, g') => (.error e, g') := by
  show (ExceptT.run (x >>= f)).run g = _
  simp only [ExceptT.run_bind, StateT.run_bind]
  show (match x.run.run g with | (r, g') => _) = _
  rcases h : x.run.run g with ⟨_ | a, g'⟩ <;> simp_all [outcome] <;> rfl

/-- What a step returned before the rest of an action went on from there. -/
theorem outcome_bind_ok {x : GenM α} {f : α → GenM β} {g g'' : Generation} {b : β}
    (h : outcome (x >>= f) g = (.ok b, g'')) :
    ∃ a g', outcome x g = (.ok a, g') ∧ outcome (f a) g' = (.ok b, g'') := by
  rw [outcome_bind] at h
  rcases hx : outcome x g with ⟨_ | a, g'⟩
  · simp [hx] at h
  · exact ⟨a, g', rfl, by simpa [hx] using h⟩

theorem outcome_bind_of_ok {x : GenM α} {f : α → GenM β} {g g' : Generation} {a : α}
    (h : outcome x g = (.ok a, g')) : outcome (x >>= f) g = outcome (f a) g' := by
  rw [outcome_bind, h]

theorem outcome_restoringBindings (i : Nat) (bindings : Bindings) (x : GenM α) (g : Generation) :
    outcome (restoringBindings i bindings x) g =
      ((outcome x g).1, { (outcome x g).2 with
        tree := (outcome x g).2.tree.modifyElement i fun e => { e with toBindings := bindings } }) := rfl

theorem generate_eq [p : Placement] (t : Tree) (o : Options) (root : Option Nat) :
    t.generate o root =
      { code := (outcome (emitRoot o (root.or t.root)) { tree := t }).1
        tree := (outcome (emitRoot o (root.or t.root)) { tree := t }).2.tree
        warnings := (outcome (emitRoot o (root.or t.root)) { tree := t }).2.warnings
        lifted := (outcome (emitRoot o (root.or t.root)) { tree := t }).2.lifted } := rfl

/-- A hoist takes apart into the state it enters, its body, the switch that it puts back, and the place that
it finds for the body. -/
theorem outcome_hoist_ok [p : Placement] {self : Emit} {i : Nat} {done : Stages} {g g' : Generation} {c : Code}
    (h : outcome (emitHoisted self i done) g = (.ok c, g')) :
    ∃ g₁ g₂ body, outcome (enterVerbatim i) g = (.ok (), g₁) ∧
      outcome (self (.element i { done with hoisted := true })) g₁ = (.ok body, g₂) ∧
      outcome (p.hoist i ((g₂.tree.flags i).inLoop.truthy) body) { g₂ with verbatim := g.verbatim } = (.ok c, g') := by
  obtain ⟨g₀, g₀', hg, h⟩ := outcome_bind_ok h
  obtain ⟨rfl, rfl⟩ : g = g₀ ∧ g = g₀' := by simpa using hg
  obtain ⟨_, g₁, henter, h⟩ := outcome_bind_ok h
  obtain ⟨body, g₂, hbody, h⟩ := outcome_bind_ok h
  obtain ⟨_, g₃, hleave, h⟩ := outcome_bind_ok h
  obtain ⟨flags, g₄, hflags, h⟩ := outcome_bind_ok h
  cases hleave
  cases hflags
  exact ⟨g₁, g₂, body, henter, hbody, h⟩

theorem outcome_emitHoisted_ok {self : Emit} {i : Nat} {done : Stages} {g g' : Generation} {c : Code}
    (h : outcome (emitHoisted self i done) g = (.ok c, g')) :
    ∃ g₁ g₂ body, outcome (enterVerbatim i) g = (.ok (), g₁) ∧
      outcome (self (.element i { done with hoisted := true })) g₁ = (.ok body, g₂) ∧
      c = .hoist i ((g₂.tree.flags i).inLoop.truthy) body ∧ g' = { g₂ with verbatim := g.verbatim } := by
  obtain ⟨g₁, g₂, body, henter, hbody, h⟩ := outcome_hoist_ok h
  cases h
  exact ⟨g₁, g₂, body, henter, hbody, rfl, rfl⟩

/-- If `x` returns, so does `y`, and what they give and leave is related. -/
def Coupled (G : Generation → Generation → Prop) (x : GenM α) (y : GenM β) (R : α → β → Prop)
    (G' : Generation → Generation → Prop) : Prop :=
  ∀ g h, G g h → ∀ a g', outcome x g = (.ok a, g') →
    ∃ b h', outcome y h = (.ok b, h') ∧ R a b ∧ G' g' h'

namespace Coupled

variable {G G' G'' : Generation → Generation → Prop} {R : α → β → Prop} {S : γ → δ → Prop}
variable {x : GenM α} {y : GenM β} {f : α → GenM γ} {k : β → GenM δ}

theorem pure {a : α} {b : β} (h : R a b) : Coupled G (pure a) (pure b) R G := by
  intro g g₀ hg a' g' ha
  simp only [outcome_pure, Prod.mk.injEq, Except.ok.injEq] at ha
  obtain ⟨rfl, rfl⟩ := ha
  exact ⟨b, g₀, rfl, h, hg⟩

theorem throw {e : Failure} : Coupled G (throw e : GenM α) y R G' := by
  intro g g₀ hg a g' ha
  simp at ha

theorem bind (hx : Coupled G x y R G') (hf : ∀ a b, R a b → Coupled G' (f a) (k b) S G'') :
    Coupled G (x >>= f) (y >>= k) S G'' := by
  intro g h hg c g'' hc
  obtain ⟨a, g', ha, hc⟩ := outcome_bind_ok hc
  obtain ⟨b, h', hb, hab, hg'⟩ := hx g h hg a g' ha
  obtain ⟨d, h'', hd, hcd, hg''⟩ := hf a b hab g' h' hg' c g'' hc
  exact ⟨d, h'', by rw [outcome_bind_of_ok hb, hd], hcd, hg''⟩

theorem mono {T : α → β → Prop} (hx : Coupled G x y R G') (h : ∀ a b, R a b → T a b) :
    Coupled G x y T G' := by
  intro g g₀ hg a g' ha
  obtain ⟨b, h', hb, hab, hg'⟩ := hx g g₀ hg a g' ha
  exact ⟨b, h', hb, h a b hab, hg'⟩

theorem weaken (hx : Coupled G x y R G') (h : ∀ g g₀, G' g g₀ → G'' g g₀) : Coupled G x y R G'' := by
  intro g g₀ hg a g' ha
  obtain ⟨b, h', hb, hab, hg'⟩ := hx g g₀ hg a g' ha
  exact ⟨b, h', hb, hab, h g' h' hg'⟩

/-- Of a family of state relations, the one that holds before also holds after. -/
theorem exists_state {ι : Type} {H H' : ι → Generation → Generation → Prop}
    (hx : ∀ n, Coupled (H n) x y R (H' n)) :
    Coupled (fun g h => ∃ n, H n g h) x y R (fun g h => ∃ n, H' n g h) := by
  intro g g₀ ⟨n, hg⟩ a g' ha
  obtain ⟨b, h', hb, hab, hg'⟩ := hx n g g₀ hg a g' ha
  exact ⟨b, h', hb, hab, n, hg'⟩

theorem get : Coupled G get get G G := by
  intro g h hg a g' ha
  simp only [outcome_get, Prod.mk.injEq, Except.ok.injEq] at ha
  obtain ⟨rfl, rfl⟩ := ha
  exact ⟨h, h, rfl, hg, hg⟩

theorem modify {u v : Generation → Generation} (h : ∀ g g₀, G g g₀ → G' (u g) (v g₀)) :
    Coupled G (modify u) (modify v) (fun _ _ => True) G' := by
  intro g g₀ hg a g' ha
  simp only [outcome_modify, Prod.mk.injEq] at ha
  obtain ⟨-, rfl⟩ := ha
  exact ⟨(), v g₀, rfl, trivial, h g g₀ hg⟩

theorem liftFailure (r : Except Failure α) :
    Coupled G (liftFailure r) (liftFailure r) (fun a b => a = b ∧ r = .ok a) G := by
  cases r with
  | error e => exact throw
  | ok a => exact pure ⟨rfl, rfl⟩

theorem ite {c : Prop} [Decidable c] {x' : GenM α} {y' : GenM β} (h : c → Coupled G x y R G')
    (h' : ¬c → Coupled G x' y' R G') :
    Coupled G (if c then x else x') (if c then y else y') R G' := by
  split
  · exact h ‹_›
  · exact h' ‹_›

theorem mapM {xs : List γ} {f : γ → GenM α} {k : γ → GenM β}
    (h : ∀ c ∈ xs, Coupled G (f c) (k c) R G) :
    Coupled G (xs.mapM f) (xs.mapM k) (List.Forall₂ R) G := by
  induction xs with
  | nil => exact pure .nil
  | cons c xs ih =>
    rw [List.mapM_cons, List.mapM_cons]
    refine bind (h c (List.mem_cons_self ..)) fun a b hab => ?_
    refine bind (ih fun c hc => h c (List.mem_cons_of_mem _ hc)) fun as bs habs => ?_
    exact pure (.cons hab habs)

theorem filterM {xs : List γ} {f k : γ → GenM Bool}
    (h : ∀ c ∈ xs, Coupled G (f c) (k c) (fun a b => a = b) G) :
    Coupled G (xs.filterM f) (xs.filterM k) (fun a b => a = b) G := by
  have loop (kept : List γ) : Coupled G (List.filterAuxM f xs kept) (List.filterAuxM k xs kept)
      (fun a b => a = b) G := by
    induction xs generalizing kept with
    | nil => exact pure rfl
    | cons c xs ih =>
      refine bind (h c (List.mem_cons_self ..)) fun a b hab => ?_
      subst hab
      exact ih (fun c hc => h c (List.mem_cons_of_mem _ hc)) _
  refine bind (loop []) fun a b hab => ?_
  exact pure (by rw [hab])

end Coupled

end TemplateCompiler.Generator
