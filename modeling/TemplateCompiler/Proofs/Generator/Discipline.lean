import TemplateCompiler.Proofs.Code.Marked
import TemplateCompiler.Proofs.Generator.Lifts
import TemplateCompiler.Proofs.Generator.Watch

/-!
# What a generator leaves behind

A generator that numbers on the way has the functions, the number of the next once mark and the verbatim
switch in its state. Whatever is emitted, the functions made before stay where they are, the numbers of the
once marks do not fall, and the switch is as it was (`Disciplined`). `discipline_run` says so of each emitter,
whatever plugins and modules do, and of the two that say more: an inline template leaves all of it untouched,
and a hoist gives the call of the very function that it made.
-/

namespace TemplateCompiler.Generator

variable {α β : Type}

/-- What every emitter keeps. -/
structure Keeps (g g' : Generation) : Prop where
  functions : g.lifted.functions <+: g'.lifted.functions
  verbatim : g'.verbatim = g.verbatim
  marks : g.lifted.marks ≤ g'.lifted.marks

def Disciplined (x : GenM α) : Prop :=
  ∀ g a g', outcome x g = (.ok a, g') → Keeps g g'

/-- What a numbered emitter leaves is known from the one that leaves everything in its place. -/
theorem Lifts.ok {x : GenM α} {y : GenM β} {R : α → β → Lifted → Prop} {g g' : Generation} {b : β}
    (hx : Lifts g.lifted x y R) (h : outcome y g = (.ok b, g')) :
    ∃ a g₁, outcome x g = (.ok a, g₁) ∧ g'.verbatim = g₁.verbatim ∧ R a b g'.lifted := by
  obtain ⟨a, b', g₁, l', hplan, hy, hR⟩ | ⟨f, g₁, l', -, hy⟩ := hx g
  · cases h.symm.trans hy
    exact ⟨a, g₁, hplan, rfl, hR⟩
  · cases h.symm.trans hy

/-! ## The switch -/

/-- Watches nothing, whatever the options are. -/
def Watch.nothing (o : Options) : Watch o where
  tree _ := True
  code _ := True
  modifyElement _ _ _ := trivial
  ordinary _ _ := trivial
  hoist _ _ _ _ _ := trivial
  mark _ _ _ _ _ := trivial
  transform _ _ := Code.everywhere_of_forall (fun _ => trivial) _

/-- Emitters that are coupled with themselves leave the switch as it was. -/
theorem verbatim_of_coupled {o : Options} {x : GenM α} {R : α → α → Prop}
    (hx : ∀ v, Coupled ((Watch.nothing o).coupling.states v) x x R
      ((Watch.nothing o).coupling.states v))
    {g g' : Generation} {a : α} (h : outcome x g = (.ok a, g')) : g'.verbatim = g.verbatim :=
  (Watch.keeps (hx g.verbatim) trivial h).2.1

/-- A numbered emitter whose code is what lifting leaves keeps what lifting keeps. -/
theorem disciplined_of_lifts {o : Options} {x : GenM α} {y : GenM β} {R : α → α → Prop}
    {S : Lifted → α → β → Lifted → Prop} (hlifts : ∀ l, Lifts l x y (S l))
    (hS : ∀ {l a b l'}, S l a b l' → ∃ c d, Leaves l c d l')
    (hx : ∀ v, Coupled ((Watch.nothing o).coupling.states v) x x R
      ((Watch.nothing o).coupling.states v)) : Disciplined y := by
  intro g b g' h
  obtain ⟨a, g₁, hplan, hverbatim, hab⟩ := (hlifts g.lifted).ok h
  obtain ⟨c, d, hcd⟩ := hS hab
  have hlifted : g'.lifted = (c.lift g.lifted).2 := by rw [hcd]
  exact ⟨hlifted ▸ Code.functions_prefix_lift c _, hverbatim.trans (verbatim_of_coupled hx hplan),
    hlifted ▸ Code.marks_le_lift c _⟩

/-! ## Hoists -/

/-- A hoist entered a state with the same functions, generated `body` there and appended it to the functions that
were left. It returns the call of the function that it made, now and for all states that follow. -/
structure HoistReturns (self : Emit) (i : Nat) (done : Stages) (g : Generation) (c : Code) (g' : Generation)
    (k : Nat) (body : Code) : Prop where
  generated : ∃ entered left, outcome (enterVerbatim i) g = (.ok (), entered) ∧ entered.lifted = g.lifted ∧
    outcome (self (.element i { done with hoisted := true })) entered = (.ok body, left) ∧
    k = left.lifted.functions.length ∧ g'.lifted.functions = left.lifted.functions ++ [body]
  call : ∃ inLoop, c = .call k inLoop
  function : ∀ names final, g'.lifted.functions <+: final →
    (final.map fun f => (Code.enclosed f).render names)[k]? = some (enclose (body.render names))

theorem hoistReturns {self : Emit} {i : Nat} {done : Stages} {g g' : Generation} {c : Code}
    (h : outcome (emitHoisted (p := .numbered) self i done) g = (.ok c, g')) :
    ∃ k body, HoistReturns self i done g c g' k body := by
  obtain ⟨g₁, g₂, body, henter, hbody, h⟩ := outcome_hoist_ok (p := .numbered) h
  obtain ⟨_, g₀, -, -, -, hlifted⟩ := lifts_enterVerbatim.ok henter
  cases h
  refine ⟨g₂.lifted.functions.length, body, ⟨g₁, g₂, henter, hlifted, hbody, rfl, rfl⟩, ⟨_, rfl⟩, ?_⟩
  rintro names _ ⟨later, rfl⟩
  simp [render_enclosed]

/-! ## All emitters -/

/-- What holds of the emitters over the tasks that `self` generates. -/
structure Discipline (o : Options) (self : Emit) : Prop where
  element : ∀ i done, Disciplined (self (.element i done))
  children : ∀ e withLevel, Disciplined (emitChildren o self e withLevel)
  data : ∀ i, Disciplined (emitData (p := .numbered) o self i)
  branches : ∀ i e done slot, Disciplined (emitBranches self i e done slot)
  loops : ∀ i e done slot, Disciplined (emitLoop o self i e done slot)
  once : ∀ i done, Disciplined (emitOnce (p := .numbered) self i done)
  outlet : ∀ i e, Disciplined (emitOutlet o self i e)
  slotEntry : ∀ i done, Disciplined (emitSlotEntry o self i done)
  hoisted : ∀ i done, Disciplined (emitHoisted (p := .numbered) self i done) ∧
    ∀ g c g', outcome (emitHoisted (p := .numbered) self i done) g = (.ok c, g') →
      ∃ k body, HoistReturns self i done g c g' k body
  inline : ∀ i e g ps g', outcome (inlineEntry (p := .numbered) self i e) g = (.ok ps, g') →
    g'.lifted = g.lifted ∧ g'.verbatim = g.verbatim

theorem discipline_run (o : Options) (fuel : Nat) : Discipline o (run (p := .numbered) o fuel) := by
  have hbelow : LiftsBelow (run o fuel) (run (p := .numbered) o fuel) := lifts_run o fuel
  have hwatch : (Watch.nothing o).coupling.Below (run o fuel) (run o fuel) := Watch.run fuel
  have hcode {x y : GenM Code} {R : Code → Code → Prop} (hlifts : ∀ l, Lifts l x y (Leaves l))
      (hx : ∀ v, Coupled ((Watch.nothing o).coupling.states v) x x R
        ((Watch.nothing o).coupling.states v)) : Disciplined y :=
    disciplined_of_lifts hlifts (fun h => ⟨_, _, h⟩) hx
  exact {
    element i done := hcode (hbelow _) fun _ => hwatch.element rfl
    children e withLevel :=
      disciplined_of_lifts (fun _ => lifts_emitChildren hbelow withLevel) (fun h => ⟨_, _, h.argument⟩) fun _ =>
        hwatch.childList (i := 0) trivial withLevel
    data i := hcode (fun _ => lifts_emitData hbelow) fun _ => hwatch.data
    branches i e done slot := hcode (fun _ => lifts_emitBranches hbelow) fun _ => hwatch.branches trivial rfl slot
    loops i e done slot := hcode (fun _ => lifts_emitLoop hbelow) fun _ => hwatch.loops rfl slot
    once i done := hcode (fun _ => lifts_emitOnce hbelow) fun _ => Watch.once hwatch
    outlet i e := hcode (fun _ => lifts_emitOutlet hbelow) fun _ => hwatch.outlets trivial
    slotEntry i done := hcode (fun _ => lifts_emitSlotEntry hbelow) fun _ => hwatch.slotDescriptor rfl
    hoisted i done :=
      ⟨hcode (fun _ => lifts_emitHoisted hbelow) fun _ => Watch.hoisted hwatch fun _ _ => trivial,
        fun _ _ _ h => hoistReturns h⟩
    inline i e g ps g' h := by
      obtain ⟨qs, g₁, hplan, hverbatim, -, hlifted⟩ := (lifts_inlineEntry hbelow).ok h
      exact ⟨hlifted, hverbatim.trans (verbatim_of_coupled (fun _ => hwatch.inlineEntry trivial) hplan)⟩ }

end TemplateCompiler.Generator
