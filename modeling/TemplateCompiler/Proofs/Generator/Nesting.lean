import TemplateCompiler.Proofs.Generator.Chain
import TemplateCompiler.Proofs.Generator.Once

/-!
# The loop and the tests of one element

An element that is both repeated and tested becomes a loop around the tests, so that these see the variables of
the loop. The stage for elements that are rendered once comes first and goes on to the tests, with the loop left
for their arms: there the tests stand around the loop. `loop_and_tests_nest` gives the order in both cases.
-/

namespace TemplateCompiler

/-- The code `c` is `d` within hoists and once marks of an element. -/
inductive Code.Wrapped (i : Nat) (d : Code) : Code → Prop
  | refl : Wrapped i d d
  | hoist {inLoop : Bool} {c : Code} (h : Wrapped i d c) : Wrapped i d (.hoist i inLoop c)
  | once {key : String} {c : Code} (h : Wrapped i d c) : Wrapped i d (.once i key c)

namespace Generator

open Condition

variable {o : Options} {self : Emit} {i fuel : Nat} {e : Element} {done : Stages} {slot : Bool} {g g' : Generation}
  {c : Code}

/-! ## One stage at a time -/

theorem outcome_run_element (he : g.tree.element? i = some e) :
    outcome (run o (fuel + 1) (.element i done)) g =
      if (g.tree.flags i).root.truthy && !done.hoisted then outcome (emitHoisted (run o fuel) i done) g
      else if e.once.truthy && !done.once then outcome (emitOnce (run o fuel) i done) g
      else outcome (emitInPlace o (run o fuel) i e done) g := by
  have helement : outcome (elementAt i) g = (.ok e, g) := by rw [outcome_elementAt, he]
  show outcome (emitElement o (run o fuel) i done) g = _
  unfold emitElement
  rw [outcome_bind_of_ok helement, outcome_bind_of_ok (outcome_flagsOf i g)]
  split
  · rfl
  · split <;> rfl

/-- A run that gives code had fuel. -/
theorem exists_fuel {task : Task} (h : outcome (run o fuel task) g = (.ok c, g')) : ∃ n, fuel = n + 1 := by
  cases fuel with
  | zero => cases h
  | succ n => exact ⟨n, rfl⟩

theorem outcome_emitLoop_ok (h : outcome (emitLoop o self i e done false) g = (.ok c, g')) :
    ∃ g₁ body, g₁.tree = g.tree ∧ outcome (self (.element i { done with looped := true })) g₁ = (.ok body, g') ∧
      c = .loop i e.forSource.shown (loopParams e) body := by
  obtain ⟨_, g₁, hadvise, h⟩ := outcome_bind_ok h
  obtain ⟨body, g₂, hbody, h⟩ := outcome_bind_ok h
  have htree : g₁.tree = g.tree := by
    have := untouched_adviseKeys (o := o) (i := i) (e := e) g
    rwa [hadvise] at this
  cases h
  exact ⟨g₁, body, htree, hbody, rfl⟩

theorem length_of_mapM {α β : Type} {f : α → GenM β} {xs : List α} {ys : List β}
    (h : outcome (xs.mapM f) g = (.ok ys, g')) : ys.length = xs.length := by
  induction xs generalizing ys g with
  | nil => cases h; rfl
  | cons x xs ih =>
    rw [List.mapM_cons] at h
    obtain ⟨y, g₁, -, h⟩ := outcome_bind_ok h
    obtain ⟨ys, g₂, hys, h⟩ := outcome_bind_ok h
    cases h
    rw [List.length_cons, List.length_cons, ih hys]

/-- What a chain gives, and how its first arm was generated. -/
theorem outcome_emitBranches_ok (h : outcome (emitBranches self i e done slot) g = (.ok c, g')) :
    ∃ codes, codes.length = (live e.conditions).length ∧
      c = Code.chain i (noArm slot) (e.conditions.zip codes) ∧
      ∀ first rest, e.conditions = first :: rest → ∃ own later g₁, codes = own :: later ∧
        outcome (emitArm self i { done with branched := true } slot first.block) g = (.ok own, g₁) := by
  rw [emitBranches, emitChain_eq, map_eq_pure_bind] at h
  obtain ⟨codes, g₁, hcodes, h⟩ := outcome_bind_ok h
  cases h
  refine ⟨codes, length_of_mapM hcodes, rfl, fun first rest hfirst => ?_⟩
  obtain ⟨others, hlive⟩ : ∃ others, live e.conditions = first :: others := by
    rw [hfirst, live]
    cases first.expression.filled? with
    | some test => exact ⟨_, rfl⟩
    | none => exact ⟨_, rfl⟩
  rw [hlive, List.mapM_cons] at hcodes
  obtain ⟨own, g₂, hown, hcodes⟩ := outcome_bind_ok hcodes
  obtain ⟨later, g₃, -, hcodes⟩ := outcome_bind_ok hcodes
  cases hcodes
  exact ⟨own, later, g₂, rfl, hown⟩

/-! ## From stage to stage -/

/-- An element that need not be hoisted or rendered once any more. -/
def Settled (g : Generation) (i : Nat) (e : Element) (done : Stages) : Prop :=
  ((g.tree.flags i).root.truthy && !done.hoisted) = false ∧ (e.once.truthy && !done.once) = false

theorem outcome_settled (he : g.tree.element? i = some e) (hs : Settled g i e done) :
    outcome (run o (fuel + 1) (.element i done)) g = outcome (emitInPlace o (run o fuel) i e done) g := by
  rw [outcome_run_element he, hs.1, hs.2]
  rfl

theorem exists_loop (he : g.tree.element? i = some e) (hs : Settled g i e done) (hloops : e.loops = true)
    (hdone : done.looped = false) (h : outcome (run o fuel (.element i done)) g = (.ok c, g')) :
    ∃ n g₁ body, g₁.tree = g.tree ∧
      outcome (run o n (.element i { done with looped := true })) g₁ = (.ok body, g') ∧
      c = .loop i e.forSource.shown (loopParams e) body := by
  obtain ⟨n, rfl⟩ := exists_fuel h
  rw [outcome_settled he hs, emitInPlace, hloops, hdone] at h
  exact ⟨n, outcome_emitLoop_ok h⟩

theorem exists_tests (he : g.tree.element? i = some e) (hs : Settled g i e done) (hlooped : done.looped = true)
    (htested : e.tested = true) (hdone : done.branched = false)
    (h : outcome (run o fuel (.element i done)) g = (.ok c, g')) :
    ∃ codes, codes.length = (live e.conditions).length ∧
      c = Code.chain i (noArm false) (e.conditions.zip codes) := by
  obtain ⟨n, rfl⟩ := exists_fuel h
  rw [outcome_settled he hs, emitInPlace, hlooped, htested, hdone, Bool.not_true, Bool.and_false] at h
  obtain ⟨codes, hlength, hc, -⟩ := outcome_emitBranches_ok h
  exact ⟨codes, hlength, hc⟩

/-- The loop of an element that is settled stands around its tests. -/
theorem loop_around_tests (he : g.tree.element? i = some e) (hs : Settled g i e done) (hloops : e.loops = true)
    (htested : e.tested = true) (hdone : done.looped = false) (hbranched : done.branched = false)
    (h : outcome (run o fuel (.element i done)) g = (.ok c, g')) :
    ∃ codes, codes.length = (live e.conditions).length ∧ c = .loop i e.forSource.shown (loopParams e)
      (Code.chain i (noArm false) (e.conditions.zip codes)) := by
  obtain ⟨n, g₁, body, htree, hbody, rfl⟩ := exists_loop he hs hloops hdone h
  rw [← htree] at he
  have hs₁ : Settled g₁ i e { done with looped := true } := by
    rw [Settled, htree]
    exact hs
  obtain ⟨codes, hlength, rfl⟩ := exists_tests he hs₁ rfl htested hbranched hbody
  exact ⟨codes, hlength, rfl⟩

/-- The code of an element is that of its next stage, hoisted if the element is a static root. -/
theorem exists_unhoisted (he : g.tree.element? i = some e) (hdone : done.hoisted = false)
    (h : outcome (run o fuel (.element i done)) g = (.ok c, g')) :
    ∃ n g₁ g₂ d hoisted, g₁.tree = g.tree ∧ ((g.tree.flags i).root.truthy && !hoisted) = false ∧
      outcome (run o n (.element i { done with hoisted := hoisted })) g₁ = (.ok d, g₂) ∧ d.Wrapped i c := by
  rcases hroot : (g.tree.flags i).root.truthy with _ | _
  · exact ⟨fuel, g, g', c, false, rfl, rfl, hdone ▸ h, .refl⟩
  · obtain ⟨n, rfl⟩ := exists_fuel h
    rw [outcome_run_element he, hroot, hdone] at h
    obtain ⟨g₁, g₂, body, henter, hbody, rfl, -⟩ := outcome_emitHoisted_ok h
    have htree : g₁.tree = g.tree := by
      have := untouched_enterVerbatim (i := i) g
      rwa [henter] at this
    exact ⟨n, g₁, g₂, body, true, htree, rfl, hbody, .hoist .refl⟩

/-- An element that is rendered once and has been tested becomes its loop. -/
theorem wrapped_loop_of_once (he : g.tree.element? i = some e) (hloops : e.loops = true)
    (hroot : ((g.tree.flags i).root.truthy && !done.hoisted) = false) (hdone : done.looped = false)
    (hbranched : done.branched = true) (h : outcome (run o fuel (.onceElement i done)) g = (.ok c, g')) :
    ∃ body, (Code.loop i e.forSource.shown (loopParams e) body).Wrapped i c := by
  obtain ⟨n, rfl⟩ := exists_fuel h
  have hloop {g₁ g₂ : Generation} {hoisted : Bool} {d : Code} (htree : g₁.tree = g.tree)
      (hhoisted : ((g.tree.flags i).root.truthy && !hoisted) = false)
      (hd : outcome (run o n (.element i { done with once := true, hoisted := hoisted })) g₁ = (.ok d, g₂)) :
      ∃ body, d = .loop i e.forSource.shown (loopParams e) body := by
    have hs : Settled g₁ i e { done with once := true, hoisted := hoisted } :=
      ⟨by rw [htree]; exact hhoisted, Bool.and_false _⟩
    obtain ⟨-, -, body, -, -, hbody⟩ := exists_loop (by rw [htree, he]) hs hloops hdone hd
    exact ⟨body, hbody⟩
  change outcome (emitOnce (run o n) i done) g = _ at h
  rw [outcome_emitOnce _ he fun _ => hbranched] at h
  split at h
  · obtain ⟨g₁, g₂, d, henter, hd, rfl, -⟩ := outcome_emitHoisted_ok h
    have htree : g₁.tree = g.tree := by
      have := untouched_enterVerbatim (i := i) g
      rwa [henter] at this
    obtain ⟨body, rfl⟩ := hloop htree (Bool.and_false _) hd
    exact ⟨body, .hoist .refl⟩
  split at h
  · obtain ⟨d, g₁, hd, h⟩ := outcome_bind_ok h
    cases h
    obtain ⟨body, rfl⟩ := hloop rfl hroot hd
    exact ⟨body, .once .refl⟩
  · obtain ⟨body, rfl⟩ := hloop (by rfl) hroot h
    exact ⟨body, .refl⟩

/-- The tests of an element that is rendered once stand around its loop. -/
theorem tests_around_loop (he : g.tree.element? i = some e) (honce : e.once.truthy = true) (hloops : e.loops = true)
    (htested : e.tested = true) (hroot : ((g.tree.flags i).root.truthy && !done.hoisted) = false)
    (hdone : done.once = false) (hlooped : done.looped = false) (hbranched : done.branched = false)
    (h : outcome (run o fuel (.element i done)) g = (.ok c, g')) :
    ∃ codes, codes.length = (live e.conditions).length ∧ c = Code.chain i (noArm false) (e.conditions.zip codes) ∧
      ∀ first rest, e.conditions = first :: rest → first.block = i → ∃ own later body, codes = own :: later ∧
        (Code.loop i e.forSource.shown (loopParams e) body).Wrapped i own := by
  obtain ⟨n, rfl⟩ := exists_fuel h
  have helement : outcome (elementAt i) g = (.ok e, g) := by rw [outcome_elementAt, he]
  rw [outcome_run_element he, hroot, honce, hdone, if_neg Bool.false_ne_true, if_pos (by rfl), emitOnce,
    outcome_bind_of_ok helement] at h
  dsimp only at h
  rw [htested, hbranched, if_pos (by rfl)] at h
  obtain ⟨codes, hlength, hc, hfirst⟩ := outcome_emitBranches_ok h
  refine ⟨codes, hlength, hc, fun first rest hconditions hblock => ?_⟩
  obtain ⟨own, later, g₁, hcodes, harm⟩ := hfirst first rest hconditions
  rw [hblock, emitArm, if_pos rfl, if_neg Bool.false_ne_true, outcome_bind_of_ok helement, if_pos honce] at harm
  obtain ⟨body, hbody⟩ := wrapped_loop_of_once he hloops (by exact hroot) (by exact hlooped) (by rfl) harm
  exact ⟨own, later, body, hcodes, hbody⟩

/-- An element that is repeated and tested, generated from the first stage on, gives a loop around its tests: all of
them stand in the callback of its own loop. Only if it is rendered once as well, the tests stand around the loop, which
is then within the arm of the element itself. In both cases nothing but hoists and once marks of the element is around
the outer of the two. -/
theorem loop_and_tests_nest (he : g.tree.element? i = some e) (hloops : e.loops = true) (htested : e.tested = true)
    (h : outcome (run o fuel (.element i {})) g = (.ok c, g')) :
    ∃ codes, codes.length = (live e.conditions).length ∧
      if e.once.truthy then
        (Code.chain i (noArm false) (e.conditions.zip codes)).Wrapped i c ∧
        ∀ first rest, e.conditions = first :: rest → first.block = i → ∃ own later body, codes = own :: later ∧
          (Code.loop i e.forSource.shown (loopParams e) body).Wrapped i own
      else (Code.loop i e.forSource.shown (loopParams e)
        (Code.chain i (noArm false) (e.conditions.zip codes))).Wrapped i c := by
  obtain ⟨n, g₁, g₂, d, hoisted, htree, hroot, hd, hwrapped⟩ := exists_unhoisted he rfl h
  rw [← htree] at he hroot
  split
  · next honce =>
    obtain ⟨codes, hlength, rfl, hown⟩ := tests_around_loop he honce hloops htested hroot rfl rfl rfl hd
    exact ⟨codes, hlength, hwrapped, hown⟩
  · next honce =>
    have hs : Settled g₁ i e { hoisted := hoisted } :=
      ⟨hroot, by rw [Bool.eq_false_iff.mpr honce, Bool.false_and]⟩
    obtain ⟨codes, hlength, rfl⟩ := loop_around_tests he hs hloops htested rfl rfl hd
    exact ⟨codes, hlength, hwrapped⟩

/-- Two items that are repeated and tested, the second one rendered once. -/
def roster : Json :=
  let item (once : Bool) : Json := .object
    [("tag", "li"), ("for", "items"), ("alias", "item"), ("if", "item.ok"),
      ("ifConditions", .array [.object [("exp", "item.ok")]]), ("once", .bool once)]
  .object [("tag", "ul"), ("children", .array [item false, item true])]

theorem loop_and_tests_nest_roster :
    let o := ({} : Environment).options
    ∃ t c₁ c₂ g₁ g₂, (Tree.load roster).1 = .ok t ∧ outcome (run o 40 (.element 1 {})) { tree := t } = (.ok c₁, g₁) ∧
      outcome (run o 40 (.element 2 {})) { tree := t } = (.ok c₂, g₂) ∧
      (∃ arm, (Code.loop 1 "items" "item" (.branch 1 "item.ok" arm (noArm false))).Wrapped 1 c₁) ∧
      ∃ arm body, (Code.branch 2 "item.ok" arm (noArm false)).Wrapped 2 c₂ ∧
        (Code.loop 2 "items" "item" body).Wrapped 2 arm := by
  intro o
  have h : ((Tree.load roster).1.toOption.bind fun t => (t.element? 1).bind fun e₁ => (t.element? 2).bind fun e₂ =>
      (outcome (run o 40 (.element 1 {})) { tree := t }).1.toOption.bind fun _ =>
      (outcome (run o 40 (.element 2 {})) { tree := t }).1.toOption.map fun _ =>
        decide ((e₁.loops = true ∧ e₁.tested = true ∧ e₁.once.truthy = false) ∧
          (e₂.loops = true ∧ e₂.tested = true ∧ e₂.once.truthy = true) ∧
          (e₁.forSource.shown, loopParams e₁, e₁.conditions) = ("items", "item", [⟨"item.ok", 1⟩]) ∧
          (e₂.forSource.shown, loopParams e₂, e₂.conditions) = ("items", "item", [⟨"item.ok", 2⟩]))) = some true := by
    decide +kernel
  obtain ⟨t, ht, h⟩ := Option.bind_eq_some_iff.mp h
  obtain ⟨e₁, he₁, h⟩ := Option.bind_eq_some_iff.mp h
  obtain ⟨e₂, he₂, h⟩ := Option.bind_eq_some_iff.mp h
  obtain ⟨c₁, hc₁, h⟩ := Option.bind_eq_some_iff.mp h
  obtain ⟨c₂, hc₂, h⟩ := Option.map_eq_some_iff.mp h
  obtain ⟨⟨hloops₁, htested₁, honce₁⟩, ⟨hloops₂, htested₂, honce₂⟩, hfields₁, hfields₂⟩ := of_decide_eq_true h
  simp only [Prod.mk.injEq] at hfields₁ hfields₂
  have hrun₁ : outcome (run o 40 (.element 1 {})) { tree := t } = (.ok c₁, _) := Prod.ext (ok_of_toOption hc₁) rfl
  have hrun₂ : outcome (run o 40 (.element 2 {})) { tree := t } = (.ok c₂, _) := Prod.ext (ok_of_toOption hc₂) rfl
  refine ⟨t, c₁, c₂, _, _, ok_of_toOption ht, hrun₁, hrun₂, ?_, ?_⟩
  · obtain ⟨codes, hlength, hnest⟩ := loop_and_tests_nest he₁ hloops₁ htested₁ hrun₁
    rw [hfields₁.2.2] at hlength hnest
    obtain ⟨arm, rfl⟩ := List.length_eq_one_iff.mp hlength
    rw [honce₁, if_neg Bool.false_ne_true, hfields₁.1, hfields₁.2.1] at hnest
    exact ⟨arm, hnest⟩
  · obtain ⟨codes, hlength, hnest⟩ := loop_and_tests_nest he₂ hloops₂ htested₂ hrun₂
    rw [hfields₂.2.2] at hlength hnest
    rw [honce₂, if_pos rfl, hfields₂.1, hfields₂.2.1] at hnest
    obtain ⟨arm, later, body, rfl, hbody⟩ := hnest.2 _ _ rfl rfl
    exact ⟨arm, body, hnest.1, hbody⟩

end Generator

end TemplateCompiler
