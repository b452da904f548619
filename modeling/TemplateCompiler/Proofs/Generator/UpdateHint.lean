import TemplateCompiler.Proofs.Code.Lift
import TemplateCompiler.Proofs.Environment.Compile
import TemplateCompiler.Proofs.Generator.Coupled
import TemplateCompiler.Proofs.Tree.Arena
import TemplateCompiler.Proofs.Tree.Outlets

/-!
# The hint after slot descriptors

A component that is given scoped slots is told when it has to update. `Forced` and `Keyed` say when, by what
stands around the component and in its slot definitions; `updateHint_eq_force_iff` and its companions say that
the walk of the generator, which stops at the first element that forces an update, finds out about both. The
text of the descriptors with their hint is given by `text_emitScopedSlots`.
-/

namespace TemplateCompiler

namespace Code

variable {names : Names}

/-- Lifts codes one after another. -/
def liftEach : List Code → Lifted → List Code × Lifted
  | [], s => ([], s)
  | c :: rest, s => ((c.lift s).1 :: (liftEach rest (c.lift s).2).1, (liftEach rest (c.lift s).2).2)

theorem lift_join (separator : String) (cs : List Code) (s : Lifted) :
    (join separator cs).lift s = (join separator (liftEach cs s).1, (liftEach cs s).2) := by
  induction cs generalizing s with
  | nil => rfl
  | cons c rest ih =>
    cases rest with
    | nil => rfl
    | cons c' rest =>
      show lift (append (append c (text separator)) (join separator (c' :: rest))) s = _
      simp only [lift, ih]
      rfl

/-- The texts of codes that are lifted one after another. -/
def texts (names : Names) (cs : List Code) (s : Lifted) : List String :=
  (liftEach cs s).1.map (render names)

/-- The three hints can be told apart, whatever the hash. -/
theorem hintText_inj {a b : UpdateHint} {d : String} : hintText a d = hintText b d ↔ a = b := by
  refine ⟨fun h => ?_, fun h => h ▸ rfl⟩
  have hlist := congrArg String.toList h
  cases a <;> cases b <;> first | rfl | simp [hintText] at hlist

end Code

namespace Generator

open Relation

/-- A scope binds the properties of a slot if it is written and is not the empty one. -/
theorem bindsScope_iff (scope : Json) :
    bindsScope scope = true ↔ scope.truthy = true ∧ scope ≠ .string "_empty_" := by
  unfold bindsScope
  rw [Bool.and_eq_true, Bool.not_eq_true']
  refine and_congr_right fun _ => ?_
  unfold Json.isText
  split
  · rw [beq_eq_false_iff_ne, Ne, Ne, Json.string.injEq]
    rfl
  · next h => exact iff_of_true rfl (h _)

/-- What forces the component `i`, with element `e`, to update. -/
inductive Forced (t : Tree) (i : Nat) (e : Element) : Prop
  | loops (h : e.loops = true)
  /-- A slot definition that can come and go, or passes on an outlet. -/
  | unstable {s : Nat} {d : Element} (hs : s ∈ e.scopedSlots.map Prod.snd) (hd : t.element? s = some d)
      (h : d.slotTargetDynamic.truthy = true ∨ d.tested = true ∨ d.loops = true ∨ t.HoldsOutlet s)
  /-- What is rendered again for each item or each set of slot properties. -/
  | above {p : Nat} {d : Element} (hp : t.Above i p) (hd : t.element? p = some d)
      (h : d.loops = true ∨ d.slotScope.truthy = true ∧ d.slotScope ≠ .string "_empty_")

/-- A test around the component, or of the component itself. -/
def Keyed (t : Tree) (i : Nat) (e : Element) : Prop :=
  e.tested = true ∨ ∃ p d, t.Above i p ∧ t.element? p = some d ∧ d.tested = true

variable {t : Tree} {i : Nat} {e : Element}

/-! ## The walk up -/

theorem hintAbove_eq_force_iff (es : List Element) (keyed : Bool) :
    hintAbove es keyed = .force ↔ ∃ e ∈ es, (bindsScope e.slotScope || e.loops) = true := by
  induction es generalizing keyed with
  | nil => cases keyed <;> simp [hintAbove]
  | cons e rest ih =>
    rw [hintAbove, List.exists_mem_cons_iff]
    split
    · next h => exact iff_of_true rfl (.inl h)
    · next h => rw [ih, or_iff_right h]

/-- A walk that nothing stops has seen every test. -/
theorem hintAbove_eq_keyed_iff (es : List Element) (keyed : Bool) :
    hintAbove es keyed = .keyed ↔
      hintAbove es keyed ≠ .force ∧ (keyed = true ∨ ∃ e ∈ es, e.tested = true) := by
  induction es generalizing keyed with
  | nil => cases keyed <;> simp [hintAbove]
  | cons e rest ih =>
    rw [hintAbove, List.exists_mem_cons_iff, ← or_assoc, ← Bool.or_eq_true]
    split
    · simp
    · exact ih _

theorem isUnstable_iff {s : Nat} : isUnstable t s = true ↔ ∃ d, t.element? s = some d ∧
    (d.slotTargetDynamic.truthy = true ∨ d.tested = true ∨ d.loops = true ∨ t.HoldsOutlet s) := by
  unfold isUnstable
  rcases t.element? s with _ | d
  · simp
  · simp only [Bool.or_eq_true, t.hasOutlet_iff, Option.some.injEq, exists_eq_left', or_assoc]

/-! ## The hint -/

theorem updateHint_eq_force_iff (h : t.WellFormed) : updateHint t i e = .force ↔ Forced t i e := by
  have habove : hintAbove (t.ancestorElements i) e.tested = .force ↔ ∃ p d, t.Above i p ∧
      t.element? p = some d ∧ (d.loops = true ∨ d.slotScope.truthy = true ∧ d.slotScope ≠ .string "_empty_") := by
    simp only [hintAbove_eq_force_iff, h.mem_ancestorElements, Bool.or_eq_true, bindsScope_iff]
    constructor
    · rintro ⟨d, ⟨p, hp, hd⟩, hforce⟩
      exact ⟨p, d, hp, hd, hforce.symm⟩
    · rintro ⟨p, d, hp, hd, hforce⟩
      exact ⟨d, ⟨p, hp, hd⟩, hforce.symm⟩
  unfold updateHint
  split
  · next hown =>
    refine iff_of_true rfl ?_
    rcases Bool.or_eq_true_iff.mp hown with hloops | hslots
    · exact .loops hloops
    · obtain ⟨s, hs, hunstable⟩ := List.any_eq_true.mp hslots
      obtain ⟨d, hd, hd'⟩ := isUnstable_iff.mp hunstable
      exact .unstable hs hd hd'
  · next hown =>
    rw [Bool.or_eq_true, not_or] at hown
    rw [habove]
    constructor
    · rintro ⟨p, d, hp, hd, hforce⟩
      exact .above hp hd hforce
    · intro hforced
      cases hforced with
      | loops hloops => exact absurd hloops hown.1
      | unstable hs hd hd' =>
        exact absurd (List.any_eq_true.mpr ⟨_, hs, isUnstable_iff.mpr ⟨_, hd, hd'⟩⟩) hown.2
      | above hp hd hforce => exact ⟨_, _, hp, hd, hforce⟩

theorem updateHint_eq_keyed_iff (h : t.WellFormed) :
    updateHint t i e = .keyed ↔ ¬Forced t i e ∧ Keyed t i e := by
  rw [← updateHint_eq_force_iff h]
  unfold updateHint
  split
  · simp
  · rw [hintAbove_eq_keyed_iff]
    refine and_congr_right fun _ => or_congr_right ?_
    simp only [h.mem_ancestorElements]
    constructor
    · rintro ⟨d, ⟨p, hp, hd⟩, htested⟩
      exact ⟨p, d, hp, hd, htested⟩
    · rintro ⟨p, d, hp, hd, htested⟩
      exact ⟨d, ⟨p, hp, hd⟩, htested⟩

theorem updateHint_eq_none_iff (h : t.WellFormed) :
    updateHint t i e = .none ↔ ¬Forced t i e ∧ ¬Keyed t i e := by
  have hforce := updateHint_eq_force_iff h (i := i) (e := e)
  have hkeyed := updateHint_eq_keyed_iff h (i := i) (e := e)
  cases hhint : updateHint t i e <;> simp only [hhint, reduceCtorEq, true_iff, false_iff] at hforce hkeyed ⊢
  all_goals tauto

/-! ## The text -/

theorem outcome_emitScopedSlots {self : Emit} {g g' : Generation} {entries : List Code}
    (h : outcome (e.scopedSlots.mapM fun s => self (.slotEntry s.2 {})) g = (.ok entries, g')) :
    outcome (emitScopedSlots self i e) g =
      (.ok (Code.text "scopedSlots:" ++ .slots i (Code.join "," entries) (updateHint g.tree i e)), g') := by
  unfold emitScopedSlots
  rw [outcome_bind_of_ok (outcome_get g), outcome_bind_of_ok h, outcome_pure]

theorem render_lift_slots (names : Names) (entries : List Code) (hint : UpdateHint) (s : Lifted) :
    ((Code.text "scopedSlots:" ++ .slots i (Code.join "," entries) hint).lift s).1.render names =
      "scopedSlots:" ++ names .resolveScopedSlots ++ "([" ++ String.intercalate "," (Code.texts names entries s) ++
        "]" ++ Code.hintText hint (String.intercalate "," (Code.texts names entries s)) ++ ")" := by
  show Code.render names (Code.lift (Code.append _ _) s).1 = _
  simp only [Code.lift, Code.lift_join, Code.render, Code.render_join, Code.texts, String.append_assoc]

/-- If the descriptors of a component's slots can be generated, they are written as a list with commas between
them, followed by a hint. Exactly if something forces updates the hint says so; exactly if nothing does and
there is a test it gives the hash of the text of the list; and otherwise there is no hint. -/
theorem text_emitScopedSlots {self : Emit} {g g' : Generation} {entries : List Code}
    (hw : g.tree.WellFormed)
    (hentries : outcome (e.scopedSlots.mapM fun s => self (.slotEntry s.2 {})) g = (.ok entries, g')) :
    ∃ c, outcome (emitScopedSlots self i e) g = (.ok c, g') ∧ ∀ (names : Names) (s : Lifted),
      let list := String.intercalate "," (Code.texts names entries s)
      ∃ hint, (c.lift s).1.render names =
          "scopedSlots:" ++ names .resolveScopedSlots ++ "([" ++ list ++ "]" ++ hint ++ ")" ∧
        (hint = ",null,true" ↔ Forced g.tree i e) ∧
        (hint = ",null,false," ++ toString (Text.slotHash list).toNat ↔
          ¬Forced g.tree i e ∧ Keyed g.tree i e) ∧
        (hint = "" ↔ ¬Forced g.tree i e ∧ ¬Keyed g.tree i e) := by
  refine ⟨_, outcome_emitScopedSlots hentries, fun names s => ⟨_, render_lift_slots names .., ?_, ?_, ?_⟩⟩
  · rw [← updateHint_eq_force_iff hw]
    exact Code.hintText_inj (b := .force)
  · rw [← updateHint_eq_keyed_iff hw]
    exact Code.hintText_inj (b := .keyed)
  · rw [← updateHint_eq_none_iff hw]
    exact Code.hintText_inj (b := .none)

/-- A component with a slot definition, two levels below a test. -/
def cabinetData : Json :=
  let label : Json := .object [("type", .int 3), ("text", "none")]
  let definition : Json := .object [("tag", "template"), ("slotTarget", "head"), ("children", .array [label])]
  let component : Json := .object [("tag", "my-list"), ("scopedSlots", .object [("head", definition)])]
  .object [("tag", "section"), ("if", "open"), ("ifConditions", .array [.object [("exp", "open")]]),
    ("children", .array [.object [("tag", "div"), ("children", .array [component])]])]

theorem text_emitScopedSlots_cabinet : ∃ t e c g list, (Tree.load cabinetData).1 = .ok t ∧
    t.element? 2 = some e ∧ outcome (emitScopedSlots (run {} 40) 2 e) { tree := t } = (.ok c, g) ∧
    (c.lift {}).1.render .standard = "scopedSlots:_u([" ++ list ++ "],null,false," ++
      toString (Text.slotHash list).toNat ++ ")" := by
  have h : ((Tree.load cabinetData).1.toOption.bind fun t => (t.element? 2).bind fun e =>
      (outcome (e.scopedSlots.mapM fun s => run {} 40 (.slotEntry s.2 {})) { tree := t }).1.toOption.map
        fun _ => decide (updateHint t 2 e = .keyed)) = some true := by
    decide +kernel
  obtain ⟨t, ht, h⟩ := Option.bind_eq_some_iff.mp h
  obtain ⟨e, he, h⟩ := Option.bind_eq_some_iff.mp h
  obtain ⟨entries, hentries, hkeyed⟩ := Option.map_eq_some_iff.mp h
  have hw : t.WellFormed := Tree.wellFormed_load (ok_of_toOption ht)
  obtain ⟨c, hc, htext⟩ := text_emitScopedSlots (i := 2) (g := { tree := t }) hw
    (Prod.ext (ok_of_toOption hentries) rfl)
  obtain ⟨hint, hrender, -, hhash, -⟩ := htext .standard {}
  refine ⟨t, e, c, _, String.intercalate "," (Code.texts .standard entries {}), ok_of_toOption ht, he, hc, ?_⟩
  rw [hrender, hhash.mpr ((updateHint_eq_keyed_iff hw).mp (of_decide_eq_true hkeyed))]
  simp only [String.append_assoc]
  rfl

end Generator

end TemplateCompiler
