import TemplateCompiler.Proofs.Generator.UpdateHint
import TemplateCompiler.Proofs.Generator.Ways

/-!
# Outlets in slot definitions

A component that passes an outlet on in one of its slots has to update when its own slots do. The search that
finds such an outlet follows children only, while generation also follows the chains of tested elements and slot
definitions (`Tree.Follows`). So an outlet in the descriptors of a component forces updates, unless the way from
the slot definition to the outlet leaves the children: by a chain inside the definition, or by a slot definition
of another component (`forced_or_leaves`).
-/

namespace TemplateCompiler

open Relation

/-- A way down that leaves the children of `d` before it gets to `j`: by the slot definition of another component,
or by the chain of an element below `d`. -/
def Tree.Leaves (t : Tree) (d j : Nat) : Prop :=
  ∃ m b, ReflTransGen (t.Lists .child) d m ∧
    (t.Lists .slot m b ∨ m ≠ d ∧ (∃ e, t.element? m = some e ∧ e.tested = true) ∧ t.Lists .block m b) ∧
    ReflTransGen t.Follows b j

namespace Generator

variable {t : Tree} {i j : Nat} {e : Element}

/-- Where a way down first follows another link than one to a child. -/
theorem children_or_leaves {d : Nat} (h : ReflTransGen t.Follows d j) :
    ReflTransGen (t.Lists .child) d j ∨ ∃ m b, ReflTransGen (t.Lists .child) d m ∧
      (t.Lists .slot m b ∨ (∃ e, t.element? m = some e ∧ e.tested = true) ∧ t.Lists .block m b) ∧
      ReflTransGen t.Follows b j := by
  induction h using ReflTransGen.head_induction_on with
  | refl => exact .inl .refl
  | head hstep hrest ih =>
    cases hstep with
    | child hchild =>
      refine ih.imp (.head hchild) ?_
      rintro ⟨m, b, hm, hleave, hb⟩
      exact ⟨m, b, .head hchild hm, hleave, hb⟩
    | slot hslot => exact .inr ⟨_, _, .refl, .inl hslot, hrest⟩
    | block he ht hblock => exact .inr ⟨_, _, .refl, .inr ⟨⟨_, he, ht⟩, hblock⟩, hrest⟩

theorem updateHint_eq_force {s : Nat} (hs : s ∈ e.scopedSlots.map Prod.snd) (h : isUnstable t s = true) :
    updateHint t i e = .force := by
  unfold updateHint
  rw [if_pos]
  exact Bool.or_eq_true_iff.mpr (.inr (List.any_eq_true.mpr ⟨s, hs, h⟩))

theorem isUnstable_of_holdsOutlet {s : Nat} (h : t.HoldsOutlet s) : isUnstable t s = true := by
  obtain ⟨e, he⟩ := Tree.element?_of_hasOutletWithin ((t.hasOutlet_iff s).mpr h)
  exact isUnstable_iff.mpr ⟨e, he, .inr (.inr (.inr h))⟩

/-- A slot definition that leads to an outlet forces updates, unless the way there leaves the children. -/
theorem force_or_leaves {d : Nat} {done : Stages} (hd : d ∈ e.scopedSlots.map Prod.snd)
    (h : Leads t (.slotEntry d done) (.outlet j)) : updateHint t i e = .force ∨ t.Leaves d j := by
  obtain ⟨e', he', hslot⟩ := h.outlet j rfl
  rcases children_or_leaves h.path with hchildren | ⟨m, b, hm, hleave, hb⟩
  · exact .inl (updateHint_eq_force hd (isUnstable_of_holdsOutlet ⟨j, e', hchildren, he', hslot⟩))
  rcases hleave with hslot | ⟨⟨e₁, he₁, ht⟩, hblock⟩
  · exact .inr ⟨m, b, hm, .inl hslot, hb⟩
  -- The chain of the definition itself comes with a test of it.
  by_cases hmd : m = d
  · subst hmd
    exact .inl (updateHint_eq_force hd (isUnstable_iff.mpr ⟨e₁, he₁, .inr (.inl ht)⟩))
  · exact .inr ⟨m, b, hm, .inr ⟨hmd, ⟨e₁, he₁, ht⟩, hblock⟩, hb⟩

/-- The text of the descriptors ends with the hint to update always. -/
def ForcesUpdate (c : Code) : Prop :=
  ∀ (names : Names) (s : Lifted), ∃ list, (c.lift s).1.render names =
    "scopedSlots:" ++ names .resolveScopedSlots ++ "([" ++ list ++ "],null,true)"

theorem outcome_emitScopedSlots_ok {self : Emit} {g g' : Generation} {c : Code}
    (h : outcome (emitScopedSlots self i e) g = (.ok c, g')) : ∃ entries,
      c = Code.text "scopedSlots:" ++ .slots i (Code.join "," entries) (updateHint g.tree i e) := by
  obtain ⟨g₀, g₁, hg, h⟩ := outcome_bind_ok h
  cases hg
  obtain ⟨entries, g₂, -, h⟩ := outcome_bind_ok h
  cases h
  exact ⟨entries, rfl⟩

theorem forcesUpdate_of_force {entries : List Code} :
    ForcesUpdate (Code.text "scopedSlots:" ++ .slots i (Code.join "," entries) .force) := by
  refine fun names s => ⟨String.intercalate "," (Code.texts names entries s), ?_⟩
  rw [render_lift_slots]
  simp only [Code.hintText, String.append_assoc]
  rfl

/-- A component updates always if a `<slot>` stands below one of its slot definitions along children. If the code
of its slot definitions contains the outlet of a `<slot>` at all, then the component updates always, or the way
from the slot definition to the `<slot>` goes through another component's slot definition or through the chain
of an element inside the definition. -/
theorem forced_or_leaves {o : Options} (ho : o.Tidy) (hm : o.Unmarking) {g g' : Generation} {fuel : Nat}
    {c : Code} (he : g.tree.element? i = some e)
    (hc : outcome (emitScopedSlots (run o fuel) i e) g = (.ok c, g')) :
    (∀ d ∈ e.scopedSlots.map Prod.snd, g.tree.HoldsOutlet d → ForcesUpdate c) ∧
    ∀ j, .outlet j ∈ c.marks →
      ForcesUpdate c ∨ ∃ d, g.tree.Lists .slot i d ∧ g.tree.Leaves d j := by
  have hmarks : c.marks ≤ slotShare (budget g.tree fuel) e :=
    (yields_slotShare (fun s => marks_run ho hm fuel s) g (.refl _) c g' hc).1
  obtain ⟨entries, rfl⟩ := outcome_emitScopedSlots_ok hc
  have hforces (h : updateHint g.tree i e = .force) : ForcesUpdate
      (Code.text "scopedSlots:" ++ .slots i (Code.join "," entries) (updateHint g.tree i e)) := by
    rw [h]
    exact forcesUpdate_of_force
  refine ⟨fun d hd hholds => hforces (updateHint_eq_force hd (isUnstable_of_holdsOutlet hholds)), fun j hj => ?_⟩
  obtain ⟨s, hs, hj⟩ := mem_sum_map.mp (Multiset.mem_of_le hmarks hj)
  have hd : s.2 ∈ e.scopedSlots.map Prod.snd := List.mem_map_of_mem hs
  exact (force_or_leaves hd (leads_of_budget hj)).imp hforces fun h => ⟨s.2, ⟨e, he, hd, nofun⟩, h⟩

/-- A component whose default slot holds a paragraph with an outlet. -/
def frameData : Json :=
  let outlet : Json := .object [("tag", "slot")]
  let paragraph : Json := .object [("tag", "p"), ("children", .array [outlet])]
  let definition : Json := .object [("tag", "template"), ("children", .array [paragraph])]
  .object [("tag", "my-frame"), ("scopedSlots", .object [("default", definition)])]

theorem forced_or_leaves_frame : ∃ t e c g, (Tree.load frameData).1 = .ok t ∧ t.element? 0 = some e ∧
    outcome (emitScopedSlots (run ({} : Environment).options 40) 0 e) { tree := t } = (.ok c, g) ∧
    .outlet 3 ∈ c.marks ∧ ForcesUpdate c := by
  have h : ((Tree.load frameData).1.toOption.bind fun t => (t.element? 0).bind fun e =>
      (outcome (emitScopedSlots (run ({} : Environment).options 40) 0 e) { tree := t }).1.toOption.map fun c =>
        decide (e.scopedSlots.map Prod.snd = [1] ∧ t.hasOutlet 1 = true ∧ .outlet 3 ∈ c.marks)) =
      some true := by
    decide +kernel
  obtain ⟨t, ht, h⟩ := Option.bind_eq_some_iff.mp h
  obtain ⟨e, he, h⟩ := Option.bind_eq_some_iff.mp h
  obtain ⟨c, hc, h⟩ := Option.map_eq_some_iff.mp h
  obtain ⟨hslots, houtlet, hmark⟩ := of_decide_eq_true h
  have hforced := (forced_or_leaves (Options.tidy_standard rfl) (Options.unmarking_standard rfl)
    (g := { tree := t }) he (Prod.ext (ok_of_toOption hc) rfl)).1 1 (by rw [hslots]; decide)
    ((t.hasOutlet_iff 1).mp houtlet)
  exact ⟨t, e, c, _, ok_of_toOption ht, he, Prod.ext (ok_of_toOption hc) rfl, hmark, hforced⟩

end Generator

end TemplateCompiler
