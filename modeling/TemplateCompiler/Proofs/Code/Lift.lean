import TemplateCompiler.Code.Lift

/-!
# What lifting leaves alone

Lifting code only appends: the functions lifted before keep their numbers, and the number of the next
once mark never falls. `Code.hoisted` lists the lifted body of each hoist, in the order in which the
hoists are finished; `lift_functions` says that these bodies are the functions that are added.
-/

namespace TemplateCompiler.Code

theorem render_join (names : Names) (separator : String) (cs : List Code) :
    (join separator cs).render names = String.intercalate separator (cs.map (render names)) := by
  induction cs with
  | nil => rfl
  | cons c rest ih =>
    cases rest with
    | nil => exact (String.intercalate_singleton).symm
    | cons c' rest =>
      rw [List.map_cons, List.map_cons, String.intercalate_cons_cons, ← List.map_cons, ← ih]
      rfl

/-- The lifted body of every hoist, in the order in which they are finished. -/
def hoisted : Code → Lifted → List Code
  | append a b, s => a.hoisted s ++ b.hoisted (a.lift s).2
  | create _ true _ data children, s => children.hoisted s ++ data.hoisted (children.lift s).2
  | create _ false _ data children, s => data.hoisted s ++ children.hoisted (data.lift s).2
  | branch _ _ yes no, s => yes.hoisted s ++ no.hoisted (yes.lift s).2
  | loop _ _ _ body, s | fragment _ body, s | outlet _ body, s | slots _ body _, s
  | once _ _ body, s | memo _ _ body, s | rewritten _ body, s => body.hoisted s
  | hoist _ _ body, s =>
    body.hoisted s ++ [(body.lift s).1]
  | text _, _ | helper _, _ | call _ _, _ | inline _, _ | unit _, _ => []

/-- The functions that lifting adds are the bodies of the hoists. -/
theorem lift_functions (c : Code) (s : Lifted) :
    (c.lift s).2.functions = s.functions ++ c.hoisted s := by
  induction c generalizing s with
  | append a b iha ihb => simp [lift, hoisted, iha, ihb]
  | create owner dynamic target data children ihd ihc =>
    cases dynamic <;> simp [lift, hoisted, ihd, ihc]
  | branch owner test yes no ihy ihn => simp [lift, hoisted, ihy, ihn]
  | hoist owner inLoop body ih => simp [lift, hoisted, ih]
  | loop _ _ _ _ ih | fragment _ _ ih | outlet _ _ ih | slots _ _ _ ih | once _ _ _ ih
  | memo _ _ _ ih | rewritten _ _ ih => simp [lift, hoisted, ih]
  | text | helper | call | inline | unit => simp [lift, hoisted]

theorem functions_prefix_lift (c : Code) (s : Lifted) :
    s.functions <+: (c.lift s).2.functions :=
  ⟨_, (lift_functions c s).symm⟩

theorem marks_le_lift (c : Code) (s : Lifted) : s.marks ≤ (c.lift s).2.marks := by
  induction c generalizing s with
  | append a b iha ihb => exact Nat.le_trans (iha s) (ihb _)
  | create owner dynamic target data children ihd ihc =>
    cases dynamic
    · exact Nat.le_trans (ihd s) (ihc _)
    · exact Nat.le_trans (ihc s) (ihd _)
  | branch owner test yes no ihy ihn => exact Nat.le_trans (ihy s) (ihn _)
  | once owner key body ih => exact Nat.le_trans (ih s) (Nat.le_succ _)
  | hoist _ _ _ ih | loop _ _ _ _ ih | fragment _ _ ih | outlet _ _ ih | slots _ _ _ ih
  | memo _ _ _ ih | rewritten _ _ ih => exact ih s
  | text | helper | call | inline | unit => exact Nat.le_refl _

end TemplateCompiler.Code
