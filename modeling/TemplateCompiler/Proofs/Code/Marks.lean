import Mathlib.Algebra.Order.BigOperators.Group.List
import Mathlib.Data.Multiset.OrderedMonoid
import TemplateCompiler.Proofs.Code.Plain

/-!
# The hoists and outlets in code

`Code.marks` names every hoist and every outlet in a piece of code with the element it was emitted for, as often
as it is there, whether it stands in a function, in a slot descriptor or in an inline template.
-/

namespace TemplateCompiler

/-- A hoist or an outlet of an element. -/
inductive Mark where
  | hoist (owner : Nat)
  | outlet (owner : Nat)
  deriving DecidableEq

namespace Code

def marks : Code → Multiset Mark
  | append a b => a.marks + b.marks
  | create _ _ _ data children => data.marks + children.marks
  | branch _ _ yes no => yes.marks + no.marks
  | hoist i _ body => .hoist i ::ₘ body.marks
  | outlet i arguments => .outlet i ::ₘ arguments.marks
  | loop _ _ _ body | fragment _ body | slots _ body _ | once _ _ body | memo _ _ body | inline body
  | unit body | rewritten _ body => body.marks
  | text _ | helper _ | call _ _ => 0

@[simp] theorem marks_text (s : String) : (text s).marks = 0 := rfl

@[simp] theorem marks_empty : empty.marks = 0 := rfl

@[simp] theorem marks_append (a b : Code) : (a ++ b).marks = a.marks + b.marks := rfl

@[simp] theorem marks_callHelper (h : Helper) (c : Code) : (callHelper h c).marks = c.marks := by
  show 0 + 0 + c.marks + 0 = c.marks
  simp

theorem marks_of_isPlain {c : Code} (h : c.isPlain = true) : c.marks = 0 := by
  induction c with
  | text | helper => rfl
  | append a b iha ihb =>
    rw [isPlain, Bool.and_eq_true] at h
    rw [marks, iha h.1, ihb h.2, add_zero]
  | _ => cases h

@[simp] theorem marks_join (separator : String) (cs : List Code) :
    (join separator cs).marks = (cs.map marks).sum := by
  induction cs with
  | nil => rfl
  | cons c rest ih =>
    cases rest with
    | nil => rw [List.map_singleton, List.sum_singleton]; rfl
    | cons d rest =>
      show c.marks + 0 + (join separator (d :: rest)).marks = _
      rw [ih, add_zero]
      simp only [List.map_cons, List.sum_cons]

end Code

namespace Children

/-- The marks of all children. -/
def marks : Children → Multiset Mark
  | .none => 0
  | .bare loop _ => loop.marks
  | .list items _ => (items.map Code.marks).sum

theorem marks_eq (c : Children) : c.marks = (c.code?.map Code.marks).getD 0 := by
  cases c with
  | none => rfl
  | bare loop level => exact (add_zero _).symm
  | list items level => simp [marks, code?]

@[simp] theorem marks_getD (c : Children) (s : String) : (c.code?.getD (Code.text s)).marks = c.marks := by
  rw [marks_eq]
  cases c.code? <;> rfl

@[simp] theorem marks_argument (c : Children) : c.argument.marks = c.marks := by
  rw [marks_eq, argument]
  cases c.code? <;> simp

end Children

namespace DataPart

def marks : DataPart → Multiset Mark
  | .entry code => code.marks
  | .fragments _ => 0

theorem sum_marks_of_isPlain {ps : List DataPart} (h : ∀ p ∈ ps, p.isPlain = true) :
    (ps.map marks).sum = 0 := by
  refine List.sum_eq_zero fun m hm => ?_
  obtain ⟨p, hp, rfl⟩ := List.mem_map.mp hm
  cases p with
  | entry code => exact Code.marks_of_isPlain (h _ hp)
  | fragments _ => rfl

theorem sum_marks_of_isBlank {ps : List DataPart} (h : ps.all isBlank = true) : (ps.map marks).sum = 0 := by
  refine sum_marks_of_isPlain fun p hp => ?_
  have hblank := List.all_eq_true.mp h p hp
  cases p with
  | entry code => cases hblank
  | fragments _ => rfl

theorem marks_join (ps : List DataPart) : (join ps).marks = (ps.map marks).sum := by
  induction ps with
  | nil => rfl
  | cons p rest ih =>
    rw [join, List.map_cons, List.sum_cons]
    split
    · next h =>
      rw [sum_marks_of_isBlank h, add_zero]
      cases p <;> rfl
    · rw [Code.marks_append, ih]
      congr 1
      cases p with
      | entry code => exact add_zero _
      | fragments _ => rfl

end DataPart

namespace Generator

variable {e : Element}

/-- The arguments of an outlet hold the children that it falls back to. -/
theorem marks_outletArguments (children : Children) {props : Option Code}
    (h : ∀ p, props = some p → p.marks = 0) :
    (outletArguments e children.code? props).marks = children.marks := by
  rw [children.marks_eq]
  unfold outletArguments
  rcases children.code? with _ | c <;> rcases props with _ | p <;>
    rcases (e.rawValue "v-bind").filled? with _ | b <;> simp [h]

theorem marks_slotContent (i : Nat) (legacy : Bool) (children : Children) :
    (slotContent i e legacy children).marks = children.marks := by
  unfold slotContent
  dsimp only
  split
  · split
    · exact (add_zero _).trans (children.marks_getD _)
    · exact children.marks_getD _
  · exact children.marks_getD _

@[simp] theorem marks_slotDescriptor (target : Json) (body : Code) :
    (slotDescriptor e target body).marks = body.marks := by
  simp [slotDescriptor]

theorem marks_bindDynamicAttrs {data c : Code} (h : bindDynamicAttrs e data = .ok c) : c.marks = data.marks := by
  unfold bindDynamicAttrs at h
  dsimp only at h
  split at h
  · cases h
    rfl
  · obtain ⟨k, hk, h⟩ := bind_ok h
    cases h
    simp [Code.marks_of_isPlain (isPlain_of_propsEntries hk)]

@[simp] theorem marks_mergeObjects (data : Code) : (mergeObjects e data).marks = data.marks := by
  have hdata : ((e.wrapData.map fun b => b.wrap data).getD data).marks = data.marks := by
    cases e.wrapData <;> simp [ObjectBinding.wrap]
  unfold mergeObjects
  cases e.wrapListeners <;> simp [ObjectListeners.wrap, hdata]

end Generator

end TemplateCompiler
