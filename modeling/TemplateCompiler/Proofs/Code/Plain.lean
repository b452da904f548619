import TemplateCompiler.Proofs.Code.SpelledParts

/-!
# Plain code

Plain code is text and helper names only. This is a judgement that texts over any characters have, so the entries of a
data object for properties and listeners are plain (`isPlain_of_propsEntries`, `isPlain_of_eventsCode`), and so are the
properties of an outlet: nothing below the element stands in them.
-/

namespace TemplateCompiler

namespace Code

/-- Code that is made of texts and helper names. -/
def isPlain : Code → Bool
  | text _ | helper _ => true
  | append a b => a.isPlain && b.isPlain
  | _ => false

theorem spelling_isPlain : Spelling (fun _ => True) fun c => c.isPlain = true where
  alphabet := ⟨fun _ _ => trivial, fun _ _ _ _ _ => trivial⟩
  text _ := rfl
  helper _ := rfl
  append ha hb := Bool.and_eq_true_iff.mpr ⟨ha, hb⟩

/-- There is nothing to lift from plain code. -/
theorem lift_of_isPlain {c : Code} (h : c.isPlain = true) (l : Lifted) : c.lift l = (c, l) := by
  induction c generalizing l with
  | text | helper => rfl
  | append a b iha ihb =>
    obtain ⟨ha, hb⟩ := Bool.and_eq_true_iff.mp h
    simp only [lift, iha ha, ihb hb]
  | _ => cases h

end Code

open Code (spelling_isPlain)

theorem Element.over_true (e : Element) : e.Over fun _ => True :=
  over_of_values fun _ _ _ _ => trivial

theorem isPlain_of_propsEntries {props : List Attr} {k : KeyedEntries} (h : propsEntries props = .ok k) :
    k.code.isPlain = true :=
  spelled_of_propsEntries spelling_isPlain (fun _ _ => ⟨fun _ _ => trivial, fun _ _ => trivial⟩) h

theorem isPlain_of_eventsCode {events : Events} {native : Bool} {c : Code} (h : eventsCode events native = .ok c) :
    c.isPlain = true :=
  spelled_of_eventsCode spelling_isPlain (Events.over_of_values fun _ _ _ _ => trivial) h

theorem isPlain_of_outletProps {e : Element} {c : Code} (h : Generator.outletProps e = .ok (some c)) :
    c.isPlain = true :=
  Generator.spelled_of_outletProps spelling_isPlain e.over_true h c rfl

/-! ## Parts of a data object -/

namespace DataPart

open Generator

def isPlain : DataPart → Bool
  | .entry code => code.isPlain
  | .fragments _ => true

theorem isPlain_of_spelled {p : DataPart} (h : p.Spelled (fun _ => True) fun c => c.isPlain = true) :
    p.isPlain = true := by
  cases p with
  | entry code => exact h
  | fragments text => rfl

theorem isPlain_of_ownEntries {o : Options} {e : Element} {verbatim : Bool} {p : DataPart}
    (h : p ∈ ownEntries o e verbatim) : p.isPlain = true :=
  isPlain_of_spelled (spelled_ownEntries spelling_isPlain e.over_true (fun _ _ _ _ => trivial) verbatim p h)

theorem isPlain_of_targetEntry {e : Element} {p : DataPart} (h : p ∈ targetEntry e) : p.isPlain = true :=
  isPlain_of_spelled (spelled_targetEntry spelling_isPlain e.over_true p h)

theorem isPlain_of_directivesEntry {kept : List Directive} {p : DataPart} (h : p ∈ directivesEntry kept) :
    p.isPlain = true := by
  have hover (d : Directive) : d.Over fun _ => True := Directive.over_of_values fun _ _ _ _ => trivial
  exact isPlain_of_spelled (spelled_directivesEntry spelling_isPlain (fun d _ => hover d) p h)

end DataPart

end TemplateCompiler
