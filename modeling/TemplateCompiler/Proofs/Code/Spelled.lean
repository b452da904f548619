import TemplateCompiler.Code.Lift
import TemplateCompiler.Proofs.Json.Letters

/-!
# Code over an alphabet

Code is `Over P` if all texts in it are. Lifting moves code around and adds texts of the compiler, and so does
rendering, so that the functions of a program are over an alphabet that its code and the names of the helpers are
over (`Code.over_program`). What is written piece by piece has every judgement that its pieces have, be it this one
or a finer one (`Code.Spelling`).
-/

namespace TemplateCompiler

open Text

namespace Code

def Over (P : Char → Prop) : Code → Prop
  | text s => Text.Over P s
  | helper _ | call _ _ => True
  | append a b => a.Over P ∧ b.Over P
  | create _ _ target data children => Text.Over P target ∧ data.Over P ∧ children.Over P
  | loop _ source params body => Text.Over P source ∧ Text.Over P params ∧ body.Over P
  | branch _ test yes no => Text.Over P test ∧ yes.Over P ∧ no.Over P
  | fragment _ body | outlet _ body | slots _ body _ | hoist _ _ body | inline body | unit body => body.Over P
  | once _ key body | memo _ key body => Text.Over P key ∧ body.Over P
  | rewritten f body => (∀ s, Text.Over P s → Text.Over P (f s)) ∧ body.Over P

variable {P : Char → Prop}

theorem Over.append {a b : Code} (ha : a.Over P) (hb : b.Over P) : (a ++ b).Over P := ⟨ha, hb⟩

/-- A judgement that holds of texts over `P` and of helpers and is kept by appending. -/
structure Spelling (P : Char → Prop) (J : Code → Prop) : Prop where
  alphabet : Alphabet P
  text : ∀ {s}, Text.Over P s → J (text s)
  helper : ∀ h, J (helper h)
  append : ∀ {a b}, J a → J b → J (a ++ b)

namespace Spelling

variable {J : Code → Prop} (hJ : Spelling P J)

include hJ

theorem fixed {s : String} (h : s.toList.all isPrintable = true) : J (Code.text s) :=
  hJ.text (hJ.alphabet.fixed h)

theorem empty : J Code.empty :=
  hJ.text over_empty

theorem join {separator : String} (hseparator : Text.Over P separator) {cs : List Code} (h : ∀ c ∈ cs, J c) :
    J (Code.join separator cs) := by
  induction cs with
  | nil => exact hJ.empty
  | cons c rest ih =>
    obtain ⟨hc, hrest⟩ := List.forall_mem_cons.mp h
    cases rest with
    | nil => exact hc
    | cons d rest => exact hJ.append (hJ.append hc (hJ.text hseparator)) (ih hrest)

theorem callHelper (h : Helper) {arguments : Code} (ha : J arguments) : J (Code.callHelper h arguments) :=
  hJ.append (hJ.append (hJ.append (hJ.helper h) (hJ.fixed (by decide))) ha) (hJ.fixed (by decide))

end Spelling

theorem spelling_over (hP : Alphabet P) : Spelling P (Over P) where
  alphabet := hP
  text h := h
  helper _ := trivial
  append := .append

/-! ## Programs -/

variable (hP : Alphabet P)

include hP

theorem Over.enclosed {c : Code} (h : c.Over P) : c.enclosed.Over P :=
  .append (.append (hP.fixed (by decide)) h) (hP.fixed (by decide))

theorem over_inlineEntry {body : Code} (hb : body.Over P) {functions : List Code}
    (hf : ∀ f ∈ functions, f.Over P) : (inlineEntry body functions).Over P := by
  have hfunctions : (join "," (functions.map fun f =>
      Code.text "function()\x7b" ++ enclosed f ++ Code.text "\x7d")).Over P := by
    refine (spelling_over hP).join (hP.fixed (by decide)) fun c hc => ?_
    obtain ⟨f, hmem, rfl⟩ := List.mem_map.mp hc
    exact .append (.append (hP.fixed (by decide)) ((hf f hmem).enclosed hP)) (hP.fixed (by decide))
  refine .append (.append (.append (.append ?_ (hb.enclosed hP)) ?_) hfunctions) (hP.fixed (by decide))
  · exact hP.fixed (by decide +kernel)
  · exact hP.fixed (by decide +kernel)

/-- Lifting keeps code over an alphabet, and so is what it takes out. -/
theorem Over.lift {c : Code} (h : c.Over P) {s : Lifted} (hs : ∀ f ∈ s.functions, f.Over P) :
    (c.lift s).1.Over P ∧ ∀ f ∈ (c.lift s).2.functions, f.Over P := by
  induction c generalizing s with
  | text _ | helper _ | call _ _ | unit _ _ => exact ⟨h, hs⟩
  | append a b iha ihb =>
    obtain ⟨ha, hs⟩ := iha h.1 hs
    obtain ⟨hb, hs⟩ := ihb h.2 hs
    exact ⟨⟨ha, hb⟩, hs⟩
  | create owner dynamic target data children ihd ihc =>
    obtain ⟨ht, hd, hc⟩ := h
    cases dynamic with
    | true =>
      obtain ⟨hc, hs⟩ := ihc hc hs
      obtain ⟨hd, hs⟩ := ihd hd hs
      exact ⟨⟨ht, hd, hc⟩, hs⟩
    | false =>
      obtain ⟨hd, hs⟩ := ihd hd hs
      obtain ⟨hc, hs⟩ := ihc hc hs
      exact ⟨⟨ht, hd, hc⟩, hs⟩
  | branch owner test yes no ihy ihn =>
    obtain ⟨ht, hy, hn⟩ := h
    obtain ⟨hy, hs⟩ := ihy hy hs
    obtain ⟨hn, hs⟩ := ihn hn hs
    exact ⟨⟨ht, hy, hn⟩, hs⟩
  | loop owner source params body ih =>
    obtain ⟨hsource, hparams, hb⟩ := h
    exact ⟨⟨hsource, hparams, (ih hb hs).1⟩, (ih hb hs).2⟩
  | fragment _ _ ih | outlet _ _ ih | slots _ _ _ ih => exact ⟨(ih h hs).1, (ih h hs).2⟩
  | once _ _ _ ih | memo _ _ _ ih | rewritten _ _ ih => exact ⟨⟨h.1, (ih h.2 hs).1⟩, (ih h.2 hs).2⟩
  | hoist owner inLoop body ih =>
    obtain ⟨hb, hs⟩ := ih h hs
    exact ⟨trivial, List.forall_mem_append.mpr ⟨hs, List.forall_mem_singleton.mpr hb⟩⟩
  | inline body ih =>
    -- The functions of an inline template are its own.
    obtain ⟨hb, hown⟩ := ih h (s := {}) nofun
    exact ⟨over_inlineEntry hP hb hown, hs⟩

theorem over_hintText (hint : UpdateHint) (descriptors : String) :
    Text.Over P (hintText hint descriptors) := by
  cases hint with
  | none => exact over_empty
  | force => exact hP.fixed (s := ",null,true") (by decide)
  | keyed => exact over_append.mpr ⟨hP.fixed (by decide), Json.over_toString_nat hP _⟩

/-- Rendering adds the names of helpers, numbers and fixed texts. -/
theorem Over.render {names : Names} (hn : names.Over P) {c : Code} (h : c.Over P) :
    Text.Over P (c.render names) := by
  have hopen := hP.fixed (s := "(") (by decide)
  have hclose := hP.fixed (s := ")") (by decide)
  induction c with
  | text _ => exact h
  | helper helper => exact hn helper
  | append a b iha ihb => exact over_append.mpr ⟨iha h.1, ihb h.2⟩
  | create owner dynamic target data children ihd ihc =>
    obtain ⟨ht, hd, hc⟩ := h
    simp only [Code.render, over_append, hn .create, hopen, ht, ihd hd, ihc hc, hclose, and_self]
  | loop owner source params body ih =>
    obtain ⟨hsource, hparams, hb⟩ := h
    have hlist := hP.fixed (s := "((") (by decide)
    have hfunction := hP.fixed (s := "),function(") (by decide)
    have hreturn := hP.fixed (s := ")\x7breturn ") (by decide)
    have hend := hP.fixed (s := "\x7d)") (by decide)
    simp only [Code.render, over_append, hn .renderList, hlist, hsource, hfunction, hparams, hreturn, ih hb, hend,
      and_self]
  | branch owner test yes no ihy ihn =>
    obtain ⟨ht, hy, hno⟩ := h
    have hthen := hP.fixed (s := ")?") (by decide)
    have helse := hP.fixed (s := ":") (by decide)
    simp only [Code.render, over_append, hopen, ht, hthen, ihy hy, helse, ihn hno, and_self]
  | fragment _ _ ih | hoist _ _ _ ih | unit _ ih => exact ih h
  | once _ _ _ ih => exact ih h.2
  | rewritten f body ih => exact h.1 _ (ih h.2)
  | outlet _ _ ih => simp only [Code.render, over_append, hn .renderSlot, hopen, ih h, hclose, and_self]
  | slots owner descriptors hint ih =>
    have hlist := hP.fixed (s := "([") (by decide)
    have hend := hP.fixed (s := "]") (by decide)
    simp only [Code.render, over_append, hn .resolveScopedSlots, hlist, ih h, hend, over_hintText hP, hclose,
      and_self]
  | call index inLoop =>
    have hloop : Text.Over P (if inLoop then ",true" else "") := by
      cases inLoop with
      | true => exact hP.fixed (s := ",true") (by decide)
      | false => exact over_empty
    simp only [Code.render, over_append, hn .renderStatic, hopen, Json.over_toString_nat hP, hloop, hclose, and_self]
  | memo id key body ih =>
    obtain ⟨hk, hb⟩ := h
    have hcomma := hP.fixed (s := ",") (by decide)
    simp only [Code.render, over_append, hn .markOnce, hopen, ih hb, hcomma, Json.over_toString_nat hP, hk, hclose,
      and_self]
  | inline body ih =>
    show Text.Over P (_ ++ body.render names ++ _)
    refine over_append.mpr ⟨over_append.mpr ⟨?_, ih h⟩, ?_⟩
    · exact hP.fixed (by decide +kernel)
    · exact hP.fixed (by decide +kernel)

/-- The functions of a program have the letters of its code and of the names. -/
theorem over_program {names : Names} (hn : names.Over P) {c : Code} (h : c.Over P) :
    Text.Over P (c.program names).render ∧ ∀ f ∈ (c.program names).functions, Text.Over P f := by
  obtain ⟨hmain, hlifted⟩ := h.lift hP (s := {}) nofun
  refine ⟨(hmain.enclosed hP).render hP hn, fun f hf => ?_⟩
  obtain ⟨c, hc, rfl⟩ := List.mem_map.mp hf
  exact ((hlifted c hc).enclosed hP).render hP hn

end Code

end TemplateCompiler
