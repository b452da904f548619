import Mathlib.Data.List.Induction
import TemplateCompiler.Proofs.Code.References

/-!
# Undoing hoists

`Code.unhoisted` puts the body of every hoist back in its place; `MarkedProgram.inlined` does the same
to a program, by putting the expression of a function in the place of each call. The two agree
(`inlined_marked`) on code in which no hash of slot content is taken over a hoist: the hash is a number
in the text, taken before the call is replaced.
-/

namespace TemplateCompiler

namespace Piece

/-- The text of a piece, with the expression of a function in the place of a call. -/
def fill (expressions : List String) : Piece → String
  | text s => s
  | call index _ => expressions.getD index ""
  | mark id => toString id

/-- The expressions of functions with all calls in them replaced, from the first function on: a
function calls only functions before it. -/
def expansions (functions : List (List Piece)) : List String :=
  functions.foldl (fun done f => done ++ [assemble (fill done) f]) []

theorem expansions_concat (fs : List (List Piece)) (f : List Piece) :
    expansions (fs ++ [f]) = expansions fs ++ [assemble (fill (expansions fs)) f] := by
  simp [expansions]

theorem length_expansions (fs : List (List Piece)) : (expansions fs).length = fs.length := by
  induction fs using List.reverseRecOn with
  | nil => rfl
  | append_singleton fs f ih => simp [expansions_concat, ih]

theorem expansions_prefix {fs gs : List (List Piece)} (h : fs <+: gs) :
    expansions fs <+: expansions gs := by
  obtain ⟨rest, rfl⟩ := h
  induction rest using List.reverseRecOn with
  | nil => simp
  | append_singleton rest f ih =>
    rw [← List.append_assoc, expansions_concat]
    exact ih.trans (List.prefix_append _ _)

end Piece

/-- The main function with every call replaced by the expression of the function that it calls. -/
def MarkedProgram.inlined (m : MarkedProgram) : String :=
  enclose (Piece.assemble (Piece.fill (Piece.expansions m.functions)) m.main)

namespace Code

/-- Code with the body of every hoist in its place. -/
def unhoisted : Code → Code
  | text s => text s
  | helper h => helper h
  | append a b => append a.unhoisted b.unhoisted
  | create i dynamic target data children =>
    create i dynamic target data.unhoisted children.unhoisted
  | loop i source params body => loop i source params body.unhoisted
  | branch i test yes no => branch i test yes.unhoisted no.unhoisted
  | fragment i body => fragment i body.unhoisted
  | outlet i arguments => outlet i arguments.unhoisted
  | slots i descriptors hint => slots i descriptors.unhoisted hint
  | hoist _ _ body => body.unhoisted
  | once i key body => once i key body.unhoisted
  | call index inLoop => call index inLoop
  | memo id key body => memo id key body.unhoisted
  | inline body => inline body.unhoisted
  | unit body => unit body.unhoisted
  | rewritten f body => rewritten f body.unhoisted

def isHoist : Code → Bool
  | hoist _ _ _ => true
  | _ => false

/-- Code without hoists. -/
def HoistFree (c : Code) : Prop :=
  c.Everywhere fun d => d.isHoist = false

/-- Code that lifting changes only by its hoists, none of which a hash of slot content is taken
over. -/
def Inlinable (c : Code) : Prop :=
  c.Everywhere fun
    | once _ _ _ | inline _ | call _ _ | memo _ _ _ | unit _ | rewritten _ _ => False
    | slots _ descriptors .keyed => descriptors.HoistFree
    | _ => True

theorem unhoisted_of_hoistFree {c : Code} (h : c.HoistFree) : c.unhoisted = c := by
  induction c with
  | append a b iha ihb => rw [unhoisted, iha h.2.1, ihb h.2.2]
  | create _ _ _ _ _ ihd ihc => rw [unhoisted, ihd h.2.1, ihc h.2.2]
  | branch _ _ _ _ ihy ihn => rw [unhoisted, ihy h.2.1, ihn h.2.2]
  | hoist => simp [HoistFree, Everywhere, isHoist] at h
  | loop _ _ _ _ ih | fragment _ _ ih | outlet _ _ ih | slots _ _ _ ih | once _ _ _ ih
  | memo _ _ _ ih | inline _ ih | unit _ ih | rewritten _ _ ih => rw [unhoisted, ih h.2]
  | text | helper | call => rfl

theorem lift_of_hoistFree {c : Code} (h : c.HoistFree) (hc : c.Inlinable) (s : Lifted) :
    c.lift s = (c, s) := by
  induction c generalizing s with
  | append a b iha ihb => simp [lift, iha h.2.1 hc.2.1, ihb h.2.2 hc.2.2]
  | create _ dynamic _ _ _ ihd ihc =>
    cases dynamic <;> simp [lift, ihd h.2.1 hc.2.1, ihc h.2.2 hc.2.2]
  | branch _ _ _ _ ihy ihn => simp [lift, ihy h.2.1 hc.2.1, ihn h.2.2 hc.2.2]
  | hoist => simp [HoistFree, Everywhere, isHoist] at h
  | loop _ _ _ _ ih | fragment _ _ ih | outlet _ _ ih | slots _ _ _ ih =>
    simp [lift, ih h.2 hc.2]
  | text | helper => rfl
  | once | memo | inline | unit | rewritten | call => simp [Inlinable, Everywhere] at hc

theorem hoistFree_unhoisted (c : Code) : c.unhoisted.HoistFree := by
  induction c with
  | append a b iha ihb => exact ⟨rfl, iha, ihb⟩
  | create _ _ _ _ _ ihd ihc => exact ⟨rfl, ihd, ihc⟩
  | branch _ _ _ _ ihy ihn => exact ⟨rfl, ihy, ihn⟩
  | hoist _ _ _ ih => exact ih
  | loop _ _ _ _ ih | fragment _ _ ih | outlet _ _ ih | slots _ _ _ ih | once _ _ _ ih
  | memo _ _ _ ih | inline _ ih | unit _ ih | rewritten _ _ ih => exact ⟨rfl, ih⟩
  | text | helper | call => exact rfl

theorem inlinable_unhoisted {c : Code} (hc : c.Inlinable) : c.unhoisted.Inlinable := by
  induction c with
  | append a b iha ihb => exact ⟨trivial, iha hc.2.1, ihb hc.2.2⟩
  | create _ _ _ _ _ ihd ihc => exact ⟨trivial, ihd hc.2.1, ihc hc.2.2⟩
  | branch _ _ _ _ ihy ihn => exact ⟨trivial, ihy hc.2.1, ihn hc.2.2⟩
  | hoist _ _ _ ih => exact ih hc.2
  | slots _ descriptors hint ih =>
    refine ⟨?_, ih hc.2⟩
    cases hint with
    | keyed => exact hoistFree_unhoisted descriptors
    | none | force => trivial
  | loop _ _ _ _ ih | fragment _ _ ih | outlet _ _ ih => exact ⟨trivial, ih hc.2⟩
  | text | helper => exact trivial
  | once | memo | inline | unit | rewritten | call => simp [Inlinable, Everywhere] at hc

/-- Lifting only adds expressions. -/
theorem expansions_lift_append (names : Names) (c : Code) (s : Lifted) :
    Piece.expansions (s.functions.map (pieces names)) <+:
      Piece.expansions ((c.lift s).2.functions.map (pieces names)) :=
  Piece.expansions_prefix ((functions_prefix_lift c s).map _)

/-- Replacing the calls in lifted code gives the text of the code with its hoists undone. -/
theorem assemble_lift (names : Names) {c : Code} (hc : c.Inlinable) (s : Lifted)
    {expressions : List String}
    (he : Piece.expansions ((c.lift s).2.functions.map (pieces names)) <+: expressions) :
    Piece.assemble (Piece.fill expressions) ((c.lift s).1.pieces names) =
      c.unhoisted.render names := by
  induction c generalizing s expressions with
  | text | helper => simp [lift, pieces, unhoisted, render, Piece.fill]
  | append a b iha ihb =>
    simp only [lift, pieces, unhoisted, render, Piece.assemble_append]
    rw [iha hc.2.1 s ((expansions_lift_append names b _).trans he), ihb hc.2.2 _ he]
  | create owner dynamic target data children ihd ihc =>
    cases dynamic with
    | false =>
      simp only [lift, pieces, unhoisted, render, Piece.assemble_append, Piece.assemble_cons,
        Piece.assemble_nil, Piece.fill, String.append_assoc, String.append_empty]
      rw [ihd hc.2.1 s ((expansions_lift_append names children _).trans he), ihc hc.2.2 _ he]
    | true =>
      simp only [lift, pieces, unhoisted, render, Piece.assemble_append, Piece.assemble_cons,
        Piece.assemble_nil, Piece.fill, String.append_assoc, String.append_empty]
      rw [ihc hc.2.2 s ((expansions_lift_append names data _).trans he), ihd hc.2.1 _ he]
  | branch owner test yes no ihy ihn =>
    simp only [lift, pieces, unhoisted, render, Piece.assemble_append, Piece.assemble_cons,
      Piece.fill, String.append_assoc]
    rw [ihy hc.2.1 s ((expansions_lift_append names no _).trans he), ihn hc.2.2 _ he]
  | fragment _ _ ih => exact ih hc.2 s he
  | loop _ _ _ _ ih | outlet _ _ ih =>
    simp only [lift, pieces, unhoisted, render, Piece.assemble_append, Piece.assemble_cons,
      Piece.assemble_nil, Piece.fill, String.append_assoc, String.append_empty]
    rw [ih hc.2 s he]
  | slots owner descriptors hint ih =>
    have hint_eq : hintText hint ((descriptors.lift s).1.render names) =
        hintText hint (descriptors.unhoisted.render names) := by
      cases hint with
      | keyed => rw [lift_of_hoistFree hc.1 hc.2, unhoisted_of_hoistFree hc.1]
      | none | force => rfl
    simp only [lift, pieces, unhoisted, render, Piece.assemble_append, Piece.assemble_cons,
      Piece.assemble_nil, Piece.fill, String.append_assoc, String.append_empty]
    rw [ih hc.2 s he, hint_eq]
  | hoist owner inLoop body ih =>
    -- The body is the last function so far, and its expression is filled from those before it.
    simp only [lift, List.map_append, List.map_singleton, Piece.expansions_concat] at he
    rw [ih hc.2 s List.prefix_rfl] at he
    obtain ⟨rest, rfl⟩ := he
    have hl : (Piece.expansions ((body.lift s).2.functions.map (pieces names))).length =
        (body.lift s).2.functions.length := by
      simp [Piece.length_expansions]
    simp [lift, pieces, unhoisted, Piece.fill, ← hl, List.getD_eq_getElem?_getD]
  | once | memo | inline | unit | rewritten | call => simp [Inlinable, Everywhere] at hc

/-- A program with its calls replaced is the program of the code with its hoists undone. -/
theorem inlined_marked (names : Names) {c : Code} (hc : c.Inlinable) :
    (c.marked names).inlined = (c.unhoisted.program names).render := by
  have hlift := lift_of_hoistFree (hoistFree_unhoisted c) (inlinable_unhoisted hc) {}
  rw [program, hlift]
  exact congrArg enclose (assemble_lift names hc {} List.prefix_rfl)

theorem functions_program_unhoisted (names : Names) {c : Code} (hc : c.Inlinable) :
    (c.unhoisted.program names).functions = [] := by
  have hlift := lift_of_hoistFree (hoistFree_unhoisted c) (inlinable_unhoisted hc) {}
  simp [program, hlift]

end Code

end TemplateCompiler
