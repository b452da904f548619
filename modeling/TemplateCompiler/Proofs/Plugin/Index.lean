import TemplateCompiler.Json.Printer
import TemplateCompiler.ModelPath

/-!
# Indices in targets

An index is what stands between the brackets in `p[k]`: any text in which the next equal quote closes a quote, and in
which brackets outside of quotes match. A `Nesting` reads an index from left to right and ends with nothing open
(`isIndex_iff`).

Neither the grammar nor the reader knows backslashes. A string as a literal is an index exactly if the string would be
one between quotes without any escapes (`isIndex_quoteChars`).
-/

namespace TemplateCompiler.ModelPath

/-- A character that an index may have outside of quotes, besides brackets that match. -/
def isPlain (c : Char) : Bool :=
  !isQuote c && c != '[' && c != ']'

/-- What may stand between the brackets of an index. -/
inductive IsIndex : List Char → Prop
  | nil : IsIndex []
  | plain {c : Char} {cs : List Char} (hc : isPlain c = true) (h : IsIndex cs) : IsIndex (c :: cs)
  | quoted {mark : Char} {inner cs : List Char} (hmark : isQuote mark = true) (hinner : mark ∉ inner)
      (h : IsIndex cs) : IsIndex (mark :: inner ++ mark :: cs)
  | nested {inner cs : List Char} (hinner : IsIndex inner) (h : IsIndex cs) : IsIndex ('[' :: inner ++ ']' :: cs)

/-! ## Reading an index -/

/-- Where a reader stands in an index: how many brackets are open in it, and which quote. -/
structure Nesting where
  depth : Nat := 0
  mark : Option Char := none
  deriving DecidableEq

namespace Nesting

/-- Reads one character. It fails at a bracket that closes the index itself. -/
def step (n : Nesting) (c : Char) : Option Nesting :=
  match n.mark with
  | some mark => some (if c = mark then { n with mark := none } else n)
  | none =>
    if isQuote c then some { n with mark := some c }
    else if c = '[' then some { n with depth := n.depth + 1 }
    else if c = ']' then if n.depth = 0 then none else some { n with depth := n.depth - 1 }
    else some n

def run (n : Nesting) (cs : List Char) : Option Nesting :=
  cs.foldlM step n

variable {n n' : Nesting} {c : Char} {cs : List Char}

@[simp] theorem run_nil (n : Nesting) : n.run [] = some n := rfl

@[simp] theorem run_cons (n : Nesting) (c : Char) (cs : List Char) :
    n.run (c :: cs) = (n.step c).bind fun n => n.run cs := rfl

theorem run_singleton (n : Nesting) (c : Char) : n.run [c] = n.step c :=
  Option.bind_fun_some _

theorem run_append (n : Nesting) (cs ds : List Char) :
    n.run (cs ++ ds) = (n.run cs).bind fun n => n.run ds :=
  List.foldlM_append

theorem step_plain (hc : isPlain c = true) (d : Nat) : step ⟨d, none⟩ c = some ⟨d, none⟩ := by
  simp only [isPlain, Bool.and_eq_true, Bool.not_eq_true', bne_iff_ne] at hc
  simp [step, hc]

/-- Outside of quotes. -/
theorem step_cases {d : Nat} (h : step ⟨d, none⟩ c = some n') :
    isQuote c = true ∧ n' = ⟨d, some c⟩ ∨ c = '[' ∧ n' = ⟨d + 1, none⟩ ∨
      c = ']' ∧ (∃ e, d = e + 1 ∧ n' = ⟨e, none⟩) ∨ isPlain c = true ∧ n' = ⟨d, none⟩ := by
  simp only [step] at h
  split at h
  · next hc => exact .inl ⟨hc, (Option.some.inj h).symm⟩
  split at h
  · next hc => exact .inr (.inl ⟨hc, (Option.some.inj h).symm⟩)
  split at h
  · next hc =>
    cases d with
    | zero => cases h
    | succ e => exact .inr (.inr (.inl ⟨hc, e, rfl, (Option.some.inj h).symm⟩))
  · next hquote hopen hclose =>
    exact .inr (.inr (.inr ⟨by simp [isPlain, hquote, hopen, hclose], (Option.some.inj h).symm⟩))

theorem eq_of_step_none (h : n.step c = none) : n = {} ∧ c = ']' := by
  obtain ⟨d, _ | mark⟩ := n
  · simp only [step] at h
    split at h
    · cases h
    split at h
    · cases h
    split at h
    · next hc =>
      split at h
      · next hd => exact ⟨by rw [hd], hc⟩
      · cases h
    · cases h
  · cases h

/-- A quoted text ends with the next equal quote. -/
theorem run_quoted {mark : Char} {inner : List Char} (h : mark ∉ inner) (d : Nat) (cs : List Char) :
    run ⟨d, some mark⟩ (inner ++ mark :: cs) = run ⟨d, none⟩ cs := by
  induction inner with
  | nil => simp [step]
  | cons c inner ih =>
    rw [List.mem_cons, not_or] at h
    rw [List.cons_append, run_cons, step]
    simp [Ne.symm h.1, ih h.2]

theorem run_isIndex (h : IsIndex cs) (d : Nat) (rest : List Char) :
    run ⟨d, none⟩ (cs ++ rest) = run ⟨d, none⟩ rest := by
  induction h generalizing d rest with
  | nil => rfl
  | plain hc _ ih => rw [List.cons_append, run_cons, step_plain hc, Option.bind_some, ih]
  | @quoted mark inner cs hmark hinner _ ih =>
    have hopen : step ⟨d, none⟩ mark = some ⟨d, some mark⟩ := by simp [step, hmark]
    rw [List.append_assoc, List.cons_append, List.cons_append, run_cons, hopen, Option.bind_some, run_quoted hinner, ih]
  | @nested inner cs _ _ ihinner ih =>
    have hopen : step ⟨d, none⟩ '[' = some ⟨d + 1, none⟩ := by simp [step, isQuote]
    have hclose : step ⟨d + 1, none⟩ ']' = some ⟨d, none⟩ := by simp [step, isQuote]
    rw [List.append_assoc, List.cons_append, List.cons_append, run_cons, hopen, Option.bind_some, ihinner, run_cons,
      hclose, Option.bind_some, ih]

/-- Texts with a closing bracket after each of them but the last. -/
def Pieces : Nat → List Char → Prop
  | 0, cs => IsIndex cs
  | d + 1, cs => ∃ first rest, cs = first ++ ']' :: rest ∧ IsIndex first ∧ Pieces d rest

theorem Pieces.prepend {d : Nat} (h : Pieces d cs) {before : List Char}
    (hbefore : ∀ cs, IsIndex cs → IsIndex (before ++ cs)) : Pieces d (before ++ cs) := by
  cases d with
  | zero => exact hbefore cs h
  | succ d =>
    obtain ⟨first, rest, rfl, hfirst, hrest⟩ := h
    exact ⟨before ++ first, rest, (List.append_assoc ..).symm, hbefore first hfirst, hrest⟩

/-- What closes all that is open for a reader. -/
def Closes : Nesting → List Char → Prop
  | ⟨d, none⟩, cs => Pieces d cs
  | ⟨d, some mark⟩, cs => ∃ inner rest, cs = inner ++ mark :: rest ∧ mark ∉ inner ∧ Pieces d rest

theorem closes_cons_quoted {d : Nat} {mark : Char} (h : Closes ⟨d, if c = mark then none else some mark⟩ cs) :
    Closes ⟨d, some mark⟩ (c :: cs) := by
  split at h
  · next hc => exact ⟨[], cs, by rw [hc, List.nil_append], List.not_mem_nil, h⟩
  · next hc =>
    obtain ⟨inner, rest, rfl, hinner, hrest⟩ := h
    exact ⟨c :: inner, rest, rfl, mt List.mem_cons.mp (not_or.mpr ⟨Ne.symm hc, hinner⟩), hrest⟩

theorem closes_of_run (h : n.run cs = some {}) : n.Closes cs := by
  -- On the text, for every reader: the rest of a text closes more than the text opened.
  induction cs generalizing n with
  | nil =>
    cases h
    exact IsIndex.nil
  | cons c cs ih =>
    rw [run_cons, Option.bind_eq_some_iff] at h
    obtain ⟨n', hstep, h⟩ := h
    have hrest := ih h
    obtain ⟨d, _ | mark⟩ := n
    · rcases step_cases hstep with ⟨hc, rfl⟩ | ⟨rfl, rfl⟩ | ⟨rfl, e, rfl, rfl⟩ | ⟨hc, rfl⟩
      · obtain ⟨inner, rest, rfl, hinner, hpieces⟩ := hrest
        have hquoted : Pieces d ((c :: inner ++ [c]) ++ rest) := hpieces.prepend fun cs hcs => by
          simpa using IsIndex.quoted hc hinner hcs
        show Pieces d (c :: (inner ++ c :: rest))
        simpa using hquoted
      · obtain ⟨inner, rest, rfl, hinner, hpieces⟩ := hrest
        have hnested : Pieces d (('[' :: inner ++ [']']) ++ rest) := hpieces.prepend fun cs hcs => by
          simpa using IsIndex.nested hinner hcs
        show Pieces d ('[' :: (inner ++ ']' :: rest))
        simpa using hnested
      · exact ⟨[], cs, rfl, .nil, hrest⟩
      · have hplain : Pieces d ([c] ++ cs) := Pieces.prepend hrest fun _ => .plain hc
        exact hplain
    · have hn' : n' = ⟨d, if c = mark then none else some mark⟩ := by
        rw [← Option.some.inj hstep]
        split <;> rfl
      exact closes_cons_quoted (hn' ▸ hrest)

end Nesting

theorem isIndex_iff {cs : List Char} : IsIndex cs ↔ Nesting.run {} cs = some {} := by
  constructor
  · intro h
    simpa using Nesting.run_isIndex h 0 []
  · exact Nesting.closes_of_run

instance : DecidablePred IsIndex := fun _ =>
  decidable_of_iff _ isIndex_iff.symm

/-! ## Literals -/

namespace Nesting

variable {n n' : Nesting} {c : Char} {cs : List Char}

/-- Only quotes can be open. -/
def Marked (n : Nesting) : Prop :=
  ∀ mark ∈ n.mark, isQuote mark = true

theorem Marked.step (hn : n.Marked) (h : n.step c = some n') : n'.Marked := by
  obtain ⟨d, _ | mark⟩ := n
  · rcases step_cases h with ⟨hc, rfl⟩ | ⟨-, rfl⟩ | ⟨-, e, -, rfl⟩ | ⟨-, rfl⟩
    · intro mark hmark
      exact Option.mem_some_iff.mp hmark ▸ hc
    all_goals exact hn
  · rw [← Option.some.inj h]
    split
    · exact fun mark hmark => absurd hmark (Option.not_mem_none mark)
    · exact hn

/-- A plain character changes nothing, in quotes or outside. -/
theorem Marked.step_plain (hn : n.Marked) (hc : isPlain c = true) : n.step c = some n := by
  obtain ⟨d, _ | mark⟩ := n
  · exact Nesting.step_plain hc d
  · have hne : c ≠ mark := by
      rintro rfl
      rw [isPlain, hn c rfl] at hc
      cases hc
    simp [Nesting.step, hne]

theorem Marked.run_plain (hn : n.Marked) (h : cs.all isPlain = true) : n.run cs = some n := by
  induction cs with
  | nil => rfl
  | cons c cs ih =>
    rw [List.all_cons, Bool.and_eq_true] at h
    rw [run_cons, hn.step_plain h.1, Option.bind_some, ih h.2]

end Nesting

/-- A character stands for itself, is the quote, or is a plain one with plain ones to write it. -/
theorem escapeChar_cases (c : Char) : Json.escapeChar c = [c] ∨ c = '"' ∧ Json.escapeChar c = ['\\', '"'] ∨
    isPlain c = true ∧ (Json.escapeChar c).all isPlain = true := by
  have hhex (k : Nat) : isPlain (Json.hexDigit k) = true := by
    have hall : ∀ k < 16, isPlain (Nat.digitChar k) = true := by decide
    exact hall _ (Nat.mod_lt k (by decide))
  unfold Json.escapeChar
  split
  · next hc => exact .inr (.inl ⟨hc, rfl⟩)
  iterate 6
    split
    · next hc => exact .inr (.inr ⟨by rw [hc]; decide, by decide⟩)
  split
  · next hc =>
    have hne (d : Char) (hd : 32 ≤ d.toNat) : c ≠ d := by
      rintro rfl
      omega
    refine .inr (.inr ⟨?_, ?_⟩)
    · simp [isPlain, isQuote, hne]
    · simp only [List.all_cons, hhex]
      decide
  · exact .inl rfl

/-- Escapes mean nothing to a reader. -/
theorem Nesting.Marked.run_escapeChar {n : Nesting} (hn : n.Marked) (c : Char) :
    n.run (Json.escapeChar c) = n.step c := by
  rcases escapeChar_cases c with h | ⟨rfl, h⟩ | ⟨hc, h⟩
  · rw [h, run_singleton]
  · rw [h, run_cons, hn.step_plain (by decide), Option.bind_some, run_singleton]
  · rw [hn.run_plain h, hn.step_plain hc]

theorem Nesting.Marked.run_flatMap {n : Nesting} (hn : n.Marked) (cs : List Char) :
    n.run (cs.flatMap Json.escapeChar) = n.run cs := by
  induction cs generalizing n with
  | nil => rfl
  | cons c cs ih =>
    rw [List.flatMap_cons, run_append, hn.run_escapeChar, run_cons]
    cases h : n.step c with
    | none => rfl
    | some n' => exact ih (hn.step h)

theorem isIndex_quoteChars {cs : List Char} : IsIndex (Json.quoteChars cs) ↔ IsIndex ('"' :: cs ++ ['"']) := by
  have hmarked : Nesting.Marked ⟨0, some '"'⟩ := fun mark hmark => Option.mem_some_iff.mp hmark ▸ rfl
  have hopen : Nesting.step {} '"' = some ⟨0, some '"'⟩ := rfl
  rw [isIndex_iff, isIndex_iff, Json.quoteChars, List.cons_append, List.cons_append, Nesting.run_cons,
    Nesting.run_cons, hopen, Option.bind_some, Option.bind_some, Nesting.run_append, Nesting.run_append,
    hmarked.run_flatMap]

end TemplateCompiler.ModelPath
