import TemplateCompiler.Proofs.Text.Stencil

/-!
# The kind of a handler does not depend on names

A handler that a two-way binding writes calls helpers, and its text is read again to find out what kind of handler
it is. The text is looked at as a list of `Cell`s, characters and holes, and every identifier is read alike where a
hole stands: the automaton of method paths goes on the same way (`foldl_step_name`), and no mark that the other
tests look for is in it.

Only the word `function` could be made up of a name and what stands before it. A `Settled` text has, before any hole,
a character that is not in this word, or begins with a call. It is of the same kind under every naming (`classified`).
-/

namespace TemplateCompiler

open Listener

/-! ## Cells -/

inductive Cell where
  | char (c : Char)
  | hole (h : Helper)
  deriving DecidableEq, Repr

namespace Cell

def fill (names : Names) : Cell → List Char
  | char c => [c]
  | hole h => (names h).toList

/-- The characters of cells under given names. -/
def chars (names : Names) (cells : List Cell) : List Char :=
  cells.flatMap (fill names)

@[simp] theorem chars_nil (names : Names) : chars names [] = [] := rfl

@[simp] theorem chars_char (names : Names) (c : Char) (cells : List Cell) :
    chars names (char c :: cells) = c :: chars names cells := rfl

@[simp] theorem chars_hole (names : Names) (h : Helper) (cells : List Cell) :
    chars names (hole h :: cells) = (names h).toList ++ chars names cells := rfl

@[simp] theorem chars_append (names : Names) (a b : List Cell) :
    chars names (a ++ b) = chars names a ++ chars names b :=
  List.flatMap_append

@[simp] theorem chars_map_char (names : Names) (cs : List Char) : chars names (cs.map char) = cs := by
  induction cs with
  | nil => rfl
  | cons c cs ih => rw [List.map_cons, chars_char, ih]

/-- A test of characters that decides the same for all characters of names. -/
def test (p : Char → Bool) (b : Bool) : Cell → Bool
  | char c => p c
  | hole _ => b

end Cell

open Cell

/-- The cells of a stencil. -/
def Part.cells : Part → List Cell
  | own s | given s => s.toList.map char
  | hole h => [.hole h]

def Stencil.cells (st : Stencil) : List Cell :=
  st.flatMap Part.cells

theorem Stencil.toList_fill (names : Names) (st : Stencil) : (st.fill names).toList = chars names st.cells := by
  induction st with
  | nil => rfl
  | cons p ps ih =>
    have hp : (p.fill names).toList = chars names p.cells := by
      cases p with
      | own s | given s => exact (chars_map_char names s.toList).symm
      | hole h => exact (List.append_nil _).symm
    rw [fill_cons, String.toList_append, ih, hp, ← chars_append]
    rfl

section

variable {p : Char → Bool} {b : Bool}

theorem dropWhile_chars (hp : ∀ (I : Naming) h, ∀ c ∈ (I h).toList, p c = b) (I : Naming) (cells : List Cell) :
    (chars I.names cells).dropWhile p = chars I.names (cells.dropWhile (test p b)) := by
  induction cells with
  | nil => rfl
  | cons cell cells ih =>
    cases cell with
    | char c =>
      rw [chars_char, List.dropWhile_cons, List.dropWhile_cons, ih]
      show _ = chars I.names (if p c = true then _ else _)
      split <;> rfl
    | hole h =>
      rw [chars_hole, List.dropWhile_append, List.dropWhile_cons]
      cases b with
      | true =>
        rw [List.dropWhile_eq_nil_iff.mpr (hp I h), if_pos List.isEmpty_nil, ih]
        rfl
      | false =>
        obtain ⟨c, cs, hcs, -⟩ := I.chars_eq h
        have hname : (I h).toList.dropWhile p = (I h).toList := by
          have hc := hp I h c (hcs ▸ List.mem_cons_self ..)
          rw [hcs, List.dropWhile_cons_of_neg (by rw [hc]; decide)]
        rw [hname, if_neg (by simpa using I.ne_nil h)]
        rfl

theorem rdropWhile_chars (hp : ∀ (I : Naming) h, ∀ c ∈ (I h).toList, p c = false) (I : Naming) (cells : List Cell) :
    (chars I.names cells).rdropWhile p = chars I.names (cells.rdropWhile (test p false)) := by
  induction cells using List.reverseRecOn with
  | nil => rfl
  | append_singleton cells cell ih =>
    rw [chars_append]
    cases cell with
    | char c =>
      rw [chars_char, chars_nil, List.rdropWhile_concat, List.rdropWhile_concat, ih]
      show _ = chars I.names (if p c = true then _ else _)
      split
      · rfl
      · rw [chars_append, chars_char, chars_nil]
    | hole h =>
      have hname : (I h).toList.rdropWhile p = (I h).toList := by
        rw [List.rdropWhile_eq_self_iff]
        intro hne
        rw [hp I h _ (List.getLast_mem hne)]
        decide
      rw [chars_hole, chars_nil, List.append_nil, List.rdropWhile_append, hname, if_neg (by simpa using I.ne_nil h),
        List.rdropWhile_concat, test, if_neg Bool.false_ne_true, chars_append, chars_hole, chars_nil, List.append_nil]

end

/-! ## Method paths -/

/-- Where the automaton stands after an identifier. -/
def Listener.PathState.named : PathState → PathState
  | .start | .name | .point => .name
  | .bracket | .variable => .variable
  | .single => .single
  | .double => .double
  | _ => .off

theorem not_isDecimalDigit_of_isNameStart {c : Char} (h : isNameStart c = true) : Text.isDecimalDigit c = false := by
  delta isNameStart Char.isAlpha Char.isUpper Char.isLower at h
  simp only [Bool.or_eq_true, Bool.and_eq_true, decide_eq_true_eq, beq_iff_eq, UInt32.le_iff_toNat_le] at h
  have hsmall : c.toNat < 128 ∧ 57 < c.toNat ∨ c = '$' := by
    rcases h with (((h | h) | rfl) | rfl)
    · exact .inl ⟨Nat.lt_of_le_of_lt h.2 (by decide), Nat.lt_of_lt_of_le (by decide) h.1⟩
    · exact .inl ⟨Nat.lt_of_le_of_lt h.2 (by decide), Nat.lt_of_lt_of_le (by decide) h.1⟩
    · exact .inl (by decide)
    · exact .inr rfl
  rcases hsmall with ⟨hascii, hlarge⟩ | rfl
  · have hdigit : c.isDigit = false := by
      simp only [Char.isDigit, Bool.and_eq_false_iff, decide_eq_false_iff_not, UInt32.le_iff_toNat_le]
      exact .inr (Nat.not_le_of_lt hlarge)
    rw [Text.isDecimalDigit, Text.digit?, if_pos hascii, hdigit]
    rfl
  · decide

theorem foldl_step_name (I : Naming) (h : Helper) (s : PathState) : (I h).toList.foldl PathState.step s = s.named := by
  obtain ⟨c, cs, hcs, hstart, -⟩ := I.chars_eq h
  have hmark {d : Char} (hd : d ∈ (I h).toList) (m : Char) (hm : isNameChar m = false) : (d == m) = false :=
    beq_eq_false_iff_ne.mpr (Naming.ne_of_mem hd hm)
  have hnext {d : Char} (hd : d ∈ (I h).toList) : PathState.next d = .off := by
    rw [PathState.next, hmark hd '.' (by decide), hmark hd '[' (by decide), hmark hd '\n' (by decide)]
    rfl
  have hfirst : s.step c = s.named := by
    have hc : c ∈ (I h).toList := hcs ▸ List.mem_cons_self ..
    cases s <;> simp only [PathState.step, PathState.named, hstart, Naming.isNameChar_of_mem hc, if_true, hnext hc,
      hmark hc '\'' (by decide), hmark hc '"' (by decide), hmark hc ']' (by decide),
      not_isDecimalDigit_of_isNameStart hstart, Bool.false_eq_true, if_false]
  have hrest {d : Char} (hd : d ∈ (I h).toList) : s.named.step d = s.named := by
    cases s <;> simp only [PathState.step, PathState.named, Naming.isNameChar_of_mem hd, if_true,
      hmark hd '\'' (by decide), hmark hd '"' (by decide), Bool.false_eq_true, if_false]
  have hstay {ds : List Char} (hds : ∀ d ∈ ds, d ∈ (I h).toList) : ds.foldl PathState.step s.named = s.named := by
    induction ds with
    | nil => rfl
    | cons d ds ih =>
      obtain ⟨hd, hds⟩ := List.forall_mem_cons.mp hds
      rw [List.foldl_cons, hrest hd, ih hds]
  have htail : ∀ d ∈ cs, d ∈ (I h).toList := fun d hd => hcs ▸ List.mem_cons_of_mem _ hd
  rw [hcs, List.foldl_cons, hfirst, hstay htail]

/-- The automaton on cells. -/
def Listener.PathState.stepCell (s : PathState) : Cell → PathState
  | .char c => s.step c
  | .hole _ => s.named

theorem isMethodPath_chars (I : Naming) (cells : List Cell) :
    isMethodPath (chars I.names cells) = (cells.foldl PathState.stepCell .start).accepts := by
  have hfold (s : PathState) : (chars I.names cells).foldl PathState.step s = cells.foldl PathState.stepCell s := by
    induction cells generalizing s with
    | nil => rfl
    | cons cell cells ih =>
      cases cell with
      | char c => exact ih (s.step c)
      | hole h => rw [chars_hole, List.foldl_append, foldl_step_name, ih]; rfl
  rw [isMethodPath, hfold]

/-! ## Function expressions -/

section

variable (I : Naming)

theorem dropBlanks_chars (cells : List Cell) :
    (chars I.names cells).dropWhile Text.isBlank = chars I.names (cells.dropWhile (test Text.isBlank false)) :=
  dropWhile_chars (fun _ _ _ => Naming.not_isBlank_of_mem) I cells

theorem dropName_chars (cells : List Cell) :
    (chars I.names cells).dropWhile isNameChar = chars I.names (cells.dropWhile (test isNameChar true)) :=
  dropWhile_chars (fun _ _ _ => Naming.isNameChar_of_mem) I cells

/-- Marks that are in no name stand before holes or after them, not in them. -/
theorem isPrefixOf_chars {marks : List Char} (hmarks : marks.all (!isNameChar ·) = true) (cells : List Cell) :
    marks.isPrefixOf (chars I.names cells) = (marks.map char).isPrefixOf cells := by
  induction marks generalizing cells with
  | nil => rfl
  | cons m marks ih =>
    rw [List.all_cons, Bool.and_eq_true, Bool.not_eq_true'] at hmarks
    obtain ⟨hm, hmarks⟩ := hmarks
    cases cells with
    | nil => rfl
    | cons cell cells =>
      cases cell with
      | char c =>
        have hchar : (m == c) = (char m == char c) := by
          rw [Bool.eq_iff_iff, beq_iff_eq, beq_iff_eq, char.injEq]
        rw [chars_char, List.map_cons, List.isPrefixOf, List.isPrefixOf, ih hmarks, hchar]
      | hole h =>
        obtain ⟨c, cs, hcs, -⟩ := I.chars_eq h
        have hne : (m == c) = false :=
          beq_eq_false_iff_ne.mpr (Naming.ne_of_mem (hcs ▸ List.mem_cons_self ..) hm).symm
        rw [chars_hole, hcs, List.cons_append, List.isPrefixOf, hne, List.map_cons, List.isPrefixOf]
        rfl

theorem startsWithArrow_chars (cells : List Cell) : startsWithArrow (chars I.names cells) =
    [char '=', char '>'].isPrefixOf (cells.dropWhile (test Text.isBlank false)) := by
  rw [startsWithArrow, dropBlanks_chars, isPrefixOf_chars I (by decide)]
  rfl

theorem startsWithOpening_chars (cells : List Cell) : startsWithOpening (chars I.names cells) =
    [char '('].isPrefixOf (cells.dropWhile (test Text.isBlank false)) := by
  rw [startsWithOpening, dropBlanks_chars, isPrefixOf_chars I (by decide)]
  rfl

theorem isEmpty_takeName_chars (cells : List Cell) :
    ((chars I.names cells).takeWhile isNameChar).isEmpty = (cells.takeWhile (test isNameChar true)).isEmpty := by
  cases cells with
  | nil => rfl
  | cons cell cells =>
    cases cell with
    | char c =>
      rw [chars_char, List.takeWhile_cons, List.takeWhile_cons]
      show _ = List.isEmpty (if isNameChar c = true then _ else _)
      split <;> rfl
    | hole h =>
      obtain ⟨c, cs, hcs, -⟩ := I.chars_eq h
      have hc : isNameChar c = true := Naming.isNameChar_of_mem (hcs ▸ List.mem_cons_self ..)
      rw [chars_hole, hcs, List.cons_append, List.takeWhile_cons_of_pos hc]
      rfl

theorem dropToClosing_chars (cells : List Cell) : (chars I.names cells).dropWhile (· != ')') =
    chars I.names (cells.dropWhile (test (· != ')') true)) := by
  refine dropWhile_chars (fun I h c hc => ?_) I cells
  exact bne_iff_ne.mpr (Naming.ne_of_mem hc (by decide))

end

/-- What follows a closing bracket is no hole, since names have none. -/
theorem char_of_dropToClosing {cells rest : List Cell} {cell : Cell}
    (h : cells.dropWhile (test (· != ')') true) = cell :: rest) : ∃ c, cell = char c := by
  have hhead := List.head?_dropWhile_not (test (· != ')') true) cells
  rw [h] at hhead
  cases cell with
  | char c => exact ⟨c, rfl⟩
  | hole k => cases hhead

/-- Without an opening bracket there is one parameter at most. -/
theorem isArrowFunction_of_ne {cs : List Char} (h : cs.head? ≠ some '(') : isArrowFunction cs =
    (!(cs.takeWhile isNameChar).isEmpty && startsWithArrow (cs.dropWhile isNameChar)) := by
  unfold isArrowFunction
  split
  · exact absurd rfl h
  · exact Bool.or_false _

theorem steady_isArrowFunction (cells : List Cell) : Steady fun I => isArrowFunction (chars I.names cells) := by
  intro I J
  dsimp only
  -- A hole is no opening bracket.
  by_cases hopening : cells.head? = some (char '(')
  · obtain ⟨cells, rfl⟩ := List.head?_eq_some_iff.mp hopening
    unfold isArrowFunction
    simp only [isEmpty_takeName_chars, dropName_chars, startsWithArrow_chars]
    simp only [chars_char, dropToClosing_chars]
    rcases h : cells.dropWhile (test (· != ')') true) with _ | ⟨cell, rest⟩
    · rfl
    · obtain ⟨d, rfl⟩ := char_of_dropToClosing h
      simp only [chars_char, startsWithArrow_chars]
  · have hhead (I : Naming) : (chars I.names cells).head? ≠ some '(' := by
      rcases cells with _ | ⟨c | h, cells⟩
      · simp
      · simpa using hopening
      · obtain ⟨c, cs, hcs, -⟩ := I.chars_eq h
        rw [chars_hole, hcs, List.cons_append, List.head?_cons, Ne, Option.some.injEq]
        exact Naming.ne_of_mem (hcs ▸ List.mem_cons_self ..) (by decide)
    simp only [isArrowFunction_of_ne (hhead _), isEmpty_takeName_chars, dropName_chars, startsWithArrow_chars]

theorem startsParameters_of_char {c : Char} {cs : List Char} (hname : isNameChar c = true) :
    startsParameters (c :: cs) = false := by
  have hblank : Text.isBlank c = false := by
    by_contra h
    rw [Text.isNameChar_of_isBlank (Bool.eq_true_of_not_eq_false h)] at hname
    cases hname
  have hopening : ('(' == c) = false := by
    rw [beq_eq_false_iff_ne]
    rintro rfl
    exact absurd hname (by decide)
  simp [startsParameters, startsWithOpening, hblank, List.isPrefixOf, hopening]

theorem steady_startsParameters (cells : List Cell) : Steady fun I => startsParameters (chars I.names cells) := by
  intro I J
  dsimp only
  rcases cells with _ | ⟨c | h, cells⟩
  · rfl
  · unfold startsParameters
    simp only [startsWithOpening_chars, dropBlanks_chars, dropName_chars, isEmpty_takeName_chars]
    simp only [chars_char]
  · have hfalse (I : Naming) : startsParameters (chars I.names (hole h :: cells)) = false := by
      obtain ⟨c, cs, hcs, -⟩ := I.chars_eq h
      rw [chars_hole, hcs, List.cons_append]
      exact startsParameters_of_char (Naming.isNameChar_of_mem (hcs ▸ List.mem_cons_self ..))
    rw [hfalse, hfalse]

/-- A word that ends before a character which is not in it. -/
theorem isPrefixOf?_append_cons {word : List Char} {c : Char} (hc : c ∉ word) (before rest : List Char) :
    word.isPrefixOf? (before ++ c :: rest) = (word.isPrefixOf? before).map (· ++ c :: rest) := by
  induction word generalizing before with
  | nil => simp [List.isPrefixOf?]
  | cons a word ih =>
    obtain ⟨hca, hc⟩ := not_or.mp (mt List.mem_cons.mpr hc)
    cases before with
    | nil => simp [List.isPrefixOf?, Ne.symm hca]
    | cons b before =>
      rw [List.cons_append, List.isPrefixOf?, List.isPrefixOf?, ih hc]
      split <;> rfl

/-- A character that is not in the word `function` and does not get lost at the ends. -/
def Settles (c : Char) : Prop :=
  c ∉ "function".toList ∧ Text.isBlank c = false

instance : DecidablePred Settles :=
  fun _ => inferInstanceAs (Decidable (_ ∧ _))

/-- Before any hole stands a character that settles the kind, or the text begins with a call. -/
def Settled (cells : List Cell) : Prop :=
  (∃ (before : List Char) (c : Char) (rest : List Cell), cells = before.map char ++ char c :: rest ∧ Settles c) ∨
    ∃ h rest, cells = hole h :: char '(' :: rest

theorem Settled.append {cells : List Cell} (h : Settled cells) (more : List Cell) : Settled (cells ++ more) := by
  rcases h with ⟨before, c, rest, rfl, hc⟩ | ⟨h, rest, rfl⟩
  · exact .inl ⟨before, c, rest ++ more, List.append_assoc .., hc⟩
  · exact .inr ⟨h, rest ++ more, rfl⟩

theorem Settled.of_any {cs : List Char} (h : cs.any (Settles ·) = true) : Settled (cs.map char) := by
  obtain ⟨c, hmem, hc⟩ := List.any_eq_true.mp h
  obtain ⟨before, rest, rfl⟩ := List.append_of_mem hmem
  exact .inl ⟨before, c, rest.map char, List.map_append, of_decide_eq_true hc⟩

theorem steady_isFunctionExpression {cells : List Cell} (h : Settled cells) :
    Steady fun I => isFunctionExpression (chars I.names cells) := by
  intro I J
  have harrow := steady_isArrowFunction cells I J
  dsimp only at harrow ⊢
  unfold isFunctionExpression
  rw [harrow]
  congr 1
  rcases h with ⟨before, c, rest, rfl, hc⟩ | ⟨h, rest, rfl⟩
  · simp only [chars_append, chars_map_char, chars_char, isPrefixOf?_append_cons hc.1]
    rcases "function".toList.isPrefixOf? before with _ | after
    · rfl
    · have hsteady := steady_startsParameters (after.map char ++ char c :: rest) I J
      simp only [chars_append, chars_map_char, chars_char] at hsteady
      exact hsteady
  · -- The name is not the word, and what is left of a longer name opens no parameters.
    have hlonger (I : Naming) {after : List Char} (hafter : "function".toList.isPrefixOf? (I h).toList = some after)
        (cs : List Char) : startsParameters (after ++ cs) = false := by
      have hname := List.isPrefixOf?_eq_some_iff_append_eq.mp hafter
      cases after with
      | nil =>
        rw [List.append_nil] at hname
        exact absurd (String.toList_inj.mp hname).symm (I.notFunction h)
      | cons c after =>
        have hc : c ∈ (I h).toList := hname ▸ List.mem_append_right _ (List.mem_cons_self ..)
        exact startsParameters_of_char (Naming.isNameChar_of_mem hc)
    have hfunction : '(' ∉ "function".toList := by decide
    simp only [chars_hole, chars_char, isPrefixOf?_append_cons hfunction]
    rcases hI : "function".toList.isPrefixOf? (I h).toList with _ | after <;>
      rcases hJ : "function".toList.isPrefixOf? (J h).toList with _ | after'
    · rfl
    · exact (hlonger J hJ _).symm
    · exact hlonger I hI _
    · exact (hlonger I hI _).trans (hlonger J hJ _).symm

/-! ## Calls -/

theorem chars_eq_nil_iff (I : Naming) (cells : List Cell) : chars I.names cells = [] ↔ cells = [] := by
  rcases cells with _ | ⟨c | h, cells⟩
  · simp
  · simp
  · simpa using fun hname => absurd hname (by simpa using I.ne_nil h)

theorem chars_eq_lineFeed_iff (I : Naming) (cells : List Cell) :
    chars I.names cells = ['\n'] ↔ cells = [char '\n'] := by
  rcases cells with _ | ⟨c | h, cells⟩
  · simp
  · simp [chars_eq_nil_iff]
  · obtain ⟨c, cs, hcs, -⟩ := I.chars_eq h
    have hc : c ≠ '\n' := Naming.ne_of_mem (hcs ▸ List.mem_cons_self ..) (by decide)
    rw [chars_hole, hcs, List.cons_append]
    simp [hc]

theorem afterCall?_chars (cells : List Cell) :
    (∃ rest, ∀ I : Naming, afterCall? (chars I.names cells) = some (chars I.names rest)) ∨
      ∀ I : Naming, afterCall? (chars I.names cells) = none := by
  unfold afterCall?
  simp only [dropToClosing_chars]
  rcases h : cells.dropWhile (test (· != ')') true) with _ | ⟨cell, rest⟩
  · exact .inr fun _ => rfl
  · obtain ⟨d, rfl⟩ := char_of_dropToClosing h
    have hsemicolons (I : Naming) : (chars I.names rest).dropWhile (· == ';') =
        chars I.names (rest.dropWhile (test (· == ';') false)) := by
      refine dropWhile_chars (fun I h c hc => ?_) I rest
      exact beq_eq_false_iff_ne.mpr (Naming.ne_of_mem hc (by decide))
    simp only [chars_char, hsemicolons, chars_eq_nil_iff, chars_eq_lineFeed_iff]
    by_cases hend : rest.dropWhile (test (· == ';') false) = [] ∨ rest.dropWhile (test (· == ';') false) = [char '\n']
    · exact .inl ⟨_, fun I => if_pos hend⟩
    · exact .inr fun I => if_neg hend

theorem dropCall_append {cs : List Char} (h : ∀ c ∈ cs, c ≠ '(') (rest : List Char) :
    dropCall (cs ++ rest) = cs ++ dropCall rest := by
  induction cs with
  | nil => rfl
  | cons c cs ih =>
    obtain ⟨hc, hcs⟩ := List.forall_mem_cons.mp h
    rw [List.cons_append, dropCall, if_neg hc, ih hcs, List.cons_append]

theorem dropCall_chars (cells : List Cell) :
    ∃ rest, ∀ I : Naming, dropCall (chars I.names cells) = chars I.names rest := by
  induction cells with
  | nil => exact ⟨[], fun _ => rfl⟩
  | cons cell cells ih =>
    obtain ⟨dropped, hdropped⟩ := ih
    cases cell with
    | char c =>
      simp only [chars_char, dropCall]
      by_cases hc : c = '('
      · simp only [if_pos hc]
        rcases afterCall?_chars cells with ⟨rest, hrest⟩ | hnone
        · exact ⟨rest, fun I => by simp only [hrest]⟩
        · exact ⟨char c :: dropped, fun I => by simp only [hnone, hdropped, chars_char]⟩
      · simp only [if_neg hc]
        exact ⟨char c :: dropped, fun I => by rw [hdropped, chars_char]⟩
    | hole h =>
      refine ⟨hole h :: dropped, fun I => ?_⟩
      rw [chars_hole, dropCall_append fun c hc => Naming.ne_of_mem hc (by decide), hdropped, chars_hole]

theorem steady_isInvocation (cells : List Cell) : Steady fun I => isInvocation (chars I.names cells) := by
  obtain ⟨rest, hrest⟩ := dropCall_chars cells
  intro I J
  simp only [isInvocation, hrest, isMethodPath_chars]

/-! ## Trimmed handlers -/

/-- A text that is the same kind of handler under every naming. -/
structure Classified (s : Naming → String) : Prop where
  methodPath : Steady fun I => isMethodPath (s I).toList
  functionExpression : Steady fun I => isFunctionExpression (s I).toList
  invocation : Steady fun I => isInvocation (s I).toList

/-- A text without holes. -/
theorem Classified.const (s : String) : Classified fun _ => s :=
  ⟨fun _ _ => rfl, fun _ _ => rfl, fun _ _ => rfl⟩

/-- What is not blank stays, with all that stands before it. -/
theorem rdropWhile_append_cons {α : Type} {p : α → Bool} {x : α} (hx : p x = false) (before rest : List α) :
    (before ++ x :: rest).rdropWhile p = before ++ x :: rest.rdropWhile p := by
  have hcons : (x :: rest).rdropWhile p = x :: rest.rdropWhile p := by
    have hsingle : [x].rdropWhile p = [x] := by
      rw [List.rdropWhile_singleton, hx]
      rfl
    rw [← List.singleton_append, List.rdropWhile_append, hsingle]
    split
    · next hempty => rw [List.isEmpty_iff.mp hempty]
    · rfl
  rw [List.rdropWhile_append, hcons]
  rfl

theorem Settled.trim {cells : List Cell} (h : Settled cells) :
    Settled ((cells.dropWhile (test Text.isBlank false)).rdropWhile (test Text.isBlank false)) := by
  rcases h with ⟨before, c, rest, rfl, hc⟩ | ⟨h, rest, rfl⟩
  · have hstart : (before.map char ++ char c :: rest).dropWhile (test Text.isBlank false) =
        (before.dropWhile Text.isBlank).map char ++ char c :: rest := by
      induction before with
      | nil => exact List.dropWhile_cons_of_neg (by rw [test, hc.2]; decide)
      | cons d before ih =>
        rw [List.map_cons, List.cons_append, List.dropWhile_cons, List.dropWhile_cons, ih]
        show (if Text.isBlank d = true then _ else _) = _
        split <;> rfl
    rw [hstart, rdropWhile_append_cons (x := char c) hc.2]
    exact .inl ⟨_, c, _, rfl, hc⟩
  · rw [List.dropWhile_cons_of_neg Bool.false_ne_true, ← List.singleton_append, rdropWhile_append_cons (by decide)]
    exact .inr ⟨h, _, rfl⟩

/-- A handler that a two-way binding writes. -/
theorem classified {st : Stencil} (h : Settled st.cells) : Classified fun I => Text.trim (st.fill I.names) := by
  have htrim (I : Naming) : (Text.trim (st.fill I.names)).toList = chars I.names
      ((st.cells.dropWhile (test Text.isBlank false)).rdropWhile (test Text.isBlank false)) := by
    rw [Text.trim, String.toList_ofList, Stencil.toList_fill, Text.trimChars, dropBlanks_chars]
    exact rdropWhile_chars (fun _ _ _ => Naming.not_isBlank_of_mem) I _
  constructor
  · intro I J
    simp only [htrim, isMethodPath_chars]
  · simp only [htrim]
    exact steady_isFunctionExpression h.trim
  · simp only [htrim]
    exact steady_isInvocation _

end TemplateCompiler
