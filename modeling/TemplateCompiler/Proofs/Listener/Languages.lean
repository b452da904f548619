import Mathlib.Computability.Language
import TemplateCompiler.Proofs.Listener.Steady

/-!
# The languages of handler values

Method paths and function expressions are described by regular languages: a name, then points with names and brackets
with keys (`methodPath`); parameters and an arrow, or the word `function` and an opening bracket (`functionStart`). A
call is a method path after its arguments at the end are deleted (`Uncalled`).

For method paths, `PathState.residual` gives each state of the automaton the language of what may still come. A step of
the automaton takes a character off that language (`cons_mem_residual`), so the automaton accepts from every state what
its language has (`accepts_foldl_iff`).
-/

namespace TemplateCompiler.Listener.Grammar

open scoped Computability

/-! ## Grammars -/

/-- One character of a class. -/
def one (p : Char → Bool) : Language Char :=
  {cs : List Char | ∃ c, p c = true ∧ cs = [c]}

/-- Any number of characters of a class. -/
def many (p : Char → Bool) : Language Char :=
  {cs : List Char | ∀ c ∈ cs, p c = true}

def someOf (p : Char → Bool) : Language Char :=
  one p * many p

def mark (c : Char) : Language Char :=
  one (· == c)

def word (s : String) : Language Char :=
  {s.toList}

def name : Language Char :=
  one isNameStart * many isNameChar

/-- A member of a method path. -/
def segment : Language Char :=
  mark '.' * name + mark '[' * (mark '\'' * many (· != '\'') * mark '\'') * mark ']' +
    mark '[' * (mark '"' * many (· != '"') * mark '"') * mark ']' +
    mark '[' * someOf Text.isDecimalDigit * mark ']' + mark '[' * name * mark ']'

/-- The end of a text, or a last line feed. -/
def lineEnd : Language Char :=
  1 + mark '\n'

def methodPath : Language Char :=
  name * segment∗ * lineEnd

/-- A text between round brackets without a closing one in it. -/
def arguments : Language Char :=
  mark '(' * many (· != ')') * mark ')'

/-- How a function expression begins. -/
def functionStart : Language Char :=
  (someOf isNameChar + arguments) * many Text.isBlank * word "=>" +
    word "function" * (1 + someOf Text.isBlank * someOf isNameChar) * many Text.isBlank * word "("

/-- Arguments with the semicolons after them. -/
def call : Language Char :=
  arguments * many (· == ';')

/-- A text in three parts, of which the second is a call and the last one ends the text. -/
structure EndsInCall (cs before run after : List Char) : Prop where
  eq : cs = before ++ run ++ after
  run_mem : run ∈ call
  after_mem : after ∈ lineEnd

/-- What is left of a text after its leftmost call at the end is deleted, if it has one. -/
inductive Uncalled (cs : List Char) : List Char → Prop
  | deleted {before run after : List Char} (h : EndsInCall cs before run after)
      (hleft : ∀ before' run' after', EndsInCall cs before' run' after' → before.length ≤ before'.length) :
      Uncalled cs (before ++ after)
  | kept (h : ∀ before run after, ¬ EndsInCall cs before run after) : Uncalled cs cs

section

variable {p : Char → Bool} {L : Language Char} {c : Char} {cs : List Char}

theorem nil_notMem_one_mul : [] ∉ one p * L := by
  rintro ⟨_, ⟨c, -, rfl⟩, ds, -, h⟩
  cases h

theorem cons_mem_one_mul : c :: cs ∈ one p * L ↔ p c = true ∧ cs ∈ L := by
  constructor
  · rintro ⟨_, ⟨d, hd, rfl⟩, ds, hds, h⟩
    cases h
    exact ⟨hd, hds⟩
  · rintro ⟨hc, hcs⟩
    exact ⟨[c], ⟨c, hc, rfl⟩, cs, hcs, rfl⟩

theorem cons_mem_mark_mul {d : Char} : c :: cs ∈ mark d * L ↔ c = d ∧ cs ∈ L := by
  rw [mark, cons_mem_one_mul, beq_iff_eq]

theorem nil_mem_many_mul : [] ∈ many p * L ↔ [] ∈ L := by
  constructor
  · rintro ⟨as, -, bs, hbs, h⟩
    rwa [← (List.append_eq_nil_iff.mp h).2]
  · intro h
    exact ⟨[], List.forall_mem_nil _, [], h, rfl⟩

theorem cons_mem_many_mul : c :: cs ∈ many p * L ↔ p c = true ∧ cs ∈ many p * L ∨ c :: cs ∈ L := by
  constructor
  · rintro ⟨_ | ⟨a, as⟩, has, bs, hbs, h⟩
    · exact .inr (h ▸ hbs)
    · cases h
      obtain ⟨ha, has⟩ := List.forall_mem_cons.mp has
      exact .inl ⟨ha, as, has, bs, hbs, rfl⟩
  · rintro (⟨hc, as, has, bs, hbs, rfl⟩ | h)
    · exact ⟨c :: as, List.forall_mem_cons.mpr ⟨hc, has⟩, bs, hbs, rfl⟩
    · exact ⟨[], List.forall_mem_nil _, c :: cs, h, rfl⟩

/-- No text of the language begins with a character of the class. -/
def Avoids (p : Char → Bool) (L : Language Char) : Prop :=
  ∀ c cs, c :: cs ∈ L → p c = false

theorem avoids_one_mul {q : Char → Bool} (h : ∀ c, q c = true → p c = false) : Avoids p (one q * L) :=
  fun c _ hcs => h c (cons_mem_one_mul.mp hcs).1

theorem avoids_mark_mul {d : Char} (h : p d = false) : Avoids p (mark d * L) :=
  avoids_one_mul fun _ hc => beq_iff_eq.mp hc ▸ h

theorem Avoids.cons_mem_many_mul (h : Avoids p L) :
    c :: cs ∈ many p * L ↔ if p c = true then cs ∈ many p * L else c :: cs ∈ L := by
  rw [Grammar.cons_mem_many_mul]
  split
  · next hc =>
    have hL : c :: cs ∉ L := fun hcs => Bool.false_ne_true ((h c cs hcs).symm.trans hc)
    simp [hc, hL]
  · next hc => simp [hc]

/-- Where the class ends is where the rest begins. -/
theorem Avoids.mem_many_mul (h : Avoids p L) : cs ∈ many p * L ↔ cs.dropWhile p ∈ L := by
  induction cs with
  | nil => exact nil_mem_many_mul
  | cons c cs ih =>
    rw [h.cons_mem_many_mul, ih, List.dropWhile_cons]
    split <;> rfl

theorem Avoids.mem_someOf_mul (h : Avoids p L) :
    cs ∈ someOf p * L ↔ (cs.takeWhile p).isEmpty = false ∧ cs.dropWhile p ∈ L := by
  rw [someOf, mul_assoc]
  cases cs with
  | nil => simp [nil_notMem_one_mul]
  | cons c cs =>
    rw [cons_mem_one_mul, h.mem_many_mul, List.takeWhile_cons, List.dropWhile_cons]
    split
    · next hc => simp [hc]
    · next hc => simp [hc]

theorem avoids_many_mul {q : Char → Bool} (hq : ∀ c, q c = true → p c = false) (h : Avoids p L) :
    Avoids p (many q * L) := by
  intro c cs hcs
  rcases Grammar.cons_mem_many_mul.mp hcs with ⟨hc, -⟩ | hcs
  · exact hq c hc
  · exact h c cs hcs

theorem mem_word_mul {s : String} : cs ∈ word s * L ↔ ∃ rest ∈ L, s.toList ++ rest = cs := by
  constructor
  · rintro ⟨_, rfl, rest, hrest, h⟩
    exact ⟨rest, hrest, h⟩
  · rintro ⟨rest, hrest, h⟩
    exact ⟨s.toList, rfl, rest, hrest, h⟩

theorem avoids_word_mul {s : String} {d : Char} {ds : List Char} (hs : s.toList = d :: ds) (hd : p d = false) :
    Avoids p (word s * L) := by
  intro c cs hcs
  obtain ⟨rest, -, h⟩ := mem_word_mul.mp hcs
  rw [hs] at h
  obtain rfl : d = c := List.head_eq_of_cons_eq h
  exact hd

theorem mem_mul_top : cs ∈ L * ⊤ ↔ ∃ start ∈ L, start <+: cs := by
  constructor
  · rintro ⟨start, hstart, rest, -, h⟩
    exact ⟨start, hstart, rest, h⟩
  · rintro ⟨start, hstart, rest, h⟩
    exact ⟨start, hstart, rest, trivial, h⟩

end

/-! ## Method paths -/

/-- What may follow a complete step of a path. -/
def onward : Language Char :=
  segment∗ * lineEnd

/-- What may follow the opening bracket of a member. -/
def bracketed : Language Char :=
  mark '\'' * (many (· != '\'') * (mark '\'' * (mark ']' * onward))) +
    mark '"' * (many (· != '"') * (mark '"' * (mark ']' * onward))) +
    one Text.isDecimalDigit * (many Text.isDecimalDigit * (mark ']' * onward)) +
    one isNameStart * (many isNameChar * (mark ']' * onward))

/-- What may still come where the automaton stands. -/
def residual : PathState → Language Char
  | .start | .point => one isNameStart * (many isNameChar * onward)
  | .name => many isNameChar * onward
  | .bracket => bracketed
  | .single => many (· != '\'') * (mark '\'' * (mark ']' * onward))
  | .double => many (· != '"') * (mark '"' * (mark ']' * onward))
  | .singleEnd | .doubleEnd => mark ']' * onward
  | .index => many Text.isDecimalDigit * (mark ']' * onward)
  | .variable => many isNameChar * (mark ']' * onward)
  | .closed => onward
  | .lineEnd => 1
  | .off => 0

/-- A path goes on with a point or a bracket, or ends. -/
theorem onward_eq : onward = 1 + mark '\n' + mark '.' * residual .point + mark '[' * bracketed := by
  have hstar : onward = lineEnd + segment * onward := by
    unfold onward
    nth_rewrite 1 [← Language.one_add_self_mul_kstar_eq_kstar]
    rw [add_mul, one_mul, mul_assoc]
  rw [hstar, segment, lineEnd, residual, bracketed, someOf, name]
  simp only [add_mul, mul_add, mul_assoc, add_assoc]

theorem nil_mem_onward : [] ∈ onward := by
  rw [onward_eq]
  exact .inl (.inl (.inl rfl))

variable {c : Char} {cs : List Char}

theorem cons_mem_onward : c :: cs ∈ onward ↔ cs ∈ residual (PathState.next c) := by
  have hlineFeed : c :: cs ∈ mark '\n' ↔ c = '\n' ∧ cs = [] := by
    rw [← mul_one (mark '\n'), cons_mem_mark_mul, Language.mem_one]
  rw [onward_eq, Language.mem_add, Language.mem_add, Language.mem_add, Language.mem_one, hlineFeed, cons_mem_mark_mul,
    cons_mem_mark_mul]
  simp only [PathState.next, beq_iff_eq]
  split
  · next hc => simp [hc]
  split
  · next hc => simp [hc, residual]
  split
  · next hc => simp [hc, residual]
  · next hpoint hbracket hline => simp [hpoint, hbracket, hline, residual]

theorem avoids_onward : Avoids isNameChar onward := by
  intro c cs h
  rw [cons_mem_onward] at h
  simp only [PathState.next, beq_iff_eq] at h
  split at h
  · next hc => rw [hc]; decide
  split at h
  · next hc => rw [hc]; decide
  split at h
  · next hc => rw [hc]; decide
  · exact absurd h (Language.notMem_zero cs)

theorem cons_mem_bracketed : c :: cs ∈ bracketed ↔ cs ∈ residual (PathState.step .bracket c) := by
  simp only [bracketed, Language.mem_add, cons_mem_mark_mul, cons_mem_one_mul, PathState.step, beq_iff_eq]
  split
  · next hc =>
    subst hc
    simp [residual, show Text.isDecimalDigit '\'' = false by decide, show isNameStart '\'' = false by decide]
  split
  · next hc =>
    subst hc
    simp [residual, show Text.isDecimalDigit '"' = false by decide, show isNameStart '"' = false by decide]
  split
  · next hsingle hdouble hdigit =>
    -- The automaton tries digits first, the sum does not.
    have hname : isNameStart c ≠ true := fun h => by
      rw [not_isDecimalDigit_of_isNameStart h] at hdigit
      cases hdigit
    simp [hsingle, hdouble, hdigit, hname, residual]
  split
  · next hsingle hdouble hdigit hname => simp [hsingle, hdouble, hdigit, hname, residual]
  · next hsingle hdouble hdigit hname => simp [hsingle, hdouble, hdigit, hname, residual]

theorem cons_mem_residual (s : PathState) : c :: cs ∈ residual s ↔ cs ∈ residual (s.step c) := by
  cases s with
  | start | point =>
    rw [residual, cons_mem_one_mul, PathState.step]
    split <;> simp [residual, *]
  | name =>
    rw [residual, avoids_onward.cons_mem_many_mul, cons_mem_onward, PathState.step]
    split <;> simp [residual]
  | bracket => exact cons_mem_bracketed
  | single =>
    rw [residual, (avoids_mark_mul (by decide)).cons_mem_many_mul, cons_mem_mark_mul, PathState.step]
    by_cases hc : c = '\'' <;> simp [residual, hc]
  | double =>
    rw [residual, (avoids_mark_mul (by decide)).cons_mem_many_mul, cons_mem_mark_mul, PathState.step]
    by_cases hc : c = '"' <;> simp [residual, hc]
  | singleEnd | doubleEnd =>
    rw [residual, cons_mem_mark_mul, PathState.step]
    by_cases hc : c = ']' <;> simp [residual, hc]
  | index | «variable» =>
    rw [residual, (avoids_mark_mul (by decide)).cons_mem_many_mul, cons_mem_mark_mul, PathState.step]
    split
    · simp [residual]
    · by_cases hc : c = ']' <;> simp [residual, hc]
  | closed => exact cons_mem_onward
  | lineEnd => simp [residual, PathState.step]
  | off => simp [residual, PathState.step]

theorem nil_mem_residual (s : PathState) : [] ∈ residual s ↔ s.accepts = true := by
  cases s with
  | bracket =>
    simp only [residual, bracketed, Language.mem_add, nil_notMem_one_mul, mark, PathState.accepts, or_self]
    exact (iff_false_intro Bool.false_ne_true).symm
  | _ => simp [residual, PathState.accepts, nil_mem_many_mul, nil_mem_onward, nil_notMem_one_mul, mark]

theorem accepts_foldl_iff (s : PathState) : (cs.foldl PathState.step s).accepts = true ↔ cs ∈ residual s := by
  induction cs generalizing s with
  | nil => exact (nil_mem_residual s).symm
  | cons c cs ih => rw [List.foldl_cons, ih, cons_mem_residual]

theorem isMethodPath_iff : isMethodPath cs = true ↔ cs ∈ methodPath := by
  rw [isMethodPath, accepts_foldl_iff, residual, methodPath, name, onward, mul_assoc, mul_assoc]

/-! ## Function expressions -/

/-- A word after blanks, and what follows it. -/
def afterBlanks (s : String) : Language Char :=
  many Text.isBlank * (word s * ⊤)

section

variable {s : String} {d : Char} {ds : List Char} (hs : s.toList = d :: ds)

include hs

theorem mem_afterBlanks (hd : Text.isBlank d = false) :
    cs ∈ afterBlanks s ↔ s.toList.isPrefixOf (cs.dropWhile Text.isBlank) = true := by
  rw [afterBlanks, (avoids_word_mul hs hd).mem_many_mul, mem_mul_top, List.isPrefixOf_iff_prefix]
  constructor
  · rintro ⟨_, rfl, h⟩
    exact h
  · intro h
    exact ⟨s.toList, rfl, h⟩

theorem avoids_afterBlanks (hd : isNameChar d = false) : Avoids isNameChar (afterBlanks s) :=
  avoids_many_mul (fun _ => Text.isNameChar_of_isBlank) (avoids_word_mul hs hd)

end

theorem toList_arrow : "=>".toList = ['=', '>'] := rfl

theorem toList_opening : "(".toList = ['('] := rfl

theorem startsWithArrow_iff : startsWithArrow cs = true ↔ cs ∈ afterBlanks "=>" := by
  rw [mem_afterBlanks toList_arrow (by decide), toList_arrow, startsWithArrow]

theorem startsWithOpening_iff : startsWithOpening cs = true ↔ cs ∈ afterBlanks "(" := by
  rw [mem_afterBlanks toList_opening (by decide), toList_opening, startsWithOpening]

/-- Only a closing bracket stops the way to one. -/
theorem eq_of_dropToClosing {d : Char} {rest : List Char} (h : cs.dropWhile (· != ')') = d :: rest) : d = ')' := by
  have hhead := List.head?_dropWhile_not (· != ')') cs
  rw [h] at hhead
  simpa using hhead

/-- What follows the arguments at the beginning of a text. -/
theorem mem_arguments_mul {L : Language Char} :
    cs ∈ arguments * L ↔ ∃ rest, cs = '(' :: rest ∧ ∃ rest', rest.dropWhile (· != ')') = ')' :: rest' ∧ rest' ∈ L := by
  have hclosing : Avoids (· != ')') (mark ')' * L) := avoids_mark_mul rfl
  rw [arguments, mul_assoc, mul_assoc]
  cases cs with
  | nil => simp [mark, nil_notMem_one_mul]
  | cons c cs =>
    rw [cons_mem_mark_mul, hclosing.mem_many_mul]
    cases h : cs.dropWhile (· != ')') with
    | nil => simp [mark, nil_notMem_one_mul, h]
    | cons d ds => simp [cons_mem_mark_mul, h]

theorem isArrowFunction_iff :
    isArrowFunction cs = true ↔ cs ∈ someOf isNameChar * afterBlanks "=>" + arguments * afterBlanks "=>" := by
  have hname : Avoids isNameChar (afterBlanks "=>") := avoids_afterBlanks toList_arrow (by decide)
  unfold isArrowFunction
  rw [Bool.or_eq_true, Bool.and_eq_true, Bool.not_eq_true', startsWithArrow_iff, Language.mem_add, hname.mem_someOf_mul,
    mem_arguments_mul]
  refine or_congr_right ?_
  split
  · next rest =>
    cases h : rest.dropWhile (· != ')') with
    | nil => simp [h]
    | cons d ds => simp [startsWithArrow_iff, eq_of_dropToClosing h, h]
  · next hne =>
    simp only [Bool.false_eq_true, false_iff]
    rintro ⟨rest, rfl, -⟩
    exact hne rest rfl

theorem startsParameters_iff : startsParameters cs = true ↔
    cs ∈ (1 + someOf Text.isBlank * someOf isNameChar) * afterBlanks "(" := by
  have hname : Avoids isNameChar (afterBlanks "(") := avoids_afterBlanks toList_opening (by decide)
  have hblank : Avoids Text.isBlank (someOf isNameChar * afterBlanks "(") := by
    rw [someOf, mul_assoc]
    refine avoids_one_mul fun c hc => ?_
    by_contra hb
    rw [Text.isNameChar_of_isBlank (Bool.eq_true_of_not_eq_false hb)] at hc
    cases hc
  unfold startsParameters
  rw [Bool.or_eq_true, startsWithOpening_iff, add_mul, one_mul, mul_assoc, Language.mem_add, hblank.mem_someOf_mul,
    hname.mem_someOf_mul]
  refine or_congr_right ?_
  cases cs with
  | nil => simp
  | cons c cs =>
    simp only [Bool.and_eq_true, Bool.not_eq_true', startsWithOpening_iff, and_assoc]
    refine and_congr_left fun _ => ?_
    rw [List.takeWhile_cons]
    split
    · next hc => simp [hc]
    · next hc => simp [hc]

theorem functionStart_mul_top : functionStart * ⊤ =
    someOf isNameChar * afterBlanks "=>" + arguments * afterBlanks "=>" +
      word "function" * ((1 + someOf Text.isBlank * someOf isNameChar) * afterBlanks "(") := by
  simp only [functionStart, afterBlanks, add_mul, mul_assoc]

theorem isFunctionExpression_iff : isFunctionExpression cs = true ↔ ∃ start ∈ functionStart, start <+: cs := by
  rw [← mem_mul_top, functionStart_mul_top, Language.mem_add, ← isArrowFunction_iff, mem_word_mul,
    isFunctionExpression, Bool.or_eq_true]
  refine or_congr_right ?_
  constructor
  · intro hparameters
    cases h : "function".toList.isPrefixOf? cs with
    | none =>
      rw [h] at hparameters
      cases hparameters
    | some rest =>
      rw [h] at hparameters
      exact ⟨rest, startsParameters_iff.mp hparameters, List.isPrefixOf?_eq_some_iff_append_eq.mp h⟩
  · rintro ⟨rest, hrest, h⟩
    rw [List.isPrefixOf?_eq_some_iff_append_eq.mpr h]
    exact startsParameters_iff.mpr hrest

/-! ## Calls -/

theorem mem_lineEnd : cs ∈ lineEnd ↔ cs = [] ∨ cs = ['\n'] := by
  rw [lineEnd, Language.mem_add, Language.mem_one]
  refine or_congr_right ⟨?_, ?_⟩
  · rintro ⟨c, hc, rfl⟩
    rw [beq_iff_eq.mp hc]
  · rintro rfl
    exact ⟨'\n', rfl, rfl⟩

/-- A call from its opening bracket on, with what follows it. -/
theorem mem_call_mul {after : List Char} (hafter : after ∈ lineEnd) : '(' :: cs ∈ call * {after} ↔
    ∃ rest, cs.dropWhile (· != ')') = ')' :: rest ∧ rest.dropWhile (· == ';') = after := by
  have havoids : Avoids (· == ';') {after} := by
    rintro c ds rfl
    rcases mem_lineEnd.mp hafter with h | h <;> cases h
    rfl
  rw [call, mul_assoc, mem_arguments_mul]
  simp only [havoids.mem_many_mul]
  constructor
  · rintro ⟨_, ⟨⟩, rest, hclosing, hrest⟩
    exact ⟨rest, hclosing, hrest⟩
  · rintro ⟨rest, hclosing, hrest⟩
    exact ⟨cs, rfl, rest, hclosing, hrest⟩

/-- A text begins with a call that ends it exactly if arguments end the rest of it. -/
theorem endsInCall_nil_iff {after : List Char} :
    (∃ run, EndsInCall (c :: cs) [] run after) ↔ c = '(' ∧ afterCall? cs = some after := by
  constructor
  · rintro ⟨run, heq, hrun, hafter⟩
    obtain rfl : c = '(' := by
      obtain ⟨rest, h, -⟩ := mem_arguments_mul.mp (show c :: cs ∈ arguments * (many (· == ';') * {after}) by
        rw [← mul_assoc]
        exact ⟨run, hrun, after, rfl, heq.symm⟩)
      exact List.head_eq_of_cons_eq h
    obtain ⟨rest, hclosing, hrest⟩ := (mem_call_mul hafter).mp ⟨run, hrun, after, rfl, heq.symm⟩
    refine ⟨rfl, ?_⟩
    rw [afterCall?, hclosing]
    simp only [hrest, if_pos (mem_lineEnd.mp hafter)]
  · rintro ⟨rfl, h⟩
    unfold afterCall? at h
    cases hd : cs.dropWhile (· != ')') with
    | nil =>
      rw [hd] at h
      cases h
    | cons d rest =>
      rw [hd] at h
      dsimp only at h
      split at h
      · next hend =>
        cases h
        have hafter := mem_lineEnd.mpr hend
        obtain ⟨run, hrun, _, rfl, heq⟩ := (mem_call_mul hafter).mpr ⟨rest, eq_of_dropToClosing hd ▸ hd, rfl⟩
        exact ⟨run, heq.symm, hrun, hafter⟩
      · cases h

theorem endsInCall_cons {d : Char} {before run after : List Char} :
    EndsInCall (c :: cs) (d :: before) run after ↔ d = c ∧ EndsInCall cs before run after := by
  constructor
  · rintro ⟨h, hrun, hafter⟩
    cases h
    exact ⟨rfl, rfl, hrun, hafter⟩
  · rintro ⟨rfl, rfl, hrun, hafter⟩
    exact ⟨rfl, hrun, hafter⟩

theorem uncalled_cons_of_some {after rest : List Char} (h : afterCall? cs = some after) :
    Uncalled ('(' :: cs) rest ↔ rest = after := by
  obtain ⟨run, hcall⟩ := endsInCall_nil_iff.mpr ⟨rfl, h⟩
  constructor
  · rintro (⟨hcall', hleft⟩ | hnone)
    · obtain rfl := List.length_eq_zero_iff.mp (Nat.le_zero.mp (hleft _ _ _ hcall))
      exact Option.some.inj ((endsInCall_nil_iff.mp ⟨_, hcall'⟩).2.symm.trans h)
    · exact absurd hcall (hnone _ _ _)
  · rintro rfl
    exact .deleted hcall fun _ _ _ _ => Nat.zero_le _

theorem uncalled_cons_of_forall {rest : List Char} (h : ∀ run after, ¬ EndsInCall (c :: cs) [] run after) :
    Uncalled (c :: cs) rest ↔ ∃ rest', Uncalled cs rest' ∧ rest = c :: rest' := by
  constructor
  · rintro (@⟨_ | ⟨d, before⟩, run, after, hcall, hleft⟩ | hnone)
    · exact absurd hcall (h run after)
    -- Leftmost in the text is leftmost in its tail, as no call begins the text.
    · obtain ⟨rfl, htail⟩ := endsInCall_cons.mp hcall
      refine ⟨before ++ after, .deleted htail fun before' run' after' hcall' => ?_, rfl⟩
      exact Nat.le_of_succ_le_succ (hleft (d :: before') run' after' (endsInCall_cons.mpr ⟨rfl, hcall'⟩))
    · refine ⟨cs, .kept fun before run after hcall => ?_, rfl⟩
      exact hnone (c :: before) run after (endsInCall_cons.mpr ⟨rfl, hcall⟩)
  · rintro ⟨_, @⟨before, run, after, hcall, hleft⟩ | hnone, rfl⟩
    · rw [← List.cons_append]
      refine .deleted (endsInCall_cons.mpr ⟨rfl, hcall⟩) fun before' run' after' hcall' => ?_
      cases before' with
      | nil => exact absurd hcall' (h run' after')
      | cons d before' => exact Nat.succ_le_succ (hleft before' run' after' (endsInCall_cons.mp hcall').2)
    · refine .kept fun before run after hcall => ?_
      cases before with
      | nil => exact h run after hcall
      | cons d before => exact hnone before run after (endsInCall_cons.mp hcall).2

theorem uncalled_iff {rest : List Char} : Uncalled cs rest ↔ rest = dropCall cs := by
  induction cs generalizing rest with
  | nil =>
    have hnone (before run after : List Char) : ¬ EndsInCall [] before run after := by
      rintro ⟨h, hrun, -⟩
      obtain rfl : run = [] := by simp_all
      rw [call, arguments, mul_assoc, mul_assoc] at hrun
      exact nil_notMem_one_mul hrun
    constructor
    · rintro (⟨hcall, -⟩ | -)
      · exact absurd hcall (hnone _ _ _)
      · rfl
    · rintro rfl
      exact .kept hnone
  | cons c cs ih =>
    unfold dropCall
    split
    · next hc =>
      subst hc
      cases h : afterCall? cs with
      | some after => exact uncalled_cons_of_some h
      | none =>
        rw [uncalled_cons_of_forall]
        · simp [ih]
        · intro run after hcall
          rw [(endsInCall_nil_iff.mp ⟨run, hcall⟩).2] at h
          cases h
    · next hc =>
      rw [uncalled_cons_of_forall fun run after hcall => hc (endsInCall_nil_iff.mp ⟨run, hcall⟩).1]
      simp [ih]

/-! ## Main result -/

/-- The three tests of handler values decide their languages. -/
theorem tests_decide_languages (value : String) :
    (isMethodPath value.toList = true ↔ value.toList ∈ methodPath) ∧
      (isFunctionExpression value.toList = true ↔ ∃ start ∈ functionStart, start <+: value.toList) ∧
      (isInvocation value.toList = true ↔ ∃ rest, Uncalled value.toList rest ∧ rest ∈ methodPath) := by
  refine ⟨isMethodPath_iff, isFunctionExpression_iff, ?_⟩
  rw [isInvocation, isMethodPath_iff]
  constructor
  · intro h
    exact ⟨_, uncalled_iff.mpr rfl, h⟩
  · rintro ⟨rest, hrest, h⟩
    rwa [← uncalled_iff.mp hrest]

end TemplateCompiler.Listener.Grammar
