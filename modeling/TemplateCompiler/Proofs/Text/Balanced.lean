import TemplateCompiler.Proofs.Text.Alphabet

/-!
# Balanced text

A `Reader` goes through code from left to right. It skips string literals, in which a backslash escapes the
next character, and remembers the brackets that are open. A text is `Balanced` if a reader that starts with
nothing open gets to its end, with nothing open.

Templates of code are read piece by piece. `Reads.fixed` goes on with a text that is known, and what the
reader has open after it is computed. `Reads.code` goes on with a text that is balanced, outside of string
literals, and `Reads.quoted` with a text without quotes and backslashes, inside of one. Neither changes what
is open.
-/

namespace TemplateCompiler.Text

/-! ## Readers -/

inductive Quote where
  | single
  | double
  deriving DecidableEq

inductive Bracket where
  | round
  | square
  | curly
  deriving DecidableEq

/-- What a character means to a reader. -/
inductive Token where
  | quote (mark : Quote)
  | opening (b : Bracket)
  | closing (b : Bracket)
  | backslash
  | other
  deriving DecidableEq

def token : Char → Token
  | '\'' => .quote .single
  | '"' => .quote .double
  | '(' => .opening .round
  | ')' => .closing .round
  | '[' => .opening .square
  | ']' => .closing .square
  | '{' => .opening .curly
  | '}' => .closing .curly
  | '\\' => .backslash
  | _ => .other

def Quote.char : Quote → Char
  | .single => '\''
  | .double => '"'

def Bracket.opener : Bracket → Char
  | .round => '('
  | .square => '['
  | .curly => '{'

def Bracket.closer : Bracket → Char
  | .round => ')'
  | .square => ']'
  | .curly => '}'

/-- Where a reader stands: outside of string literals, in one, or after a backslash in one. -/
inductive Mode where
  | code
  | quoted (mark : Quote)
  | escaped (mark : Quote)
  deriving DecidableEq

/-- A reader with the brackets that are open, the last one first. -/
structure Reader where
  mode : Mode := .code
  opened : List Bracket := []
  deriving DecidableEq

namespace Reader

/-- Reads one character. It fails at a closing bracket that does not match the last open one. -/
def step (q : Reader) (c : Char) : Option Reader :=
  match q.mode, token c with
  | .code, .quote mark => some { q with mode := .quoted mark }
  | .code, .opening b => some { q with opened := b :: q.opened }
  | .code, .closing b =>
    if q.opened.head? = some b then some { q with opened := q.opened.tail } else none
  | .code, _ => some q
  | .quoted mark, .quote mark' => if mark' = mark then some { q with mode := .code } else some q
  | .quoted mark, .backslash => some { q with mode := .escaped mark }
  | .quoted _, _ => some q
  | .escaped mark, _ => some { q with mode := .quoted mark }

def read : Reader → List Char → Option Reader
  | q, [] => some q
  | q, c :: cs => (q.step c).bind fun q => q.read cs

end Reader

/-- A reader `q` gets through `s` and is `q'` then. -/
def Reads (q : Reader) (s : String) (q' : Reader) : Prop :=
  q.read s.toList = some q'

/-- Every closing bracket matches the last open one, and at the end nothing is open. -/
def Balanced (s : String) : Prop :=
  Reads {} s {}

instance : DecidablePred Balanced := fun s =>
  inferInstanceAs (Decidable (Reader.read {} s.toList = some {}))

/-- A character that may stand between any quotes. -/
def isQuotable (c : Char) : Bool :=
  match token c with
  | .quote _ | .backslash => false
  | _ => true

/-- A text without quotes and backslashes. -/
def Quotable (s : String) : Prop :=
  ∀ c ∈ s.toList, isQuotable c = true

instance : DecidablePred Quotable := fun s =>
  List.decidableBAll (isQuotable · = true) s.toList

section

variable {c : Char}

theorem eq_of_token_quote {mark : Quote} (h : token c = .quote mark) : c = mark.char := by
  unfold token at h
  split at h <;> cases h <;> rfl

theorem eq_of_token_opening {b : Bracket} (h : token c = .opening b) : c = b.opener := by
  unfold token at h
  split at h <;> cases h <;> rfl

theorem eq_of_token_closing {b : Bracket} (h : token c = .closing b) : c = b.closer := by
  unfold token at h
  split at h <;> cases h <;> rfl

theorem eq_of_token_backslash (h : token c = .backslash) : c = '\\' := by
  unfold token at h
  split at h <;> cases h
  rfl

end

/-- Characters that mean nothing to a reader. -/
def Inert (cs : List Char) : Prop :=
  ∀ c ∈ cs, token c = .other

instance : DecidablePred Inert := fun cs =>
  List.decidableBAll (token · = .other) cs

/-! ## Reading on -/

namespace Reader

variable {q q' : Reader} {c : Char} {cs : List Char}

theorem read_append (q : Reader) (cs ds : List Char) :
    q.read (cs ++ ds) = (q.read cs).bind fun q => q.read ds := by
  induction cs generalizing q with
  | nil => rfl
  | cons c cs ih =>
    rw [List.cons_append, read, read, Option.bind_assoc]
    exact congrArg _ (funext fun q => ih q)

/-- The reader inside of further brackets. -/
def under (q : Reader) (outer : List Bracket) : Reader :=
  { q with opened := q.opened ++ outer }

theorem step_under (h : q.step c = some q') (outer : List Bracket) :
    (q.under outer).step c = some (q'.under outer) := by
  obtain ⟨mode, opened⟩ := q
  unfold step at h ⊢
  dsimp only [under] at h ⊢
  split at h
  case h_3 b _ =>
    split at h
    · next hb =>
      obtain ⟨rest, rfl⟩ := List.head?_eq_some_iff.mp hb
      cases h
      simp
    · cases h
  case h_5 =>
    split at h <;> cases h <;> simp [*]
  all_goals cases h; simp [*]

/-- Brackets that are open around a text are still open after it. -/
theorem read_under (h : q.read cs = some q') (outer : List Bracket) :
    (q.under outer).read cs = some (q'.under outer) := by
  induction cs generalizing q with
  | nil => cases h; rfl
  | cons c cs ih =>
    obtain ⟨m, hm, h⟩ := Option.bind_eq_some_iff.mp h
    rw [read, step_under hm, Option.bind_some, ih h]

/-- A character that means nothing in code. -/
theorem step_code (h : token c = .other) (opened : List Bracket) :
    step ⟨.code, opened⟩ c = some ⟨.code, opened⟩ := by
  simp only [step, h]

theorem step_quoted (h : isQuotable c = true) (mark : Quote) (opened : List Bracket) :
    step ⟨.quoted mark, opened⟩ c = some ⟨.quoted mark, opened⟩ := by
  unfold isQuotable at h
  unfold step
  cases ht : token c <;> simp_all

/-- The reader after any character that means nothing. -/
def settled (q : Reader) : Reader :=
  match q.mode with
  | .escaped mark => { q with mode := .quoted mark }
  | _ => q

@[simp] theorem settled_settled (q : Reader) : q.settled.settled = q.settled := by
  obtain ⟨_ | _ | _, _⟩ := q <;> rfl

theorem step_other (h : token c = .other) (q : Reader) : q.step c = some q.settled := by
  obtain ⟨_ | _ | _, _⟩ := q <;> simp [step, h, settled]

theorem read_inert (h : Inert cs) (hne : cs ≠ []) (q : Reader) : q.read cs = some q.settled := by
  induction cs generalizing q with
  | nil => exact absurd rfl hne
  | cons c cs ih =>
    rw [read, step_other (h c (List.mem_cons_self ..)), Option.bind_some]
    cases cs with
    | nil => rfl
    | cons d ds =>
      rw [ih (fun c hc => h c (List.mem_cons_of_mem _ hc)) (List.cons_ne_nil d ds), settled_settled]

theorem read_code (h : Inert cs) (opened : List Bracket) :
    read ⟨.code, opened⟩ cs = some ⟨.code, opened⟩ := by
  rcases cs with _ | ⟨c, cs⟩
  · rfl
  · exact read_inert h (List.cons_ne_nil c cs) _

/-- A character that means nothing, at the end of a text that ends outside of string literals, may as well
be left out. -/
theorem read_dropLast (h : token c = .other) {opened : List Bracket}
    (hr : q.read (cs ++ [c]) = some ⟨.code, opened⟩) : q.read cs = some ⟨.code, opened⟩ := by
  rw [read_append] at hr
  obtain ⟨m, hm, hr⟩ := Option.bind_eq_some_iff.mp hr
  rw [read, step_other h, Option.bind_some, read, Option.some.injEq] at hr
  obtain ⟨_ | _ | _, _⟩ := m
  · rw [hm, ← hr]; rfl
  · cases hr
  · cases hr

end Reader

variable {q m q' : Reader} {s t : String} {mark : Quote} {opened : List Bracket}

theorem Reads.append (h : Reads q s m) (h' : Reads m t q') : Reads q (s ++ t) q' := by
  unfold Reads at h h' ⊢
  rw [String.toList_append, Reader.read_append, h, Option.bind_some, h']

theorem Balanced.reads (h : Balanced s) (opened : List Bracket) :
    Reads ⟨.code, opened⟩ s ⟨.code, opened⟩ :=
  Reader.read_under h opened

theorem Quotable.reads (h : Quotable s) (mark : Quote) (opened : List Bracket) :
    Reads ⟨.quoted mark, opened⟩ s ⟨.quoted mark, opened⟩ := by
  unfold Quotable at h
  unfold Reads
  generalize s.toList = cs at h
  induction cs with
  | nil => rfl
  | cons c cs ih =>
    rw [Reader.read, Reader.step_quoted (h c (List.mem_cons_self ..)), Option.bind_some]
    exact ih fun c hc => h c (List.mem_cons_of_mem _ hc)

namespace Reads

/-- A template begins with a text that is known. -/
theorem start (s : String) (h : q.read s.toList = some q') : Reads q s q' := h

theorem fixed (h : Reads q s m) (t : String) (ht : m.read t.toList = some q') : Reads q (s ++ t) q' :=
  h.append ht

theorem code (h : Reads q s ⟨.code, opened⟩) (ht : Balanced t) : Reads q (s ++ t) ⟨.code, opened⟩ :=
  h.append (ht.reads opened)

theorem quoted (h : Reads q s ⟨.quoted mark, opened⟩) (ht : Quotable t) :
    Reads q (s ++ t) ⟨.quoted mark, opened⟩ :=
  h.append (ht.reads mark opened)

end Reads

/-! ## Balanced texts -/

theorem balanced_empty : Balanced "" := rfl

theorem Balanced.append (hs : Balanced s) (ht : Balanced t) : Balanced (s ++ t) :=
  Reads.append hs ht

theorem Balanced.intercalate {separator : String} (hseparator : Balanced separator) {ss : List String}
    (h : ∀ s ∈ ss, Balanced s) : Balanced (String.intercalate separator ss) := by
  induction ss with
  | nil => exact balanced_empty
  | cons s ss ih =>
    cases ss with
    | nil =>
      rw [String.intercalate_singleton]
      exact h s (List.mem_singleton_self s)
    | cons t ts =>
      rw [String.intercalate_cons_cons]
      exact ((h s (List.mem_cons_self ..)).append hseparator).append
        (ih fun t ht => h t (List.mem_cons_of_mem _ ht))

theorem Inert.balanced (h : Inert s.toList) : Balanced s :=
  Reader.read_code h []

/-- The code points of the characters that mean something to a reader. -/
def tokenPoints : List Nat :=
  [34, 39, 40, 41, 91, 92, 93, 123, 125]

theorem token_eq_other {c : Char} (h : c.toNat ∉ tokenPoints) : token c = .other := by
  unfold token
  split
  case h_10 => rfl
  all_goals exact absurd (by decide) h

/-- The characters of a class that holds none of the tokens. -/
theorem token_of_class {p : Char → Bool} (hp : ∀ n ∈ tokenPoints, p (Char.ofNat n) = false) {c : Char}
    (h : p c = true) : token c = .other := by
  refine token_eq_other fun hc => ?_
  rw [← Char.ofNat_toNat c, hp _ hc] at h
  cases h

/-! ## Blanks at the ends -/

theorem token_of_isBlank {c : Char} (h : isBlank c = true) : token c = .other :=
  token_of_class (by decide) h

/-- Blanks at the beginning and at the end of a balanced text do not matter. -/
theorem Balanced.trim (h : Balanced s) : Balanced (trim s) := by
  have hfront (cs : List Char) (h : Reader.read {} cs = some {}) :
      Reader.read {} (cs.dropWhile isBlank) = some {} := by
    induction cs with
    | nil => exact h
    | cons c cs ih =>
      rw [List.dropWhile_cons]
      split
      · next hc =>
        rw [Reader.read, Reader.step_code (token_of_isBlank hc)] at h
        exact ih h
      · exact h
  have hback (cs : List Char) (h : Reader.read {} cs.reverse = some {}) :
      Reader.read {} (cs.dropWhile isBlank).reverse = some {} := by
    induction cs with
    | nil => exact h
    | cons c cs ih =>
      rw [List.dropWhile_cons]
      split
      · next hc =>
        rw [List.reverse_cons] at h
        exact ih (Reader.read_dropLast (token_of_isBlank hc) h)
      · exact h
  unfold Balanced Reads Text.trim trimChars at *
  rw [String.toList_ofList]
  refine hback _ ?_
  rw [List.reverse_reverse]
  exact hfront _ h

/-! ## Camel case -/

theorem token_ofNat {n : Nat} (h : n ∉ tokenPoints) : token (Char.ofNat n) = .other := by
  unfold Char.ofNat
  by_cases hn : n.isValidChar
  · rw [dif_pos hn]
    exact token_eq_other h
  · rw [dif_neg hn]
    rfl

theorem token_of_isWord {c : Char} (h : isWord c = true) : token c = .other :=
  token_of_class (by decide) h

/-- The capital form of a basic word character is no token. -/
theorem token_toUpper {c : Char} (hc : c.toNat < 128) (h : isWord c = true) : token c.toUpper = .other := by
  have hall : ∀ n < 128, isWord (Char.ofNat n) = true → token (Char.ofNat n).toUpper = .other := by
    decide +kernel
  have hupper := hall c.toNat hc
  rw [Char.ofNat_toNat] at hupper
  exact hupper h

/-- What a run of capitals gives lies above the tokens, except for single letters. -/
theorem not_mem_of_covers {r : CapitalRun} (hr : r ∈ capitalRuns) {n : Nat} (hn : r.covers n = true) :
    (n + r.offset).toNat ∉ tokenPoints := by
  have hruns : ∀ r ∈ capitalRuns, 128 ≤ r.first + r.offset ∨
      r.first = r.last ∧ (r.first + r.offset).toNat ∉ tokenPoints := by
    decide +kernel
  have hlow : ∀ k ∈ tokenPoints, k < 128 := by decide
  simp only [CapitalRun.covers, Bool.and_eq_true, decide_eq_true_eq] at hn
  rcases hruns r hr with hhigh | ⟨hsingle, hpoint⟩
  · intro hmem
    have := hlow _ hmem
    omega
  · obtain rfl : n = r.first := by omega
    exact hpoint

/-- The capital form of a word character is not empty, and means nothing to a reader. -/
theorem capital_spec {c : Char} (h : isWord c = true) :
    capital c ≠ [] ∧ Inert (capital c) := by
  have hlong : ∀ p ∈ longCapitals, p.2 ≠ [] ∧ ∀ n ∈ p.2, n ∉ tokenPoints := by decide
  refine ⟨?_, fun d hd => ?_⟩
  · unfold capital
    split
    · exact List.cons_ne_nil _ _
    split
    · next points hp =>
      obtain ⟨l, l', hl, -⟩ := List.lookup_eq_some_iff.mp hp
      simpa using (hlong (c.toNat, points) (by rw [hl]; simp)).1
    split <;> exact List.cons_ne_nil _ _
  · rcases mem_capital hd with ⟨hc, rfl⟩ | ⟨p, hp, n, hn, rfl⟩ | ⟨r, hr, hcovers, rfl⟩ | rfl
    · exact token_toUpper hc h
    · exact token_ofNat ((hlong p hp).2 n hn)
    · exact token_ofNat (not_mem_of_covers hr hcovers)
    · exact token_of_isWord h

/-- A hyphen and a word character are read like the capital form that replaces them. -/
theorem read_camelChars (q : Reader) (cs : List Char) : q.read (camelChars cs) = q.read cs := by
  induction cs using camelChars.induct generalizing q with
  | case1 c rest hc ih =>
    obtain ⟨hne, hother⟩ := capital_spec hc
    rw [camelChars, if_pos hc, Reader.read_append, Reader.read_inert hother hne, Option.bind_some, ih,
      Reader.read, Reader.step_other (by rfl), Option.bind_some, Reader.read,
      Reader.step_other (token_of_isWord hc), Option.bind_some, Reader.settled_settled]
  | case2 c rest hc ih =>
    rw [camelChars, if_neg hc, Reader.read, Reader.read]
    exact congrArg _ (funext fun q => ih q)
  | case3 c rest hc ih =>
    rw [camelChars, Reader.read, Reader.read]
    · exact congrArg _ (funext fun q => ih q)
    · exact hc
  | case4 => rfl

theorem mem_camelChars {d : Char} {cs : List Char} (h : d ∈ camelChars cs) : d ∈ cs ∨ token d = .other := by
  induction cs using camelChars.induct with
  | case1 c rest hc ih =>
    rw [camelChars, if_pos hc, List.mem_append] at h
    rcases h with h | h
    · exact .inr ((capital_spec hc).2 d h)
    · exact (ih h).imp_left fun h => List.mem_cons_of_mem _ (List.mem_cons_of_mem _ h)
  | case2 c rest hc ih =>
    rw [camelChars, if_neg hc, List.mem_cons] at h
    rcases h with rfl | h
    · exact .inl (List.mem_cons_self ..)
    · exact (ih h).imp_left fun h => List.mem_cons_of_mem _ h
  | case3 c rest hc ih =>
    rw [camelChars, List.mem_cons] at h
    · rcases h with rfl | h
      · exact .inl (List.mem_cons_self ..)
      · exact (ih h).imp_left fun h => List.mem_cons_of_mem _ h
    · exact hc
  | case4 => cases h

theorem Balanced.camelize (h : Balanced s) : Balanced (camelize s) := by
  unfold Balanced Reads Text.camelize at *
  rw [String.toList_ofList, read_camelChars, h]

theorem Quotable.camelize (h : Quotable s) : Quotable (camelize s) := by
  intro d hd
  rw [Text.camelize, String.toList_ofList] at hd
  rcases mem_camelChars hd with hd | hd
  · exact h d hd
  · rw [isQuotable, hd]

end TemplateCompiler.Text
