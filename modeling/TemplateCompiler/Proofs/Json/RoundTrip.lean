import TemplateCompiler.Json.Parser
import TemplateCompiler.Proofs.Json.Letters

/-!
# Reading what was written

Where the length of integers is limited, a value is written exactly if they all fit (`write_eq_some_iff`). The reader
takes the compact text of a value back to the value, and the text in which the line separators are written by number as
well. Both are texts in which the characters that the printer puts out are spelled in some way. What the reader needs of
a spelling is `Faithful`; `value_compactChars` reads values in any such spelling.
-/

namespace TemplateCompiler.Json

open Text

mutual

/-- Whether no number of a value has a fraction or an exponent. -/
def isWhole : Json → Bool
  | .real _ => false
  | .array items => areWhole items
  | .object members => membersWhole members
  | .null | .bool _ | .int _ | .string _ => true

def areWhole : List Json → Bool
  | [] => true
  | x :: xs => isWhole x && areWhole xs

def membersWhole : List (String × Json) → Bool
  | [] => true
  | (_, v) :: ms => isWhole v && membersWhole ms

end

/-! ## What can be written -/

mutual

theorem writeChars_eq (limit : Text.DigitLimit) :
    ∀ v : Json, writeChars limit v = if fits limit v then some (compactChars v) else none
  | .null | .bool true | .bool false | .real _ | .string _ | .array [] | .object [] => by
    simp [writeChars, compactChars, fits, fitsItems, fitsMembers]
  | .int n => by rw [writeChars, fits, compactChars]
  | .array (x :: xs) => by
    rw [writeChars, writeChars_eq limit x, writeItems_eq limit xs, fits, fitsItems, compactChars]
    cases fits limit x <;> cases fitsItems limit xs <;> rfl
  | .object ((k, v) :: ms) => by
    rw [writeChars, writeChars_eq limit v, writeMembers_eq limit ms, fits, fitsMembers, compactChars]
    cases fits limit v <;> cases fitsMembers limit ms <;> rfl

theorem writeItems_eq (limit : Text.DigitLimit) :
    ∀ xs : List Json, writeItems limit xs = if fitsItems limit xs then some (itemsTail xs) else none
  | [] => by rw [writeItems, fitsItems, itemsTail, if_pos rfl]
  | x :: xs => by
    rw [writeItems, writeChars_eq limit x, writeItems_eq limit xs, fitsItems, itemsTail]
    cases fits limit x <;> cases fitsItems limit xs <;> rfl

theorem writeMembers_eq (limit : Text.DigitLimit) : ∀ ms : List (String × Json),
    writeMembers limit ms = if fitsMembers limit ms then some (membersTail ms) else none
  | [] => by rw [writeMembers, fitsMembers, membersTail, if_pos rfl]
  | (k, v) :: ms => by
    rw [writeMembers, writeChars_eq limit v, writeMembers_eq limit ms, fitsMembers, membersTail]
    cases fits limit v <;> cases fitsMembers limit ms <;> rfl

end

/-- A value is written as its compact text if its integers can be written. -/
theorem write_eq_some_iff {limit : Text.DigitLimit} {v : Json} {text : String} :
    v.write limit = some text ↔ v.fits limit = true ∧ text = v.compact := by
  rw [write, writeChars_eq]
  split
  · next h => simp [h, compact, eq_comm]
  · next h => simp [h]

mutual

/-- Without a limit there is nothing that cannot be written. -/
theorem fits_none : ∀ v : Json, v.fits none = true
  | .null | .bool _ | .real _ | .string _ | .int _ => rfl
  | .array items => fitsItems_none items
  | .object members => fitsMembers_none members

theorem fitsItems_none : ∀ xs : List Json, fitsItems none xs = true
  | [] => rfl
  | x :: xs => by rw [fitsItems, fits_none x, fitsItems_none xs]; rfl

theorem fitsMembers_none : ∀ ms : List (String × Json), fitsMembers none ms = true
  | [] => rfl
  | (_, v) :: ms => by rw [fitsMembers, fits_none v, fitsMembers_none ms]; rfl

end

/-! ## Strings -/

theorem hexValue?_hexDigit (n : Nat) : hexValue? (hexDigit n) = some (n % 16) := by
  have hall : ∀ k < 16, hexValue? (Nat.digitChar k) = some k := by decide
  exact hall _ (Nat.mod_lt n (by decide))

/-- An escape of a character that needs no surrogates is read alone, whatever follows it. -/
theorem stringBody_scalar {a b c d x : Char} (h : (hex4? a b c d).bind scalar? = some x) (rest : List Char) :
    stringBody ('\\' :: 'u' :: a :: b :: c :: d :: rest) = (stringBody rest).map fun p => (x :: p.1, p.2) := by
  obtain ⟨n, hn, hx⟩ := Option.bind_eq_some_iff.mp h
  rw [stringBody.eq_def]
  split
  all_goals simp_all
  · next c₀ rest₀ hne _ _ _ _ _ heq => exact absurd heq.2.symm (hne a b c d rest heq.1.symm)
  · next c₀ rest₀ _ hne heq => exact absurd heq.2.symm (hne 'u' _ heq.1.symm)

theorem stringBody_plain {c : Char} (hquote : c ≠ '"') (hslash : c ≠ '\\') (hc : 32 ≤ c.toNat) (rest : List Char) :
    stringBody (c :: rest) = (stringBody rest).map fun p => (c :: p.1, p.2) := by
  rw [stringBody, if_neg (by omega)]
  all_goals simp [hquote, hslash]

theorem stringBody_escapeChar (c : Char) (rest : List Char) :
    stringBody (escapeChar c ++ rest) = (stringBody rest).map fun p => (c :: p.1, p.2) := by
  unfold escapeChar
  split
  · next h => subst h; simp [stringBody]
  split
  · next h => subst h; simp [stringBody]
  iterate 5
    split
    · next h => subst h; rw [List.cons_append, List.cons_append, stringBody]; rfl
  split
  · next h =>
    refine stringBody_scalar ?_ rest
    have hvalue : ((0 * 16 + 0) * 16 + c.toNat / 16 % 16) * 16 + c.toNat % 16 = c.toNat := by omega
    have hhex : hex4? '0' '0' (hexDigit (c.toNat / 16)) (hexDigit c.toNat) = some c.toNat := by
      simp only [hex4?, hexValue?_hexDigit, show hexValue? '0' = some 0 from rfl, Option.bind_eq_bind,
        Option.bind_some, hvalue, pure]
    rw [hhex, Option.bind_some, scalar?, if_pos (by omega), Char.ofNat_toNat]
  · next hquote hslash _ _ _ _ _ hc => exact stringBody_plain hquote hslash (by omega) rest

/-! ## Spellings -/

/-- A spelling of the characters of a text that the reader sees through: it leaves the printable characters as
they are, and in a string the escape of a character still denotes it. -/
structure Faithful (spell : Char → List Char) : Prop where
  printable : ∀ c, isPrintable c = true → spell c = [c]
  read : ∀ c rest, stringBody ((escapeChar c).flatMap spell ++ rest) =
    (stringBody rest).map fun p => (c :: p.1, p.2)

theorem faithful_singleton : Faithful fun c => [c] where
  printable _ _ := rfl
  read c rest := by
    rw [List.flatMap_singleton']
    exact stringBody_escapeChar c rest

theorem flatMap_of_forall {spell : Char → List Char} {cs : List Char} (h : ∀ c ∈ cs, spell c = [c]) :
    cs.flatMap spell = cs := by
  induction cs with
  | nil => rfl
  | cons c cs ih =>
    obtain ⟨hc, hcs⟩ := List.forall_mem_cons.mp h
    rw [List.flatMap_cons, hc, ih hcs, List.singleton_append]

theorem separatorChars_of_ne {c : Char} (hline : c ≠ '\u2028') (hparagraph : c ≠ '\u2029') :
    separatorChars c = [c] := by
  rw [separatorChars, if_neg hline, if_neg hparagraph]

theorem separatorChars_of_isPrintable {c : Char} (h : isPrintable c = true) : separatorChars c = [c] :=
  separatorChars_of_ne (by rintro rfl; cases h) (by rintro rfl; cases h)

/-- The separators are no printable characters and are not escaped by the printer, so the backslash of their
number opens an escape of its own. -/
theorem faithful_separatorChars : Faithful separatorChars where
  printable _ h := separatorChars_of_isPrintable h
  read c rest := by
    have hplain (h : ∀ d ∈ escapeChar c, separatorChars d = [d]) :
        stringBody ((escapeChar c).flatMap separatorChars ++ rest) =
          (stringBody rest).map fun p => (c :: p.1, p.2) := by
      rw [flatMap_of_forall h]
      exact stringBody_escapeChar c rest
    rcases escapeChar_cases c with ⟨hself, -⟩ | hescape
    · by_cases hline : c = '\u2028'
      · subst hline
        exact stringBody_scalar rfl rest
      by_cases hparagraph : c = '\u2029'
      · subst hparagraph
        exact stringBody_scalar rfl rest
      · refine hplain fun d hd => ?_
        rw [hself, List.mem_singleton] at hd
        exact hd ▸ separatorChars_of_ne hline hparagraph
    · exact hplain fun d hd => separatorChars_of_isPrintable (hescape d hd)

/-! ## Numbers -/

/-- What may stand after a value: nothing, or the end of an item. -/
def Stops : List Char → Prop
  | [] => True
  | c :: _ => c = ',' ∨ c = ']' ∨ c = '\x7d'

theorem digitsOf_append {ds rest : List Char} (hds : ∀ c ∈ ds, c.isDigit = true) (h : Stops rest) :
    digitsOf (ds ++ rest) = ds ∧ afterDigits (ds ++ rest) = rest := by
  rw [digitsOf, afterDigits, List.takeWhile_append_of_pos hds, List.dropWhile_append_of_pos hds]
  rcases rest with _ | ⟨c, r⟩
  · simp
  · rcases h with rfl | rfl | rfl <;> exact ⟨List.append_nil ds, rfl⟩

theorem number_digits {ds rest : List Char} (hds : ∀ c ∈ ds, c.isDigit = true) (hne : ds ≠ []) (h : Stops rest)
    (negative : Bool) : number negative (ds ++ rest) =
      some (.int (if negative then -(natOfDigits ds : Int) else natOfDigits ds), rest) := by
  obtain ⟨hd, ha⟩ := digitsOf_append hds h
  unfold number
  rw [hd, ha]
  obtain ⟨d, ds, rfl⟩ := List.exists_cons_of_ne_nil hne
  rcases rest with _ | ⟨c, r⟩
  · rfl
  · rcases h with rfl | rfl | rfl <;> rfl

theorem isDigit_toDigits (n : Nat) : ∀ c ∈ Nat.toDigits 10 n, c.isDigit = true :=
  fun _ hc => Nat.isDigit_of_mem_toDigits (by decide) (by decide) hc

theorem number_toDigits (n : Nat) {rest : List Char} (h : Stops rest) (negative : Bool) :
    number negative (Nat.toDigits 10 n ++ rest) = some (.int (if negative then -(n : Int) else n), rest) := by
  rw [number_digits (isDigit_toDigits n) (by simp) h, natOfDigits,
    Nat.ofDigitChars_toDigits (by decide) (by decide)]

theorem skipGap_cons {c : Char} (h : isGap c = false) (cs : List Char) : skipGap (c :: cs) = c :: cs :=
  List.dropWhile_cons_of_neg (by simp [h])

theorem isGap_of_isNumeral {c : Char} (h : isNumeral c = true) : isGap c = false := by
  rw [Bool.eq_false_iff]
  intro hgap
  simp only [isGap, Bool.or_eq_true, beq_iff_eq] at hgap
  rcases hgap with ((rfl | rfl) | rfl) | rfl <;> cases h

theorem value_of_isDigit {d : Char} (hd : d.isDigit = true) (n : Nat) (r : List Char) :
    value (n + 1) (d :: r) = number false (d :: r) := by
  rw [value, skipGap_cons (isGap_of_isNumeral (isNumeral_of_isDigit hd))]
  split
  iterate 7
    · next heq =>
      obtain ⟨rfl, -⟩ := List.cons.inj heq
      cases hd
  · rfl

theorem value_intChars (n : Nat) (i : Int) {rest : List Char} (h : Stops rest) :
    value (n + 1) (intChars i ++ rest) = some (.int i, rest) := by
  cases i with
  | negSucc k => exact number_toDigits (k + 1) h true
  | ofNat k =>
    have hnumber := number_toDigits k h false
    have hdigits := isDigit_toDigits k
    rw [intChars]
    rcases hds : Nat.toDigits 10 k with _ | ⟨d, ds⟩
    · simp at hds
    rw [hds] at hnumber hdigits
    rw [List.cons_append, value_of_isDigit (hdigits d (List.mem_cons_self ..))]
    exact hnumber

/-! ## Arrays and objects -/

section

variable {n : Nat} {cs rest rest' : List Char} {c : Char} {k : List Char} {v x : Json} {xs : List Json}
  {m : String × Json} {ms : List (String × Json)}

theorem value_array (hgap : isGap c = false) (hc : c ≠ ']') (hx : value n (c :: cs) = some (x, rest))
    (hxs : items n rest = some (xs, rest')) : value (n + 1) ('[' :: c :: cs) = some (.array (x :: xs), rest') := by
  rw [value, skipGap_cons (by rfl)]
  simp only [skipGap_cons hgap]
  split
  · next heq => exact absurd (List.cons.inj heq).1 hc
  · simp only [hx, hxs, Option.map_some]

theorem items_cons (hx : value n cs = some (x, rest)) (hxs : items n rest = some (xs, rest')) :
    items (n + 1) (',' :: cs) = some (x :: xs, rest') := by
  rw [items, skipGap_cons (by rfl)]
  simp only [hx, hxs, Option.map_some]

theorem member_quoted (hk : stringBody cs = some (k, ':' :: rest)) (hv : value n rest = some (v, rest')) :
    member (n + 1) ('"' :: cs) = some ((String.ofList k, v), rest') := by
  rw [member, skipGap_cons (by rfl)]
  simp only [hk, skipGap_cons (show isGap ':' = false by rfl), hv, Option.map_some]

theorem value_object (hm : member n ('"' :: cs) = some (m, rest)) (hms : members n rest = some (ms, rest')) :
    value (n + 1) ('\x7b' :: '"' :: cs) = some (.object (m :: ms), rest') := by
  rw [value, skipGap_cons (by rfl)]
  simp only [skipGap_cons (show isGap '"' = false by rfl)]
  split
  · next heq => cases (List.cons.inj heq).1
  · simp only [hm, hms, Option.map_some]

theorem members_cons (hm : member n cs = some (m, rest)) (hms : members n rest = some (ms, rest')) :
    members (n + 1) (',' :: cs) = some (m :: ms, rest') := by
  rw [members, skipGap_cons (by rfl)]
  simp only [hm, hms, Option.map_some]

end

/-! ## Values -/

section

variable {spell : Char → List Char} (hs : Faithful spell)

include hs

theorem flatMap_cons {c : Char} (hc : isPrintable c = true) (cs : List Char) :
    (c :: cs).flatMap spell = c :: cs.flatMap spell := by
  rw [List.flatMap_cons, hs.printable c hc, List.singleton_append]

theorem stringBody_flatMap (cs rest : List Char) :
    stringBody ((cs.flatMap escapeChar).flatMap spell ++ '"' :: rest) = some (cs, rest) := by
  induction cs with
  | nil => simp [stringBody]
  | cons c cs ih =>
    rw [List.flatMap_cons, List.flatMap_append, List.append_assoc, hs.read, ih]
    rfl

theorem flatMap_quoteChars (cs rest : List Char) :
    (quoteChars cs).flatMap spell ++ rest = '"' :: ((cs.flatMap escapeChar).flatMap spell ++ '"' :: rest) := by
  rw [quoteChars, List.flatMap_append, flatMap_cons hs (by decide), flatMap_cons hs (by decide),
    List.cons_append, List.cons_append, List.append_assoc]
  rfl

theorem flatMap_word {cs : List Char} (h : cs.all isPrintable = true) : cs.flatMap spell = cs :=
  flatMap_of_forall fun c hc => hs.printable c (List.all_eq_true.mp h c hc)

theorem flatMap_intChars (i : Int) : (intChars i).flatMap spell = intChars i :=
  flatMap_of_forall fun c hc => hs.printable c (isPrintable_of_isNumeral (isNumeral_intChars i c hc))

/-- The text of a value begins neither with a gap nor with a closing bracket. -/
theorem exists_start (v : Json) (hv : v.isWhole = true) :
    ∃ c cs, (compactChars v).flatMap spell = c :: cs ∧ isGap c = false ∧ c ≠ ']' := by
  have hstart {c : Char} (cs : List Char) (hc : isPrintable c = true) (hgap : isGap c = false) (hne : c ≠ ']') :
      ∃ d ds, (c :: cs).flatMap spell = d :: ds ∧ isGap d = false ∧ d ≠ ']' :=
    ⟨c, _, flatMap_cons hs hc cs, hgap, hne⟩
  unfold compactChars
  split
  · exact hstart _ rfl rfl (by decide)
  · exact hstart _ rfl rfl (by decide)
  · exact hstart _ rfl rfl (by decide)
  · next i =>
    have hnumeral := isNumeral_intChars i
    rw [flatMap_intChars hs]
    rcases hi : intChars i with _ | ⟨c, cs⟩
    · cases i <;> simp [intChars] at hi
    · have hc := hnumeral c (hi ▸ List.mem_cons_self ..)
      exact ⟨c, cs, rfl, isGap_of_isNumeral hc, by rintro rfl; cases hc⟩
  · cases hv
  · exact hstart _ rfl rfl (by decide)
  · exact hstart _ rfl rfl (by decide)
  · exact hstart _ rfl rfl (by decide)
  · exact hstart _ rfl rfl (by decide)
  · exact hstart _ rfl rfl (by decide)

theorem stops_itemsTail (xs : List Json) (rest : List Char) : Stops ((itemsTail xs).flatMap spell ++ rest) := by
  cases xs with
  | nil =>
    rw [itemsTail, flatMap_word hs (by decide)]
    exact .inr (.inl rfl)
  | cons x xs =>
    rw [itemsTail, List.cons_append, flatMap_cons hs (by decide)]
    exact .inl rfl

theorem stops_membersTail (ms : List (String × Json)) (rest : List Char) :
    Stops ((membersTail ms).flatMap spell ++ rest) := by
  cases ms with
  | nil =>
    rw [membersTail, flatMap_word hs (by decide)]
    exact .inr (.inr rfl)
  | cons m ms =>
    rw [membersTail, List.append_assoc, List.cons_append, flatMap_cons hs (by decide)]
    exact .inl rfl

/-- A member is read if its value is. -/
theorem member_quoteChars {v : Json} (hv : ∀ (n : Nat) (rest : List Char), ((compactChars v).flatMap spell).length < n →
    Stops rest → value n ((compactChars v).flatMap spell ++ rest) = some (v, rest)) (k : String) (n : Nat)
    (rest : List Char) (hn : ((quoteChars k.toList ++ ':' :: compactChars v).flatMap spell).length < n)
    (h : Stops rest) : member n ((quoteChars k.toList ++ ':' :: compactChars v).flatMap spell ++ rest) =
      some ((k, v), rest) := by
  rw [List.flatMap_append, flatMap_cons hs (by decide)] at hn ⊢
  rw [List.append_assoc, flatMap_quoteChars hs, List.cons_append]
  rw [List.length_append, List.length_cons] at hn
  obtain ⟨n, rfl⟩ : ∃ k, n = k + 1 := ⟨n - 1, by omega⟩
  have hmember := member_quoted (stringBody_flatMap hs k.toList _) (hv n rest (by omega) h)
  rw [String.ofList_toList] at hmember
  exact hmember

mutual

-- A bound on the depth is large enough if it exceeds the length of the text: every step inwards has passed at
-- least one character.
theorem value_compactChars : ∀ (v : Json), v.isWhole = true → ∀ (n : Nat) (rest : List Char),
    ((compactChars v).flatMap spell).length < n → Stops rest →
      value n ((compactChars v).flatMap spell ++ rest) = some (v, rest)
  | _, _, 0, _, hn, _ => absurd hn (Nat.not_lt_zero _)
  | .null, _, n + 1, rest, _, _ => by
    rw [compactChars, flatMap_word hs (by decide)]
    rfl
  | .bool true, _, n + 1, rest, _, _ => by
    rw [compactChars, flatMap_word hs (by decide)]
    rfl
  | .bool false, _, n + 1, rest, _, _ => by
    rw [compactChars, flatMap_word hs (by decide)]
    rfl
  | .int i, _, n + 1, rest, _, h => by
    rw [compactChars, flatMap_intChars hs]
    exact value_intChars n i h
  | .real _, hv, _, _, _, _ => by cases hv
  | .string s, _, n + 1, rest, _, _ => by
    rw [compactChars, flatMap_quoteChars hs]
    show (stringBody _).map _ = _
    rw [stringBody_flatMap hs, Option.map_some, String.ofList_toList]
  | .array [], _, n + 1, rest, _, _ => by
    rw [compactChars, flatMap_word hs (by decide)]
    rfl
  | .array (x :: xs), hv, n + 1, rest, hn, _ => by
    rw [isWhole, areWhole, Bool.and_eq_true] at hv
    rw [compactChars, List.cons_append, flatMap_cons hs (by decide), List.flatMap_append] at hn ⊢
    rw [List.length_cons, List.length_append] at hn
    rw [List.cons_append, List.append_assoc]
    have hx := value_compactChars x hv.1 n ((itemsTail xs).flatMap spell ++ rest) (by omega)
      (stops_itemsTail hs xs rest)
    have hxs := items_itemsTail xs hv.2 n rest (by omega)
    obtain ⟨c, cs, hstart, hgap, hne⟩ := exists_start hs x hv.1
    rw [hstart] at hx ⊢
    exact value_array hgap hne hx hxs
  | .object [], _, n + 1, rest, _, _ => by
    rw [compactChars, flatMap_word hs (by decide)]
    rfl
  | .object ((k, v) :: ms), hv, n + 1, rest, hn, _ => by
    rw [isWhole, membersWhole, Bool.and_eq_true] at hv
    rw [compactChars, List.cons_append, List.cons_append, flatMap_cons hs (by decide), List.flatMap_append] at hn ⊢
    rw [List.length_cons, List.length_append] at hn
    rw [List.cons_append, List.append_assoc]
    have hm := member_quoteChars hs (value_compactChars v hv.1) k n _ (by omega) (stops_membersTail hs ms rest)
    have hms := members_membersTail ms hv.2 n rest (by omega)
    rw [List.flatMap_append, List.append_assoc, flatMap_quoteChars hs] at hm ⊢
    exact value_object hm hms

theorem items_itemsTail : ∀ (xs : List Json), areWhole xs = true → ∀ (n : Nat) (rest : List Char),
    ((itemsTail xs).flatMap spell).length < n → items n ((itemsTail xs).flatMap spell ++ rest) = some (xs, rest)
  | _, _, 0, _, hn => absurd hn (Nat.not_lt_zero _)
  | [], _, n + 1, rest, _ => by
    rw [itemsTail, flatMap_word hs (by decide)]
    rfl
  | x :: xs, hv, n + 1, rest, hn => by
    rw [areWhole, Bool.and_eq_true] at hv
    rw [itemsTail, List.cons_append, flatMap_cons hs (by decide), List.flatMap_append] at hn ⊢
    rw [List.length_cons, List.length_append] at hn
    rw [List.cons_append, List.append_assoc]
    exact items_cons (value_compactChars x hv.1 n _ (by omega) (stops_itemsTail hs xs rest))
      (items_itemsTail xs hv.2 n rest (by omega))

theorem members_membersTail : ∀ (ms : List (String × Json)), membersWhole ms = true → ∀ (n : Nat) (rest : List Char),
    ((membersTail ms).flatMap spell).length < n →
      members n ((membersTail ms).flatMap spell ++ rest) = some (ms, rest)
  | _, _, 0, _, hn => absurd hn (Nat.not_lt_zero _)
  | [], _, n + 1, rest, _ => by
    rw [membersTail, flatMap_word hs (by decide)]
    rfl
  | (k, v) :: ms, hv, n + 1, rest, hn => by
    rw [membersWhole, Bool.and_eq_true] at hv
    rw [membersTail, List.cons_append, List.cons_append, flatMap_cons hs (by decide), List.flatMap_append] at hn ⊢
    rw [List.length_cons, List.length_append] at hn
    rw [List.cons_append, List.append_assoc]
    exact members_cons
      (member_quoteChars hs (value_compactChars v hv.1) k n _ (by omega) (stops_membersTail hs ms rest))
      (members_membersTail ms hv.2 n rest (by omega))

end

/-- A text that spells the compact text of a value denotes the value. -/
theorem parse_spelled {v : Json} (hv : v.isWhole = true) :
    parse (String.ofList ((compactChars v).flatMap spell)) = some v := by
  have hvalue := value_compactChars hs v hv (2 * ((compactChars v).flatMap spell).length + 2) [] (by omega) trivial
  rw [List.append_nil] at hvalue
  rw [parse, String.toList_ofList, hvalue]
  rfl

end

end TemplateCompiler.Json
