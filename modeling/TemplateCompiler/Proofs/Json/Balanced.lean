import TemplateCompiler.Proofs.Json.Letters
import TemplateCompiler.Proofs.Text.Balanced

/-!
# Balanced JSON text

The text of every value is balanced, whatever stands in its strings (`balanced_compact`, `balanced_spaced`).
Writing the line separators of a text by number changes nothing for a reader (`balanced_escapeSeparators`).
-/

namespace TemplateCompiler

open Text

/-! ## Numbers -/

theorem token_of_isNumeral {c : Char} (h : Json.isNumeral c = true) : token c = .other :=
  token_of_class (by decide) h

theorem balanced_toString_nat (n : Nat) : Balanced (toString n) := by
  refine Inert.balanced ?_
  rw [show toString n = n.repr from rfl, Nat.toList_repr]
  exact fun c hc => token_of_isNumeral (Json.isNumeral_toDigits n c hc)

theorem balanced_toString_int (n : Int) : Balanced (toString n) := by
  cases n with
  | ofNat n => exact balanced_toString_nat n
  | negSucc n => exact (by decide : Balanced "-").append (balanced_toString_nat (n + 1))

namespace Json

theorem inert_intChars (n : Int) : Inert (intChars n) :=
  fun c hc => token_of_isNumeral (isNumeral_intChars n c hc)

theorem inert_realChars (bits : UInt64) : Inert (realChars bits) :=
  fun c hc => token_of_isNumeral (isNumeral_realChars bits c hc)

/-! ## Strings -/

theorem token_hexDigit (n : Nat) : token (hexDigit n) = .other := by
  have hall : ∀ k < 16, token (Nat.digitChar k) = .other := by decide
  exact hall _ (Nat.mod_lt n (by decide))

/-- A reader of a string literal is still in it after an escaped character. -/
theorem read_escapeChar (c : Char) (opened : List Bracket) :
    Reader.read ⟨.quoted .double, opened⟩ (escapeChar c) = some ⟨.quoted .double, opened⟩ := by
  unfold escapeChar
  split
  · rfl
  split
  · rfl
  iterate 5
    split
    · rfl
  split
  · show Reader.read ⟨.quoted .double, opened⟩ ['0', '0', hexDigit (c.toNat / 16), hexDigit c.toNat] = _
    refine Reader.read_inert (fun d hd => ?_) (List.cons_ne_nil _ _) _
    simp only [List.mem_cons, List.not_mem_nil, or_false] at hd
    rcases hd with rfl | rfl | rfl | rfl
    · rfl
    · rfl
    · exact token_hexDigit _
    · exact token_hexDigit _
  · next hquote hbackslash _ _ _ _ _ _ =>
    have hstep : Reader.step ⟨.quoted .double, opened⟩ c = some ⟨.quoted .double, opened⟩ := by
      unfold Reader.step
      cases ht : token c with
      | quote mark =>
        cases mark with
        | single => rfl
        | double => exact absurd (eq_of_token_quote ht) hquote
      | backslash => exact absurd (eq_of_token_backslash ht) hbackslash
      | opening | closing | other => rfl
    rw [Reader.read, hstep]
    rfl

theorem read_quoteChars (cs : List Char) (opened : List Bracket) :
    Reader.read ⟨.code, opened⟩ (quoteChars cs) = some ⟨.code, opened⟩ := by
  have hbody : Reader.read ⟨.quoted .double, opened⟩ (cs.flatMap escapeChar) =
      some ⟨.quoted .double, opened⟩ := by
    induction cs with
    | nil => rfl
    | cons c cs ih => rw [List.flatMap_cons, Reader.read_append, read_escapeChar, Option.bind_some, ih]
  show Reader.read ⟨.quoted .double, opened⟩ (cs.flatMap escapeChar ++ ['"']) = _
  rw [Reader.read_append, hbody]
  rfl

theorem balanced_quote (s : String) : Balanced (quote s) := by
  unfold Text.Balanced Reads quote
  rw [String.toList_ofList, read_quoteChars]

/-! ## Values -/

mutual

theorem read_compactChars : ∀ (v : Json) (opened : List Bracket),
    Reader.read ⟨.code, opened⟩ (compactChars v) = some ⟨.code, opened⟩
  | .null, _ => rfl
  | .bool true, _ => rfl
  | .bool false, _ => rfl
  | .int n, opened => by
    rw [compactChars]
    exact Reader.read_code (inert_intChars n) opened
  | .real bits, opened => by
    rw [compactChars]
    exact Reader.read_code (inert_realChars bits) opened
  | .string s, opened => by
    rw [compactChars]
    exact read_quoteChars s.toList opened
  | .array [], _ => rfl
  | .array (x :: xs), opened => by
    rw [compactChars]
    show Reader.read ⟨.code, .square :: opened⟩ (compactChars x ++ itemsTail xs) = _
    rw [Reader.read_append, read_compactChars x, Option.bind_some, read_itemsTail xs]
  | .object [], _ => rfl
  | .object ((k, v) :: ms), opened => by
    rw [compactChars]
    show Reader.read ⟨.code, .curly :: opened⟩
      (quoteChars k.toList ++ ':' :: compactChars v ++ membersTail ms) = _
    rw [Reader.read_append, Reader.read_append, read_quoteChars, Option.bind_some]
    show ((Reader.read ⟨.code, .curly :: opened⟩ (compactChars v)).bind _) = _
    rw [read_compactChars v, Option.bind_some, read_membersTail ms]

theorem read_itemsTail : ∀ (xs : List Json) (opened : List Bracket),
    Reader.read ⟨.code, .square :: opened⟩ (itemsTail xs) = some ⟨.code, opened⟩
  | [], _ => rfl
  | x :: xs, opened => by
    rw [itemsTail]
    show Reader.read ⟨.code, .square :: opened⟩ (compactChars x ++ itemsTail xs) = _
    rw [Reader.read_append, read_compactChars x, Option.bind_some, read_itemsTail xs]

theorem read_membersTail : ∀ (ms : List (String × Json)) (opened : List Bracket),
    Reader.read ⟨.code, .curly :: opened⟩ (membersTail ms) = some ⟨.code, opened⟩
  | [], _ => rfl
  | (k, v) :: ms, opened => by
    rw [membersTail]
    show Reader.read ⟨.code, .curly :: opened⟩
      (quoteChars k.toList ++ ':' :: compactChars v ++ membersTail ms) = _
    rw [Reader.read_append, Reader.read_append, read_quoteChars, Option.bind_some]
    show ((Reader.read ⟨.code, .curly :: opened⟩ (compactChars v)).bind _) = _
    rw [read_compactChars v, Option.bind_some, read_membersTail ms]

end

theorem balanced_compact (v : Json) : Balanced v.compact := by
  unfold Text.Balanced Reads compact
  rw [String.toList_ofList, read_compactChars]

mutual

theorem balanced_spaced : ∀ v : Json, Balanced v.spaced
  | .array items => by
    rw [spaced]
    refine Reads.start "[" rfl |>.code (.intercalate (by decide) ?_) |>.fixed _ rfl
    exact balanced_of_mem_spacedItems items
  | .object members => by
    rw [spaced]
    refine Reads.start "\x7b" rfl |>.code (.intercalate (by decide) ?_) |>.fixed _ rfl
    exact balanced_of_mem_spacedMembers members
  | .null | .bool _ | .int _ | .real _ | .string _ => by
    rw [spaced]
    · exact balanced_compact _
    all_goals nofun

theorem balanced_of_mem_spacedItems : ∀ (xs : List Json), ∀ s ∈ spacedItems xs, Balanced s
  | [], s, hs => nomatch hs
  | x :: xs, s, hs => by
    rw [spacedItems, List.mem_cons] at hs
    rcases hs with rfl | hs
    · exact balanced_spaced x
    · exact balanced_of_mem_spacedItems xs s hs

theorem balanced_of_mem_spacedMembers : ∀ (ms : List (String × Json)), ∀ s ∈ spacedMembers ms, Balanced s
  | [], s, hs => nomatch hs
  | (k, v) :: ms, s, hs => by
    rw [spacedMembers, List.mem_cons] at hs
    rcases hs with rfl | hs
    · exact ((balanced_quote k).append (by decide)).append (balanced_spaced v)
    · exact balanced_of_mem_spacedMembers ms s hs

end

/-! ## Separators -/

theorem read_separatorChars (q : Reader) (c : Char) : q.read (separatorChars c) = q.step c := by
  unfold separatorChars
  split
  · next hc => subst hc; obtain ⟨_ | _ | _, _⟩ := q <;> rfl
  split
  · next hc => subst hc; obtain ⟨_ | _ | _, _⟩ := q <;> rfl
  · rw [Reader.read]
    rcases q.step c <;> rfl

theorem balanced_escapeSeparators {s : String} (h : Balanced s) : Balanced (escapeSeparators s) := by
  have hread (q : Reader) (cs : List Char) : q.read (cs.flatMap separatorChars) = q.read cs := by
    induction cs generalizing q with
    | nil => rfl
    | cons c cs ih =>
      rw [List.flatMap_cons, Reader.read_append, read_separatorChars, Reader.read]
      exact congrArg _ (funext fun q => ih q)
  unfold Text.Balanced Reads escapeSeparators at *
  rw [String.toList_ofList, hread, h]

end Json

end TemplateCompiler
