import TemplateCompiler.Proofs.Json.RoundTrip
import TemplateCompiler.Tree.Loader

/-!
# Reading paths

The path of a fault is reported as a text. `Path.read?` reads such texts: a step at a time, and in the name of a slot a
character at a time, with its escapes. It finds the path that was written (`Path.read?_text`), so a text has no second
reading.
-/

namespace TemplateCompiler

/-- A text is at least as long as what it spells, if nothing is spelled by nothing. -/
theorem Text.length_le_flatMap {α : Type} {spell : α → List Char} (h : ∀ a, spell a ≠ []) (xs : List α) :
    xs.length ≤ (xs.flatMap spell).length := by
  induction xs with
  | nil => exact Nat.le_refl 0
  | cons x xs ih =>
    have := List.length_pos_iff.mpr (h x)
    rw [List.flatMap_cons, List.length_append, List.length_cons]
    omega

/-! ## Shown texts -/

namespace Json

/-- The number that digits of base sixteen stand for. -/
def hexNumber? (cs : List Char) : Option Nat :=
  cs.foldlM (fun n c => (hexValue? c).map (n * 16 + ·)) 0

/-- The digits of a number that they are enough for. -/
theorem hexNumber?_hexDigits {width n : Nat} (h : n < Nat.pow 16 width) : hexNumber? (hexDigits width n) = some n := by
  induction width generalizing n with
  | zero =>
    have hzero : n = 0 := by simpa using h
    rw [hzero]
    rfl
  | succ width ih =>
    have hdiv : n / 16 < Nat.pow 16 width := Nat.div_lt_of_lt_mul (by rwa [Nat.mul_comm])
    have hfold : hexNumber? (hexDigits (width + 1) n) =
        (hexNumber? (hexDigits width (n / 16))).bind fun m => (hexValue? (hexDigit n)).map (m * 16 + ·) := by
      rw [hexNumber?, hexDigits, List.foldlM_append]
      refine congrArg (Option.bind _) (funext fun m => ?_)
      rw [List.foldlM_cons]
      exact bind_pure _
    rw [hfold, ih hdiv, hexValue?_hexDigit, Option.bind_some, Option.map_some, Nat.div_add_mod']

theorem length_hexDigits (width n : Nat) : (hexDigits width n).length = width := by
  induction width generalizing n with
  | zero => rfl
  | succ width ih => rw [hexDigits, List.length_append, ih]; rfl

/-- A character that is written by number. -/
def numbered? (width : Nat) (cs : List Char) : Option (Char × List Char) :=
  (hexNumber? (cs.take width)).map fun n => (Char.ofNat n, cs.drop width)

/-- The first character of a shown text, and what follows it. -/
def shown? : List Char → Option (Char × List Char)
  | '\\' :: 'n' :: rest => some ('\n', rest)
  | '\\' :: 'r' :: rest => some ('\r', rest)
  | '\\' :: 't' :: rest => some ('\t', rest)
  | '\\' :: 'x' :: rest => numbered? 2 rest
  | '\\' :: 'u' :: rest => numbered? 4 rest
  | '\\' :: 'U' :: rest => numbered? 8 rest
  | '\\' :: c :: rest => some (c, rest)
  | c :: rest => some (c, rest)
  | [] => none

theorem numbered?_hexDigits {width : Nat} {c : Char} (h : hexNumber? (hexDigits width c.toNat) = some c.toNat)
    (rest : List Char) : numbered? width (hexDigits width c.toNat ++ rest) = some (c, rest) := by
  have hlength := length_hexDigits width c.toNat
  rw [numbered?, List.take_left' hlength, List.drop_left' hlength, h, Option.map_some, Char.ofNat_toNat]

/-- The marks that a shown text can stand in. -/
def IsMark (mark : Char) : Prop :=
  mark = '\'' ∨ mark = '"'

theorem isMark_quoteMark (cs : List Char) : IsMark (quoteMark cs) := by
  unfold quoteMark
  split
  · exact .inr rfl
  · exact .inl rfl

variable {mark : Char}

/-- A shown character is read back. -/
theorem shown?_shownChar (hmark : IsMark mark) (c : Char) (rest : List Char) :
    shown? (shownChar mark c ++ rest) = some (c, rest) := by
  unfold shownChar
  split
  · next h =>
    rcases h with rfl | rfl
    · rcases hmark with rfl | rfl <;> rfl
    · rfl
  iterate 3
    split
    · next h => subst h; rfl
  split
  · have hvalid : c.toNat < 0x110000 := by
      have h := c.valid
      simp only [UInt32.isValidChar, Nat.isValidChar] at h
      show c.val.toNat < _
      omega
    split
    · exact numbered?_hexDigits (hexNumber?_hexDigits (by simpa using ‹c.toNat < 0x100›)) rest
    split
    · exact numbered?_hexDigits (hexNumber?_hexDigits (by simpa using ‹c.toNat < 0x10000›)) rest
    · exact numbered?_hexDigits (hexNumber?_hexDigits (by simp; omega)) rest
  · next hmark _ _ _ _ =>
    have hc : c ≠ '\\' := fun h => hmark (.inr h)
    unfold shown?
    split <;> simp_all

/-- A shown character does not begin with the mark. -/
theorem head?_shownChar (hmark : IsMark mark) (c : Char) : ∃ x rest, shownChar mark c = x :: rest ∧ x ≠ mark := by
  have hslash : '\\' ≠ mark := by rcases hmark with rfl | rfl <;> decide
  unfold shownChar
  split
  · exact ⟨_, _, rfl, hslash⟩
  iterate 3
    split
    · exact ⟨_, _, rfl, hslash⟩
  split
  · split
    · exact ⟨_, _, rfl, hslash⟩
    split
    · exact ⟨_, _, rfl, hslash⟩
    · exact ⟨_, _, rfl, hslash⟩
  · next h _ _ _ _ => exact ⟨_, _, rfl, fun hc => h (.inl hc)⟩

/-- A shown text up to the mark that ends it, and what follows. It takes at most `fuel` characters, with the mark. -/
def shownBody? (mark : Char) : Nat → List Char → Option (List Char × List Char)
  | fuel + 1, c :: cs =>
    if c = mark then some ([], cs)
    else
      (shown? (c :: cs)).bind fun x =>
        (shownBody? mark fuel x.2).map fun body => (x.1 :: body.1, body.2)
  | _, _ => none

theorem shownBody?_flatMap (hmark : IsMark mark) (cs rest : List Char) {n : Nat} (hn : cs.length < n) :
    shownBody? mark n (cs.flatMap (shownChar mark) ++ mark :: rest) = some (cs, rest) := by
  obtain ⟨n, rfl⟩ : ∃ k, n = k + 1 := ⟨n - 1, by omega⟩
  induction cs generalizing n with
  | nil => rw [List.flatMap_nil, List.nil_append, shownBody?, if_pos rfl]
  | cons c cs ih =>
    rw [List.length_cons] at hn
    obtain ⟨n, rfl⟩ : ∃ k, n = k + 1 := ⟨n - 1, by omega⟩
    obtain ⟨x, tail, hshown, hx⟩ := head?_shownChar hmark c
    have hread := shown?_shownChar hmark c (cs.flatMap (shownChar mark) ++ mark :: rest)
    rw [List.flatMap_cons, List.append_assoc]
    rw [hshown, List.cons_append] at hread ⊢
    rw [shownBody?, if_neg hx, hread, Option.bind_some, ih n (by omega)]
    rfl

end Json

/-! ## Paths -/

/-- What follows a word. -/
def Text.after? (word cs : List Char) : Option (List Char) :=
  if word.isPrefixOf cs then some (cs.drop word.length) else none

theorem Text.after?_append (word cs : List Char) : Text.after? word (word ++ cs) = some cs := by
  rw [Text.after?, if_pos (List.isPrefixOf_iff_prefix.mpr (List.prefix_append word cs)), List.drop_left]

namespace PathStep

/-- The end of a step with a number. -/
def index? (make : Nat → PathStep) (cs : List Char) : Option (PathStep × List Char) :=
  match Json.afterDigits cs with
  | ']' :: rest => some (make (Json.natOfDigits (Json.digitsOf cs)), rest)
  | _ => none

/-- The end of a step with a name. -/
def name? : List Char → Option (PathStep × List Char)
  | [] => none
  | mark :: cs =>
    match Json.shownBody? mark cs.length cs with
    | some (name, ']' :: rest) => some (.slot (String.ofList name), rest)
    | _ => none

/-- The first step of a text, and what follows it. -/
def read? (cs : List Char) : Option (PathStep × List Char) :=
  ((Text.after? ".children[".toList cs).bind (index? .child)).or <|
    ((Text.after? ".scopedSlots[".toList cs).bind name?).or <|
      ((Text.after? ".ifConditions[".toList cs).bind (index? .condition)).or <|
        ((Text.after? ".directives".toList cs).map fun rest => (.directives, rest)).or <|
          (Text.after? ".model".toList cs).map fun rest => (.model, rest)

theorem index?_toString (make : Nat → PathStep) (i : Nat) (rest : List Char) :
    index? make ((toString i).toList ++ ']' :: rest) = some (make i, rest) := by
  have hdigits : (toString i).toList = Nat.toDigits 10 i := by
    show (Nat.repr i).toList = _
    rw [Nat.repr_eq_ofList_toDigits, String.toList_ofList]
  have hstops : Json.Stops (']' :: rest) := .inr (.inl rfl)
  obtain ⟨hread, hrest⟩ := Json.digitsOf_append (Json.isDigit_toDigits i) hstops
  rw [hdigits, index?, hrest, hread, Json.natOfDigits, Nat.ofDigitChars_toDigits (by decide) (by decide)]
  rfl

theorem name?_inspectString (name : String) (rest : List Char) :
    name? ((Json.inspectString name).toList ++ ']' :: rest) = some (.slot name, rest) := by
  have hne (c : Char) : Json.shownChar (Json.quoteMark name.toList) c ≠ [] := by
    obtain ⟨x, tail, hshown, -⟩ := Json.head?_shownChar (Json.isMark_quoteMark name.toList) c
    rw [hshown]
    exact List.cons_ne_nil _ _
  have hlength := Text.length_le_flatMap hne name.toList
  have hbody := Json.shownBody?_flatMap (Json.isMark_quoteMark name.toList) name.toList (']' :: rest)
    (n := (name.toList.flatMap (Json.shownChar (Json.quoteMark name.toList)) ++
      Json.quoteMark name.toList :: ']' :: rest).length) (by rw [List.length_append, List.length_cons]; omega)
  rw [Json.inspectString, String.toList_ofList, List.append_assoc, List.cons_append, name?]
  simp only [List.singleton_append, hbody, String.ofList_toList]

theorem toList_bracketed (word body : String) (rest : List Char) :
    (word ++ body ++ "]").toList ++ rest = word.toList ++ (body.toList ++ ']' :: rest) := by
  rw [String.toList_append, String.toList_append, List.append_assoc, List.append_assoc]
  rfl

theorem read?_text (step : PathStep) (rest : List Char) : read? (step.text.toList ++ rest) = some (step, rest) := by
  cases step with
  | child i =>
    show read? ((".children[" ++ toString i ++ "]").toList ++ rest) = _
    rw [toList_bracketed, read?, Text.after?_append ".children[".toList, Option.bind_some, index?_toString]
    rfl
  | slot name =>
    show read? ((".scopedSlots[" ++ Json.inspectString name ++ "]").toList ++ rest) = _
    rw [toList_bracketed, read?, Text.after?_append ".scopedSlots[".toList, Option.bind_some, name?_inspectString]
    rfl
  | condition i =>
    show read? ((".ifConditions[" ++ toString i ++ "]").toList ++ rest) = _
    rw [toList_bracketed, read?, Text.after?_append ".ifConditions[".toList, Option.bind_some, index?_toString]
    rfl
  | directives => rfl
  | model => rfl

theorem text_ne_nil (step : PathStep) : step.text.toList ≠ [] := by
  intro h
  have hread := read?_text step []
  have hnone : read? [] = none := rfl
  rw [h, List.nil_append, hnone] at hread
  cases hread

end PathStep

namespace Path

/-- The steps of a text, at most `fuel` of them. -/
def steps? : Nat → List Char → Option Path
  | _, [] => some []
  | fuel + 1, cs => (PathStep.read? cs).bind fun step => (steps? fuel step.2).map (step.1 :: ·)
  | 0, _ => none

/-- The path that a text stands for. -/
def read? (text : String) : Option Path :=
  (Text.after? ['$'] text.toList).bind fun cs => steps? cs.length cs

theorem steps?_flatMap (path : Path) {n : Nat} (hn : path.length ≤ n) :
    steps? n (path.flatMap fun step => step.text.toList) = some path := by
  induction path generalizing n with
  | nil => cases n <;> rfl
  | cons step path ih =>
    rw [List.length_cons] at hn
    obtain ⟨n, rfl⟩ : ∃ k, n = k + 1 := ⟨n - 1, by omega⟩
    rw [List.flatMap_cons, steps?, PathStep.read?_text, Option.bind_some, ih (by omega), Option.map_some]
    intro h
    exact step.text_ne_nil (List.append_eq_nil_iff.mp h).1

/-- The path that is read is the one that was written. -/
theorem read?_text (path : Path) : read? path.text = some path := by
  have htext : path.text.toList = ['$'] ++ path.flatMap fun step => step.text.toList := by
    rw [Path.text, String.toList_append, String.toList_join, List.flatMap_map]
    rfl
  have hlength : path.length ≤ (path.flatMap fun step => step.text.toList).length :=
    Text.length_le_flatMap PathStep.text_ne_nil path
  rw [read?, htext, Text.after?_append, Option.bind_some, steps?_flatMap path hlength]

end Path

end TemplateCompiler
