import TemplateCompiler.Json.Inspect
import TemplateCompiler.Proofs.Text.Alphabet

/-!
# The characters of JSON text

The text of a value is made of printable ASCII characters and of those characters of its strings and keys that
are not written as escapes. `forall_compactChars` and `forall_spaced` carry a property of these characters over
to the whole text.
-/

namespace TemplateCompiler.Json

open Text

/-! ## Numbers -/

/-- The characters that numbers are written with. -/
def isNumeral (c : Char) : Bool :=
  c.isDigit || ['+', '-', '.', 'e', 'i', 'n', 'f', 'a', 'I', 't', 'y'].contains c

theorem isNumeral_of_isDigit {c : Char} (h : c.isDigit = true) : isNumeral c = true := by
  rw [isNumeral, h, Bool.true_or]

theorem isNumeral_toDigits (n : Nat) : ∀ c ∈ Nat.toDigits 10 n, isNumeral c = true :=
  fun _ hc => isNumeral_of_isDigit (Nat.isDigit_of_mem_toDigits (by decide) (by decide) hc)

theorem isNumeral_intChars (n : Int) : ∀ c ∈ intChars n, isNumeral c = true := by
  cases n with
  | ofNat n => exact isNumeral_toDigits n
  | negSucc n => exact List.forall_mem_cons.mpr ⟨rfl, isNumeral_toDigits (n + 1)⟩

theorem isNumeral_layoutDigits (k : Nat) (p : Int) : ∀ c ∈ layoutDigits k p, isNumeral c = true := by
  have happend {as bs : List Char} (ha : ∀ c ∈ as, isNumeral c = true) (hb : ∀ c ∈ bs, isNumeral c = true) :
      ∀ c ∈ as ++ bs, isNumeral c = true :=
    List.forall_mem_append.mpr ⟨ha, hb⟩
  have hds := isNumeral_toDigits k
  have htake (n : Nat) : ∀ c ∈ (Nat.toDigits 10 k).take n, isNumeral c = true :=
    fun c hc => hds c (List.mem_of_mem_take hc)
  have hdrop (n : Nat) : ∀ c ∈ (Nat.toDigits 10 k).drop n, isNumeral c = true :=
    fun c hc => hds c (List.mem_of_mem_drop hc)
  have hzeros (n : Nat) : ∀ c ∈ List.replicate n '0', isNumeral c = true := by
    intro c hc
    rw [List.eq_of_mem_replicate hc]
    rfl
  unfold layoutDigits
  dsimp only
  split
  · split
    · exact happend (happend (by simp [isNumeral]) (hzeros _)) hds
    split
    · exact happend (happend (htake _) (by simp [isNumeral])) (hdrop _)
    · exact happend (happend hds (hzeros _)) (by simp [isNumeral])
  · refine happend (happend (happend (htake 1) ?_) ?_) ?_
    · split
      · simp
      · exact List.forall_mem_cons.mpr ⟨rfl, hdrop 1⟩
    · split <;> simp [isNumeral]
    · split
      · exact List.forall_mem_cons.mpr ⟨rfl, isNumeral_toDigits _⟩
      · exact isNumeral_toDigits _

theorem isNumeral_realText (bits : UInt64) : ∀ c ∈ (realText bits).toList, isNumeral c = true := by
  have hsign : ∀ c ∈ (if bits.toNat / Nat.pow 2 63 = 1 then ['-'] else []), isNumeral c = true := by
    split <;> simp [isNumeral]
  unfold realText
  dsimp only
  split
  · split
    · rw [String.toList_ofList]
      exact List.forall_mem_append.mpr ⟨hsign, by simp [isNumeral]⟩
    · simp [isNumeral]
  split
  · rw [String.toList_ofList]
    exact List.forall_mem_append.mpr ⟨hsign, by simp [isNumeral]⟩
  · rw [String.toList_ofList]
    exact List.forall_mem_append.mpr ⟨hsign, isNumeral_layoutDigits _ _⟩

theorem isNumeral_realChars (bits : UInt64) : ∀ c ∈ realChars bits, isNumeral c = true := by
  unfold realChars
  split
  · simp [isNumeral]
  · simp [isNumeral]
  · exact isNumeral_realText bits

/-! ## Printable characters -/

theorem isPrintable_of_isNumeral {c : Char} (h : isNumeral c = true) : isPrintable c = true := by
  rw [isNumeral, Bool.or_eq_true, List.contains_iff_mem] at h
  rcases h with h | h
  · delta Char.isDigit at h
    rw [Bool.and_eq_true, decide_eq_true_eq, decide_eq_true_eq] at h
    have hlow : 48 ≤ c.toNat := h.1
    have hhigh : c.toNat ≤ 57 := h.2
    simp only [isPrintable, Bool.and_eq_true, decide_eq_true_eq]
    omega
  · simp only [List.mem_cons, List.not_mem_nil, or_false] at h
    rcases h with rfl | rfl | rfl | rfl | rfl | rfl | rfl | rfl | rfl | rfl | rfl <;> rfl

theorem isPrintable_hexDigit (n : Nat) : isPrintable (hexDigit n) = true := by
  have hall : ∀ k < 16, isPrintable (Nat.digitChar k) = true := by decide
  exact hall _ (Nat.mod_lt n (by decide))

/-- A character stands for itself, or for an escape of printable characters. -/
theorem escapeChar_cases (c : Char) :
    escapeChar c = [c] ∧ 32 ≤ c.toNat ∨ ∀ d ∈ escapeChar c, isPrintable d = true := by
  unfold escapeChar
  iterate 7
    split
    · exact .inr (by simp [isPrintable])
  split
  · refine .inr fun d hd => ?_
    simp only [List.mem_cons, List.not_mem_nil, or_false] at hd
    rcases hd with rfl | rfl | rfl | rfl | rfl | rfl
    iterate 4 rfl
    · exact isPrintable_hexDigit _
    · exact isPrintable_hexDigit _
  · exact .inl ⟨rfl, by omega⟩

/-! ## Values -/

mutual

/-- The characters of the strings and keys of a value. -/
def letters : Json → List Char
  | .string s => s.toList
  | .array items => itemLetters items
  | .object members => memberLetters members
  | .null | .bool _ | .int _ | .real _ => []

def itemLetters : List Json → List Char
  | [] => []
  | x :: xs => letters x ++ itemLetters xs

def memberLetters : List (String × Json) → List Char
  | [] => []
  | (k, v) :: ms => k.toList ++ letters v ++ memberLetters ms

end

section

variable {P : Char → Prop} (hprintable : ∀ c, isPrintable c = true → P c)

include hprintable

theorem forall_quoteChars {cs : List Char} (h : ∀ c ∈ cs, 32 ≤ c.toNat → P c) : ∀ c ∈ quoteChars cs, P c := by
  have hbody : ∀ c ∈ cs.flatMap escapeChar, P c := by
    intro d hd
    obtain ⟨c, hc, hd⟩ := List.mem_flatMap.mp hd
    rcases escapeChar_cases c with ⟨hself, hlow⟩ | hescape
    · rw [hself, List.mem_singleton] at hd
      exact hd ▸ h c hc hlow
    · exact hprintable d (hescape d hd)
  have hmark : P '"' := hprintable _ (by decide)
  exact List.forall_mem_append.mpr ⟨List.forall_mem_cons.mpr ⟨hmark, hbody⟩, List.forall_mem_singleton.mpr hmark⟩

mutual

theorem forall_compactChars : ∀ v : Json, (∀ c ∈ v.letters, 32 ≤ c.toNat → P c) → ∀ c ∈ compactChars v, P c
  | .null, _ => by simp [compactChars, hprintable, isPrintable]
  | .bool true, _ => by simp [compactChars, hprintable, isPrintable]
  | .bool false, _ => by simp [compactChars, hprintable, isPrintable]
  | .int n, _ => fun c hc => by
    rw [compactChars] at hc
    exact hprintable c (isPrintable_of_isNumeral (isNumeral_intChars n c hc))
  | .real bits, _ => fun c hc => by
    rw [compactChars] at hc
    exact hprintable c (isPrintable_of_isNumeral (isNumeral_realChars bits c hc))
  | .string s, h => by
    rw [compactChars]
    exact forall_quoteChars hprintable (by simpa only [letters] using h)
  | .array [], _ => by simp [compactChars, hprintable, isPrintable]
  | .array (x :: xs), h => by
    rw [letters, itemLetters, List.forall_mem_append] at h
    rw [compactChars, List.forall_mem_append, List.forall_mem_cons]
    exact ⟨⟨hprintable _ (by decide), forall_compactChars x h.1⟩, forall_itemsTail xs h.2⟩
  | .object [], _ => by simp [compactChars, hprintable, isPrintable]
  | .object ((k, v) :: ms), h => by
    rw [letters, memberLetters, List.forall_mem_append, List.forall_mem_append] at h
    rw [compactChars]
    simp only [List.forall_mem_append, List.forall_mem_cons]
    exact ⟨⟨⟨hprintable _ (by decide), forall_quoteChars hprintable h.1.1⟩, hprintable _ (by decide),
      forall_compactChars v h.1.2⟩, forall_membersTail ms h.2⟩

theorem forall_itemsTail : ∀ xs : List Json, (∀ c ∈ itemLetters xs, 32 ≤ c.toNat → P c) → ∀ c ∈ itemsTail xs, P c
  | [], _ => by simp [itemsTail, hprintable, isPrintable]
  | x :: xs, h => by
    rw [itemLetters, List.forall_mem_append] at h
    rw [itemsTail, List.forall_mem_append, List.forall_mem_cons]
    exact ⟨⟨hprintable _ (by decide), forall_compactChars x h.1⟩, forall_itemsTail xs h.2⟩

theorem forall_membersTail : ∀ ms : List (String × Json), (∀ c ∈ memberLetters ms, 32 ≤ c.toNat → P c) →
    ∀ c ∈ membersTail ms, P c
  | [], _ => by simp [membersTail, hprintable, isPrintable]
  | (k, v) :: ms, h => by
    rw [memberLetters, List.forall_mem_append, List.forall_mem_append] at h
    rw [membersTail]
    simp only [List.forall_mem_append, List.forall_mem_cons]
    exact ⟨⟨⟨hprintable _ (by decide), forall_quoteChars hprintable h.1.1⟩, hprintable _ (by decide),
      forall_compactChars v h.1.2⟩, forall_membersTail ms h.2⟩

end

end

/-! ## Characters that need no escape -/

section

variable {c : Char}

theorem mem_quoteChars (hc : escapeChar c = [c]) {cs : List Char} (h : c ∈ cs) : c ∈ quoteChars cs := by
  have hbody : c ∈ cs.flatMap escapeChar := List.mem_flatMap.mpr ⟨c, h, hc ▸ List.mem_singleton_self c⟩
  exact List.mem_append_left _ (List.mem_cons_of_mem _ hbody)

mutual

/-- A character that needs no escape stands in the text of a value as it stands in its strings and keys. -/
theorem mem_compactChars (hc : escapeChar c = [c]) : ∀ v : Json, c ∈ v.letters → c ∈ compactChars v
  | .null, h | .bool _, h | .int _, h | .real _, h | .array [], h | .object [], h => by
    simp [letters, itemLetters, memberLetters] at h
  | .string s, h => by
    rw [letters] at h
    rw [compactChars]
    exact mem_quoteChars hc h
  | .array (x :: xs), h => by
    rw [letters, itemLetters, List.mem_append] at h
    rw [compactChars, List.mem_append, List.mem_cons]
    exact h.imp (fun h => .inr (mem_compactChars hc x h)) (mem_itemsTail hc xs)
  | .object ((k, v) :: ms), h => by
    rw [letters, memberLetters, List.mem_append, List.mem_append] at h
    rw [compactChars]
    simp only [List.mem_append, List.mem_cons]
    exact h.imp (Or.imp (fun h => .inr (mem_quoteChars hc h)) fun h => .inr (mem_compactChars hc v h))
      (mem_membersTail hc ms)

theorem mem_itemsTail (hc : escapeChar c = [c]) : ∀ xs : List Json, c ∈ itemLetters xs → c ∈ itemsTail xs
  | [], h => by simp [itemLetters] at h
  | x :: xs, h => by
    rw [itemLetters, List.mem_append] at h
    rw [itemsTail, List.mem_append, List.mem_cons]
    exact h.imp (fun h => .inr (mem_compactChars hc x h)) (mem_itemsTail hc xs)

theorem mem_membersTail (hc : escapeChar c = [c]) : ∀ ms : List (String × Json), c ∈ memberLetters ms →
    c ∈ membersTail ms
  | [], h => by simp [memberLetters] at h
  | (k, v) :: ms, h => by
    rw [memberLetters, List.mem_append, List.mem_append] at h
    rw [membersTail]
    simp only [List.mem_append, List.mem_cons]
    exact h.imp (Or.imp (fun h => .inr (mem_quoteChars hc h)) fun h => .inr (mem_compactChars hc v h))
      (mem_membersTail hc ms)

end

/-- The text of a value adds printable characters only. -/
theorem mem_compact_iff (hc : escapeChar c = [c]) (hp : isPrintable c = false) (v : Json) :
    c ∈ v.compact.toList ↔ c ∈ v.letters := by
  rw [compact, String.toList_ofList]
  refine ⟨fun h => ?_, mem_compactChars hc v⟩
  refine forall_compactChars (P := fun d => d = c → c ∈ v.letters) ?_ v ?_ c h rfl
  · rintro d hd rfl
    rw [hp] at hd
    cases hd
  · rintro d hd - rfl
    exact hd

end

/-! ## Texts of values -/

/-- Every character of the strings and keys of a value has `P`. -/
def Over (P : Char → Prop) (v : Json) : Prop :=
  ∀ c ∈ v.letters, P c

instance (P : Char → Prop) [DecidablePred P] (v : Json) : Decidable (v.Over P) :=
  List.decidableBAll P v.letters

section

variable {P : Char → Prop} {v : Json} {s : String}

instance [DecidablePred P] : Decidable (v.Over P) :=
  List.decidableBAll P v.letters

theorem over_string : (Json.string s).Over P ↔ Text.Over P s := by
  rw [Over, letters]
  rfl

variable (hP : Alphabet P)

include hP

theorem over_compact (h : v.Over P) : Text.Over P v.compact :=
  over_ofList.mpr (forall_compactChars hP.printable v fun c hc _ => h c hc)

theorem over_quote (h : Text.Over P s) : Text.Over P (quote s) :=
  over_ofList.mpr (forall_quoteChars hP.printable fun c hc _ => h c hc)

theorem over_escapeSeparators (h : Text.Over P s) : Text.Over P (escapeSeparators s) := by
  refine over_ofList.mpr fun d hd => ?_
  obtain ⟨c, hc, hd⟩ := List.mem_flatMap.mp hd
  have hnumber (cs : List Char) (hcs : cs.all isPrintable = true) (hd : d ∈ cs) : P d :=
    hP.printable d (List.all_eq_true.mp hcs d hd)
  unfold separatorChars at hd
  split at hd
  · exact hnumber _ (by decide) hd
  split at hd
  · exact hnumber _ (by decide) hd
  · exact List.mem_singleton.mp hd ▸ h c hc

theorem over_numeral {cs : List Char} (h : ∀ c ∈ cs, isNumeral c = true) : Text.Over P (String.ofList cs) :=
  over_ofList.mpr fun c hc => hP.printable c (isPrintable_of_isNumeral (h c hc))

theorem over_toString_nat (n : Nat) : Text.Over P (toString n) := by
  rw [show toString n = n.repr from rfl, ← String.ofList_toList (s := n.repr), Nat.toList_repr]
  exact over_numeral hP (isNumeral_toDigits n)

theorem over_toString_int (n : Int) : Text.Over P (toString n) := by
  cases n with
  | ofNat n => exact over_toString_nat hP n
  | negSucc n => exact over_append.mpr ⟨hP.fixed rfl, over_toString_nat hP (n + 1)⟩

theorem over_inspectString (h : Text.Over P s) : Text.Over P (inspectString s) := by
  have hprintable {c : Char} (hc : isPrintable c = true) : P c := hP.printable c hc
  have hhex (width n : Nat) : ∀ c ∈ hexDigits width n, P c := by
    induction width generalizing n with
    | zero => exact List.forall_mem_nil P
    | succ width ih =>
      rw [hexDigits, List.forall_mem_append, List.forall_mem_singleton]
      exact ⟨ih _, hprintable (isPrintable_hexDigit n)⟩
  have hescape (d : Char) (cs : List Char) (hd : isPrintable d = true) (hcs : ∀ c ∈ cs, P c) :
      ∀ c ∈ '\\' :: d :: cs, P c :=
    List.forall_mem_cons.mpr ⟨hprintable (by decide), List.forall_mem_cons.mpr ⟨hprintable hd, hcs⟩⟩
  have hchar (mark c : Char) (hc : P c) : ∀ d ∈ shownChar mark c, P d := by
    unfold shownChar
    split
    · exact List.forall_mem_cons.mpr ⟨hprintable (by decide), List.forall_mem_singleton.mpr hc⟩
    iterate 3
      split
      · exact hescape _ [] rfl (List.forall_mem_nil P)
    split
    · split
      · exact hescape _ _ rfl (hhex 2 _)
      split
      · exact hescape _ _ rfl (hhex 4 _)
      · exact hescape _ _ rfl (hhex 8 _)
    · exact List.forall_mem_singleton.mpr hc
  have hmark : P (quoteMark s.toList) := by
    unfold quoteMark
    split <;> exact hprintable (by decide)
  refine over_ofList.mpr (List.forall_mem_append.mpr ⟨List.forall_mem_cons.mpr ⟨hmark, fun d hd => ?_⟩,
    List.forall_mem_singleton.mpr hmark⟩)
  obtain ⟨c, hc, hd⟩ := List.mem_flatMap.mp hd
  exact hchar _ c (h c hc) d hd

end

section

variable {P : Char → Prop}

mutual

theorem over_inspect (hP : Alphabet P) : ∀ v : Json, v.Over P → Text.Over P v.inspect
  | .null, _ => hP.fixed rfl
  | .bool true, _ => hP.fixed rfl
  | .bool false, _ => hP.fixed rfl
  | .int n, _ => over_numeral hP (isNumeral_intChars n)
  | .real bits, _ => fun c hc => hP.printable c (isPrintable_of_isNumeral (isNumeral_realText bits c hc))
  | .string s, h => over_inspectString hP (over_string.mp h)
  | .array items, h => by
    rw [inspect, over_append, over_append]
    exact ⟨⟨hP.fixed rfl, over_intercalate (hP.fixed rfl) (over_inspectItems hP items h)⟩, hP.fixed rfl⟩
  | .object members, h => by
    rw [inspect, over_append, over_append]
    exact ⟨⟨hP.fixed rfl, over_intercalate (hP.fixed rfl) (over_inspectMembers hP members h)⟩, hP.fixed rfl⟩

theorem over_inspectItems (hP : Alphabet P) : ∀ xs : List Json, (∀ c ∈ itemLetters xs, P c) →
    ∀ s ∈ inspectItems xs, Text.Over P s
  | [], _ => List.forall_mem_nil _
  | x :: xs, h => by
    rw [itemLetters, List.forall_mem_append] at h
    rw [inspectItems, List.forall_mem_cons]
    exact ⟨over_inspect hP x h.1, over_inspectItems hP xs h.2⟩

theorem over_inspectMembers (hP : Alphabet P) : ∀ ms : List (String × Json), (∀ c ∈ memberLetters ms, P c) →
    ∀ s ∈ inspectMembers ms, Text.Over P s
  | [], _ => List.forall_mem_nil _
  | (k, v) :: ms, h => by
    rw [memberLetters, List.forall_mem_append, List.forall_mem_append] at h
    rw [inspectMembers, List.forall_mem_cons, over_append, over_append]
    exact ⟨⟨⟨over_inspectString hP h.1.1, hP.fixed rfl⟩, over_inspect hP v h.1.2⟩, over_inspectMembers hP ms h.2⟩

end

mutual

theorem over_spaced (hP : Alphabet P) : ∀ v : Json, v.Over P → Text.Over P v.spaced
  | .array items, h => by
    rw [spaced, over_append, over_append]
    exact ⟨⟨hP.fixed rfl, over_intercalate (hP.fixed rfl) (over_spacedItems hP items h)⟩, hP.fixed rfl⟩
  | .object members, h => by
    rw [spaced, over_append, over_append]
    exact ⟨⟨hP.fixed rfl, over_intercalate (hP.fixed rfl) (over_spacedMembers hP members h)⟩, hP.fixed rfl⟩
  | .null, h | .bool _, h | .int _, h | .real _, h | .string _, h => by
    rw [spaced]
    · exact over_compact hP h
    all_goals nofun

theorem over_spacedItems (hP : Alphabet P) : ∀ xs : List Json, (∀ c ∈ itemLetters xs, P c) →
    ∀ s ∈ spacedItems xs, Text.Over P s
  | [], _ => List.forall_mem_nil _
  | x :: xs, h => by
    rw [itemLetters, List.forall_mem_append] at h
    rw [spacedItems, List.forall_mem_cons]
    exact ⟨over_spaced hP x h.1, over_spacedItems hP xs h.2⟩

theorem over_spacedMembers (hP : Alphabet P) : ∀ ms : List (String × Json), (∀ c ∈ memberLetters ms, P c) →
    ∀ s ∈ spacedMembers ms, Text.Over P s
  | [], _ => List.forall_mem_nil _
  | (k, v) :: ms, h => by
    rw [memberLetters, List.forall_mem_append, List.forall_mem_append] at h
    rw [spacedMembers, List.forall_mem_cons, over_append, over_append]
    exact ⟨⟨⟨over_quote hP h.1.1, hP.fixed rfl⟩, over_spaced hP v h.1.2⟩, over_spacedMembers hP ms h.2⟩

end

variable {v : Json} {s : String} (hP : Alphabet P)

include hP

/-- What code shows of a value. -/
theorem Over.shown (h : v.Over P) : Text.Over P v.shown := by
  unfold Json.shown
  split
  · exact over_string.mp h
  · exact over_inspect hP v h

theorem Over.of_filled? (h : v.Over P) (hs : v.filled? = some s) : Text.Over P s := by
  unfold filled? at hs
  split at hs <;> cases hs
  exact h.shown hP

theorem Over.filledOr (h : v.Over P) {fallback : String} (hf : Text.Over P fallback) :
    Text.Over P (v.filled?.getD fallback) := by
  rcases hv : v.filled? with _ | s
  · exact hf
  · exact h.of_filled? hP hv

theorem Over.filledMap (h : v.Over P) {f : String → String} (hf : ∀ s, Text.Over P s → Text.Over P (f s)) :
    Text.Over P ((v.filled?.map f).getD "") := by
  rcases hv : v.filled? with _ | s
  · exact over_empty
  · exact hf s (h.of_filled? hP hv)

end

end TemplateCompiler.Json
