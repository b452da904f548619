import Mathlib.Data.Int.Bitwise
import TemplateCompiler.Text.Units

/-!
# The hash of slot contents

The runtime hashes a text with signed 32-bit integers that wrap at every step, and reads only the result as
unsigned. `runtimeHash` is this computation on integers, and `pointsHash?_eq_runtimeHash` says that the compiler, with
unsigned words throughout, comes to the same result if the text can be encoded. The two agree because a step depends
on the hash before it only modulo `2 ^ 32` (`ofInt_runtimeStep`).

Both start from the UTF-16 code units of the text, which are fixed by how they are read (`encode?_eq_some_iff`). Where
half of a surrogate pair stands alone, the runtime takes it as a unit like any other, and the compiler has no hash.

A step can be undone if the unit is known, since 33 is odd. So texts of equally many units that differ in one of them
have different hashes (`hashUnits_ne`).
-/

namespace TemplateCompiler.Text

/-! ## Reading code units -/

/-- The character that a high and a low surrogate spell. -/
def pairChar (high low : UInt16) : Char :=
  Char.ofNat (0x10000 + (high.toNat - 0xD800) * 0x400 + (low.toNat - 0xDC00))

/-- The characters that code units spell, if every surrogate among them belongs to a pair. -/
def decode? : List UInt16 → Option (List Char)
  | [] => some []
  | u :: rest =>
    if u.toNat < 0xD800 ∨ 0xE000 ≤ u.toNat then (decode? rest).map (Char.ofNat u.toNat :: ·)
    else match rest with
      | [] => none
      | v :: rest =>
        if u.toNat < 0xDC00 ∧ 0xDC00 ≤ v.toNat ∧ v.toNat < 0xE000 then
          (decode? rest).map (pairChar u v :: ·)
        else none

theorem toNat_ofNat {n : Nat} (h : n < 0xD800 ∨ 0xE000 ≤ n ∧ n < 0x110000) : (Char.ofNat n).toNat = n := by
  have hvalid : n.isValidChar := by
    unfold Nat.isValidChar
    omega
  rw [Char.ofNat, dif_pos hvalid]
  rfl

theorem toNat_cases (c : Char) : c.toNat < 0xD800 ∨ 0xE000 ≤ c.toNat ∧ c.toNat < 0x110000 := by
  have hvalid : c.toNat.isValidChar := c.valid
  unfold Nat.isValidChar at hvalid
  omega

theorem toNat_toUInt16 {n : Nat} (h : n < 0x10000) : n.toUInt16.toNat = n :=
  UInt16.toNat_ofNat'.trans (Nat.mod_eq_of_lt h)

theorem decode?_cons {u : UInt16} (hu : u.toNat < 0xD800 ∨ 0xE000 ≤ u.toNat) (us : List UInt16) :
    decode? (u :: us) = (decode? us).map (Char.ofNat u.toNat :: ·) := by
  rw [decode?.eq_def]
  exact if_pos hu

theorem decode?_cons_cons {u v : UInt16} (hu : 0xD800 ≤ u.toNat ∧ u.toNat < 0xDC00)
    (hv : 0xDC00 ≤ v.toNat ∧ v.toNat < 0xE000) (us : List UInt16) :
    decode? (u :: v :: us) = (decode? us).map (pairChar u v :: ·) := by
  rw [decode?, if_neg (by omega), if_pos ⟨hu.2, hv⟩]

theorem decode?_charUnits_append (c : Char) (us : List UInt16) :
    decode? (charUnits c ++ us) = (decode? us).map (c :: ·) := by
  have hc := toNat_cases c
  unfold charUnits pointUnits
  split
  · next hbasic =>
    have hunit : c.toNat.toUInt16.toNat = c.toNat := toNat_toUInt16 hbasic
    rw [List.singleton_append, decode?_cons (by omega), hunit, Char.ofNat_toNat]
  · next hastral =>
    have hhigh : (0xD800 + (c.toNat - 0x10000) / 0x400).toUInt16.toNat = 0xD800 + (c.toNat - 0x10000) / 0x400 :=
      toNat_toUInt16 (by omega)
    have hlow : (0xDC00 + (c.toNat - 0x10000) % 0x400).toUInt16.toNat = 0xDC00 + (c.toNat - 0x10000) % 0x400 :=
      toNat_toUInt16 (by omega)
    have hpoint : 0x10000 + (0xD800 + (c.toNat - 0x10000) / 0x400 - 0xD800) * 0x400 +
        (0xDC00 + (c.toNat - 0x10000) % 0x400 - 0xDC00) = c.toNat := by
      omega
    rw [List.cons_append, List.singleton_append, decode?_cons_cons (by omega) (by omega), pairChar, hhigh, hlow,
      hpoint, Char.ofNat_toNat]

theorem decode?_flatMap_charUnits (cs : List Char) : decode? (cs.flatMap charUnits) = some cs := by
  induction cs with
  | nil => rfl
  | cons c cs ih => rw [List.flatMap_cons, decode?_charUnits_append, ih, Option.map_some]

theorem charUnits_ofNat {u : UInt16} (h : u.toNat < 0xD800 ∨ 0xE000 ≤ u.toNat) :
    charUnits (Char.ofNat u.toNat) = [u] := by
  have hu : u.toNat < 0x10000 := u.toNat_lt
  rw [charUnits, toNat_ofNat (by omega), pointUnits, if_pos hu]
  exact congrArg (fun v => [v]) UInt16.ofNat_toNat

theorem charUnits_pairChar {u v : UInt16} (hu : 0xD800 ≤ u.toNat ∧ u.toNat < 0xDC00)
    (hv : 0xDC00 ≤ v.toNat ∧ v.toNat < 0xE000) : charUnits (pairChar u v) = [u, v] := by
  have hhigh : 0xD800 + (0x10000 + (u.toNat - 0xD800) * 0x400 + (v.toNat - 0xDC00) - 0x10000) / 0x400 = u.toNat := by
    omega
  have hlow : 0xDC00 + (0x10000 + (u.toNat - 0xD800) * 0x400 + (v.toNat - 0xDC00) - 0x10000) % 0x400 = v.toNat := by
    omega
  rw [charUnits, pairChar, toNat_ofNat (by omega), pointUnits, if_neg (by omega), hhigh, hlow]
  exact congrArg₂ (fun a b => [a, b]) UInt16.ofNat_toNat UInt16.ofNat_toNat

theorem eq_flatMap_of_decode? {us : List UInt16} {cs : List Char} (h : decode? us = some cs) :
    us = cs.flatMap charUnits := by
  induction us using decode?.induct generalizing cs with
  | case1 =>
    obtain rfl := Option.some.inj h
    rfl
  | case2 u rest hu ih =>
    rw [decode?_cons hu] at h
    obtain ⟨ds, hds, rfl⟩ := Option.map_eq_some_iff.mp h
    rw [List.flatMap_cons, charUnits_ofNat hu, List.singleton_append, ← ih hds]
  | case3 u hu => simp [decode?, hu] at h
  | case4 u hu v rest huv ih =>
    have hu' : 0xD800 ≤ u.toNat ∧ u.toNat < 0xDC00 := by omega
    rw [decode?_cons_cons hu' huv.2] at h
    obtain ⟨ds, hds, rfl⟩ := Option.map_eq_some_iff.mp h
    rw [List.flatMap_cons, charUnits_pairChar hu' huv.2, ← ih hds]
    rfl
  | case5 u hu v rest huv => simp [decode?, hu, huv] at h

/-- The units of characters are the only ones that spell them. -/
theorem decode?_eq_some_iff {us : List UInt16} {cs : List Char} : decode? us = some cs ↔ us = cs.flatMap charUnits :=
  ⟨eq_flatMap_of_decode?, fun h => h ▸ decode?_flatMap_charUnits cs⟩

/-! ## Code points -/

/-- The code point of a character. -/
def charPoint (c : Char) : CodePoint :=
  ⟨c.toNat, (toNat_cases c).elim (Nat.lt_trans · (by decide)) And.right⟩

/-- The code points of a text. -/
def points (s : String) : List CodePoint :=
  s.toList.map charPoint

theorem isSurrogate_eq_false_iff {p : CodePoint} : p.isSurrogate = false ↔ ∃ c, charPoint c = p := by
  rw [CodePoint.isSurrogate, Bool.and_eq_false_iff, decide_eq_false_iff_not, decide_eq_false_iff_not]
  constructor
  · intro h
    exact ⟨Char.ofNat p.val, Fin.ext (toNat_ofNat (by omega))⟩
  · rintro ⟨c, rfl⟩
    have hc := toNat_cases c
    simp only [charPoint]
    omega

/-- Text without surrogates is text of characters. -/
theorem any_isSurrogate_eq_false_iff {ps : List CodePoint} :
    ps.any CodePoint.isSurrogate = false ↔ ∃ cs : List Char, cs.map charPoint = ps := by
  induction ps with
  | nil => simp
  | cons p ps ih =>
    rw [List.any_cons, Bool.or_eq_false_iff, isSurrogate_eq_false_iff, ih]
    constructor
    · rintro ⟨⟨c, rfl⟩, cs, rfl⟩
      exact ⟨c :: cs, rfl⟩
    · rintro ⟨cs, hcs⟩
      obtain ⟨c, cs', rfl, hc, hcs'⟩ := List.map_eq_cons_iff.mp hcs
      exact ⟨⟨c, hc⟩, cs', hcs'⟩

theorem unitsOf_map_charPoint (cs : List Char) : unitsOf (cs.map charPoint) = cs.flatMap charUnits := by
  rw [unitsOf, List.flatMap_map]
  rfl

theorem encode?_map_charPoint (cs : List Char) : encode? (cs.map charPoint) = some (cs.flatMap charUnits) := by
  rw [encode?, any_isSurrogate_eq_false_iff.mpr ⟨cs, rfl⟩, if_neg Bool.false_ne_true, unitsOf_map_charPoint]

/-- The encoding of text is what a reader finds the text in. -/
theorem encode?_eq_some_iff {ps : List CodePoint} {us : List UInt16} :
    encode? ps = some us ↔ (decode? us).map (List.map charPoint) = some ps := by
  rw [Option.map_eq_some_iff]
  constructor
  · intro h
    obtain ⟨hany, rfl⟩ : ps.any CodePoint.isSurrogate = false ∧ unitsOf ps = us := by
      simpa [encode?] using h
    obtain ⟨cs, rfl⟩ := any_isSurrogate_eq_false_iff.mp hany
    exact ⟨cs, decode?_eq_some_iff.mpr (unitsOf_map_charPoint cs), rfl⟩
  · rintro ⟨cs, hcs, rfl⟩
    rw [encode?_map_charPoint, decode?_eq_some_iff.mp hcs]

/-! ## The runtime -/

/-- The signed 32-bit integer that is congruent to `x`. -/
def toInt32 (x : Int) : Int :=
  x.bmod 0x100000000

/-- The unsigned 32-bit integer that is congruent to `x`. -/
def toUint32 (x : Int) : Int :=
  x % 0x100000000

/-- A step of the runtime: the product is wrapped, then the bits of the unit are mixed into its two's complement. -/
def runtimeStep (h : Int) (u : UInt16) : Int :=
  Int.xor (toInt32 (h * 33)) u.toNat

/-- The hash as the runtime has it before it is read as unsigned: the units are taken from the last to the first. -/
def runtimeHash (us : List UInt16) : Int :=
  us.reverse.foldl runtimeStep 5381

/-- Whether `x` fits into a signed 32-bit word. -/
def IsInt32 (x : Int) : Prop :=
  -0x80000000 ≤ x ∧ x < 0x80000000

theorem runtimeHash_cons (u : UInt16) (us : List UInt16) :
    runtimeHash (u :: us) = runtimeStep (runtimeHash us) u := by
  rw [runtimeHash, List.reverse_cons, List.foldl_append]
  rfl

theorem isInt32_toInt32 (x : Int) : IsInt32 (toInt32 x) :=
  ⟨Int.le_bmod (by decide), Int.bmod_lt (by decide)⟩

/-- The low half of a word can be changed without leaving the range. -/
theorem IsInt32.xor {x : Int} (h : IsInt32 x) (u : UInt16) : IsInt32 (Int.xor x u.toNat) := by
  have hu : u.toNat < 0x80000000 := Nat.lt_trans u.toNat_lt (by decide)
  unfold IsInt32 at h ⊢
  cases x with
  | ofNat m =>
    rw [Int.ofNat_eq_natCast] at h
    have hxor : m ^^^ u.toNat < 0x80000000 := Nat.xor_lt_two_pow (n := 31) (by omega) hu
    show _ ≤ ((m ^^^ u.toNat : Nat) : Int) ∧ ((m ^^^ u.toNat : Nat) : Int) < _
    omega
  | negSucc m =>
    have hxor : m ^^^ u.toNat < 0x80000000 := Nat.xor_lt_two_pow (n := 31) (by omega) hu
    show _ ≤ Int.negSucc (m ^^^ u.toNat) ∧ Int.negSucc (m ^^^ u.toNat) < _
    omega

theorem isInt32_runtimeHash (us : List UInt16) : IsInt32 (runtimeHash us) := by
  cases us with
  | nil => exact ⟨by decide, by decide⟩
  | cons u us =>
    rw [runtimeHash_cons]
    exact (isInt32_toInt32 _).xor u

/-! ## Congruence -/

theorem ofInt_toInt32 (x : Int) : BitVec.ofInt 32 (toInt32 x) = BitVec.ofInt 32 x := by
  refine BitVec.eq_of_toNat_eq ?_
  rw [BitVec.toNat_ofInt, BitVec.toNat_ofInt]
  exact congrArg Int.toNat Int.bmod_emod

/-- Mixing in bits commutes with taking the last bits of the two's complement. -/
theorem ofInt_xor (w : Nat) (x : Int) (n : Nat) :
    BitVec.ofInt w (Int.xor x n) = BitVec.ofInt w x ^^^ BitVec.ofNat w n := by
  cases x with
  | ofNat m =>
    show BitVec.ofInt w ((m ^^^ n : Nat) : Int) = BitVec.ofInt w (m : Int) ^^^ BitVec.ofNat w n
    rw [BitVec.ofInt_natCast, BitVec.ofInt_natCast, BitVec.ofNat_xor]
  | negSucc m =>
    show BitVec.ofInt w (Int.negSucc (m ^^^ n)) = _
    rw [BitVec.ofInt_negSucc_eq_not_ofNat, BitVec.ofInt_negSucc_eq_not_ofNat, BitVec.ofNat_xor, BitVec.not_xor_left]

/-- A step keeps the signed hash of the runtime and the unsigned one congruent. -/
theorem ofInt_runtimeStep {h : Int} {k : UInt32} (hk : BitVec.ofInt 32 h = k.toBitVec) (u : UInt16) :
    BitVec.ofInt 32 (runtimeStep h u) = (hashStep k u).toBitVec := by
  have hunit : BitVec.ofNat 32 u.toNat = u.toUInt32.toBitVec := by
    refine BitVec.eq_of_toNat_eq ?_
    rw [BitVec.toNat_ofNat, Nat.mod_eq_of_lt (Nat.lt_trans u.toNat_lt (by decide))]
    rfl
  rw [runtimeStep, ofInt_xor, ofInt_toInt32, BitVec.ofInt_mul, hk, hunit, hashStep, UInt32.toBitVec_xor,
    UInt32.toBitVec_mul]
  rfl

theorem ofInt_runtimeHash (us : List UInt16) : BitVec.ofInt 32 (runtimeHash us) = (hashUnits us).toBitVec := by
  induction us with
  | nil => rfl
  | cons u us ih =>
    rw [runtimeHash_cons]
    exact ofInt_runtimeStep ih u

theorem toNat_hashUnits (us : List UInt16) : ((hashUnits us).toNat : Int) = toUint32 (runtimeHash us) := by
  have htoNat : (runtimeHash us % 0x100000000).toNat = (hashUnits us).toNat := by
    rw [← UInt32.toNat_toBitVec, ← ofInt_runtimeHash, BitVec.toNat_ofInt]
    rfl
  rw [toUint32, ← htoNat]
  exact Int.toNat_of_nonneg (Int.emod_nonneg _ (by decide))

theorem pointsHash?_points (s : String) : pointsHash? (points s) = some (slotHash s) := by
  rw [pointsHash?, points, encode?_map_charPoint]
  rfl

theorem pointsHash?_of_encode? {ps : List CodePoint} {us : List UInt16} (h : encode? ps = some us) :
    pointsHash? ps = some (hashUnits us) := by
  rw [pointsHash?, h, Option.map_some]

/-- The hash of text that can be encoded is the one that the runtime computes from its units: every value on the way
fits into a signed word, and the last one is read as unsigned. Text with a surrogate that stands alone has no hash. -/
theorem pointsHash?_eq_runtimeHash (ps : List CodePoint) :
    (∀ us, encode? ps = some us ↔ (decode? us).map (List.map charPoint) = some ps) ∧
      (∀ us, us <:+ unitsOf ps → IsInt32 (runtimeHash us)) ∧
      (pointsHash? ps).map (fun h => (h.toNat : Int)) =
        (if ps.any CodePoint.isSurrogate then none else some (toUint32 (runtimeHash (unitsOf ps)))) ∧
      ∀ s, ps = points s → pointsHash? ps = some (slotHash s) := by
  refine ⟨fun _ => encode?_eq_some_iff, fun us _ => isInt32_runtimeHash us, ?_, fun s hs => hs ▸ pointsHash?_points s⟩
  rw [pointsHash?, encode?]
  split
  · rfl
  · rw [Option.map_some, Option.map_some, toNat_hashUnits]

/-- The runtime has a hash for half of a pair. -/
example : pointsHash? [0xD800] = none ∧ toUint32 (runtimeHash (unitsOf [0xD800])) = 159141 := by
  decide +kernel

/-! ## Different hashes -/

/-- A step loses nothing of the hash before it. -/
theorem hashStep_injective (u : UInt16) : Function.Injective (hashStep · u) := by
  -- the inverse of 33 is (2 ^ 35 + 1) / 33
  have hinverse (h : UInt32) : h * 33 * 1041204193 = h := by
    rw [UInt32.mul_assoc, show (33 * 1041204193 : UInt32) = 1 by decide, UInt32.mul_one]
  intro h k hhk
  have hproduct : h * 33 = k * 33 := (UInt32.xor_left_inj u.toUInt32).mp hhk
  rw [← hinverse h, hproduct, hinverse]

/-- Different units give different hashes. -/
theorem hashStep_unit_injective (h : UInt32) : Function.Injective (hashStep h) :=
  fun _ _ heq => UInt16.toUInt32_inj.mp ((UInt32.xor_right_inj (h * 33)).mp heq)

/-- In how many places two sequences of units differ. -/
def differences (us vs : List UInt16) : Nat :=
  (us.zip vs).countP fun p => p.1 ≠ p.2

theorem differences_cons (u v : UInt16) (us vs : List UInt16) :
    differences (u :: us) (v :: vs) = differences us vs + if u = v then 0 else 1 := by
  rw [differences, List.zip_cons_cons, List.countP_cons]
  by_cases huv : u = v <;> simp [differences, huv]

theorem eq_of_differences_eq_zero {us vs : List UInt16} (hlength : us.length = vs.length)
    (h : differences us vs = 0) : us = vs := by
  rw [differences, List.countP_eq_zero] at h
  refine List.ext_getElem hlength fun i hu hv => ?_
  have hi : (us[i], vs[i]) ∈ us.zip vs := by
    rw [← List.getElem_zip (h := by rw [List.length_zip]; omega)]
    exact List.getElem_mem _
  simpa using h _ hi

theorem hashUnits_ne {us vs : List UInt16} (hlength : us.length = vs.length) (h : differences us vs = 1) :
    hashUnits us ≠ hashUnits vs := by
  induction us generalizing vs with
  | nil => simp [differences] at h
  | cons u us ih =>
    obtain _ | ⟨v, vs⟩ := vs
    · simp at hlength
    have htail : us.length = vs.length := Nat.succ.inj hlength
    show hashStep (hashUnits us) u ≠ hashStep (hashUnits vs) v
    rw [differences_cons] at h
    by_cases huv : u = v
    · -- the difference is behind, and this step keeps the hashes apart
      rw [if_pos huv] at h
      subst huv
      exact fun heq => ih htail h (hashStep_injective u heq)
    · -- the difference is here, and all units behind are the same
      rw [if_neg huv] at h
      rw [eq_of_differences_eq_zero htail (Nat.succ.inj h)]
      exact fun heq => huv (hashStep_unit_injective _ heq)

end TemplateCompiler.Text
