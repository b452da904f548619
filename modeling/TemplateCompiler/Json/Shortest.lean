import TemplateCompiler.Json.Basic

/-!
# The shortest text of a real number

A finite binary64 value is `m * 2 ^ q`. Among the decimals that round to it the one with the fewest
digits is written, of several the one nearest to the value.
-/

namespace TemplateCompiler.Json

/-- A nonnegative value `num / den`. -/
structure Ratio where
  num : Nat
  den : Nat

def Ratio.pow2 (m : Nat) (q : Int) : Ratio :=
  if q < 0 then ⟨m, Nat.pow 2 (-q).toNat⟩ else ⟨m * Nat.pow 2 q.toNat, 1⟩

/-- The value `k * 10 ^ p`. -/
def Ratio.pow10 (k : Nat) (p : Int) : Ratio :=
  if p < 0 then ⟨k, Nat.pow 10 (-p).toNat⟩ else ⟨k * Nat.pow 10 p.toNat, 1⟩

def Ratio.lt (a b : Ratio) : Bool :=
  a.num * b.den < b.num * a.den

def Ratio.le (a b : Ratio) : Bool :=
  a.num * b.den ≤ b.num * a.den

/-- The distance of two values. -/
def Ratio.dist (a b : Ratio) : Ratio :=
  ⟨max (a.num * b.den) (b.num * a.den) - min (a.num * b.den) (b.num * a.den), a.den * b.den⟩

/-- A finite positive value with the interval of the values that round to it. -/
structure Binary where
  value : Ratio
  low : Ratio
  high : Ratio
  closed : Bool

/-- Reads the fields of a binary64 value other than its sign. -/
def Binary.ofFields (exponent fraction : Nat) : Binary :=
  let m := if exponent = 0 then fraction else fraction + Nat.pow 2 52
  let q : Int := (if exponent = 0 then 1 else (exponent : Int)) - 1075
  let narrow := fraction = 0 ∧ 1 < exponent
  { value := .pow2 m q
    low := if narrow then .pow2 (4 * m - 1) (q - 2) else .pow2 (2 * m - 1) (q - 1)
    high := .pow2 (2 * m + 1) (q - 1)
    closed := m % 2 = 0 }

def Binary.contains (b : Binary) (r : Ratio) : Bool :=
  if b.closed then b.low.le r && r.le b.high else b.low.lt r && r.lt b.high

/-- The least `e` with the value below `10 ^ e`, searched upwards from `e` for `fuel` steps. -/
def decimalExponent (v : Ratio) : Nat → Int → Int
  | 0, e => e
  | fuel + 1, e => if v.lt (.pow10 1 e) then e else decimalExponent v fuel (e + 1)

/-- The nearest decimal of `n` digits that rounds to the value, as an integer and a power of ten. -/
def Binary.digits? (b : Binary) (e : Int) (n : Nat) : Option (Nat × Int) :=
  let p := e - n
  let scaled := if p < 0 then b.value.num * Nat.pow 10 (-p).toNat / b.value.den
    else b.value.num / (b.value.den * Nat.pow 10 p.toNat)
  let below := Ratio.pow10 scaled p
  let above := Ratio.pow10 (scaled + 1) p
  match b.contains below, b.contains above with
  | true, true =>
    if (above.dist b.value).lt (below.dist b.value) then some (scaled + 1, p) else some (scaled, p)
  | true, false => some (scaled, p)
  | false, true => some (scaled + 1, p)
  | false, false => none

/-- The shortest decimal, searched from one digit to seventeen. -/
def Binary.shortest (b : Binary) : Nat × Int :=
  let e := decimalExponent b.value 700 (-330)
  (((List.range 17).map (· + 1)).findSome? (b.digits? e)).getD (0, 0)

/-- Digits without the zeros at the end, and the power of ten of the last one. -/
def stripZeros : Nat → Nat → Int → Nat × Int
  | 0, k, p => (k, p)
  | fuel + 1, k, p => if k ≠ 0 ∧ k % 10 = 0 then stripZeros fuel (k / 10) (p + 1) else (k, p)

/-- Digits with a point, for exponents from -4 to 15; else one digit before the point and an
exponent of two digits or more. -/
def layoutDigits (k : Nat) (p : Int) : List Char :=
  let ds := Nat.toDigits 10 k
  let point := ds.length + p
  if -4 < point ∧ point ≤ 16 then
    if point ≤ 0 then ['0', '.'] ++ List.replicate (-point).toNat '0' ++ ds
    else if p < 0 then ds.take point.toNat ++ ['.'] ++ ds.drop point.toNat
    else ds ++ List.replicate p.toNat '0' ++ ['.', '0']
  else
    let x := point - 1
    let xs := Nat.toDigits 10 x.natAbs
    ds.take 1 ++ (if ds.length = 1 then [] else '.' :: ds.drop 1) ++
      ['e', if x < 0 then '-' else '+']
      ++ (if xs.length < 2 then '0' :: xs else xs)

/-- The text of a binary64 value. -/
def realText (bits : UInt64) : String :=
  let n := bits.toNat
  let exponent := n / Nat.pow 2 52 % Nat.pow 2 11
  let fraction := n % Nat.pow 2 52
  let sign := if n / Nat.pow 2 63 = 1 then ['-'] else []
  if exponent = 2047 then
    if fraction = 0 then String.ofList (sign ++ ['i', 'n', 'f']) else "nan"
  else if exponent = 0 ∧ fraction = 0 then String.ofList (sign ++ ['0', '.', '0'])
  else
    let (k, p) := (Binary.ofFields exponent fraction).shortest
    let (k, p) := stripZeros 17 k p
    String.ofList (sign ++ layoutDigits k p)

/-- The integer that a binary64 value is, if it is one. -/
def realInt? (bits : UInt64) : Option Int :=
  let n := bits.toNat
  let exponent := n / Nat.pow 2 52 % Nat.pow 2 11
  let r := (Binary.ofFields exponent (n % Nat.pow 2 52)).value
  if exponent = 2047 ∨ r.num % r.den ≠ 0 then none
  else some (if n / Nat.pow 2 63 = 1 then -(r.num / r.den : Nat) else (r.num / r.den : Nat))

/-- The integer that a value counts as: true counts as one and false as zero. -/
def whole? : Json → Option Int
  | .bool b => some b.toNat
  | .int n => some n
  | .real bits => realInt? bits
  | _ => none

/-- Whether two values are the same key of a table. -/
def sameKey (a b : Json) : Bool :=
  a == b || (a.whole?.isSome && a.whole? == b.whole?)

end TemplateCompiler.Json
