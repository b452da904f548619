import TemplateCompiler.Json.Printer

/-!
# Reading JSON

`parse` reads one value, with blanks between the tokens. Members keep their order. A surrogate
escape is read only as part of a pair.
-/

namespace TemplateCompiler.Json

def isGap (c : Char) : Bool :=
  c == ' ' || c == '\n' || c == '\r' || c == '\t'

def skipGap (cs : List Char) : List Char :=
  cs.dropWhile isGap

def hexValue? (c : Char) : Option Nat :=
  if '0' ≤ c ∧ c ≤ '9' then some (c.toNat - 48)
  else if 'a' ≤ c ∧ c ≤ 'f' then some (c.toNat - 87)
  else if 'A' ≤ c ∧ c ≤ 'F' then some (c.toNat - 55)
  else none

def hex4? (a b c d : Char) : Option Nat := do
  let a ← hexValue? a
  let b ← hexValue? b
  let c ← hexValue? c
  let d ← hexValue? d
  return ((a * 16 + b) * 16 + c) * 16 + d

/-- The character of a pair of surrogates. -/
def pair? (high low : Nat) : Option Char :=
  if 0xD800 ≤ high ∧ high < 0xDC00 ∧ 0xDC00 ≤ low ∧ low < 0xE000 then
    some (Char.ofNat (0x10000 + (high - 0xD800) * 0x400 + (low - 0xDC00)))
  else none

def scalar? (n : Nat) : Option Char :=
  if n < 0xD800 ∨ 0xE000 ≤ n then some (Char.ofNat n) else none

/-- The characters of a string up to its closing quote, and what follows it. -/
def stringBody : List Char → Option (List Char × List Char)
  | [] => none
  | '"' :: rest => some ([], rest)
  | '\\' :: 'u' :: a :: b :: c :: d :: '\\' :: 'u' :: e :: f :: g :: h :: rest =>
    match hex4? a b c d with
    | none => none
    | some n =>
      match scalar? n with
      | some x =>
        (stringBody ('\\' :: 'u' :: e :: f :: g :: h :: rest)).map fun p => (x :: p.1, p.2)
      | none =>
        match (hex4? e f g h).bind (pair? n) with
        | some x => (stringBody rest).map fun p => (x :: p.1, p.2)
        | none => none
  | '\\' :: 'u' :: a :: b :: c :: d :: rest =>
    match (hex4? a b c d).bind scalar? with
    | some x => (stringBody rest).map fun p => (x :: p.1, p.2)
    | none => none
  | '\\' :: 'n' :: rest => (stringBody rest).map fun p => ('\n' :: p.1, p.2)
  | '\\' :: 'r' :: rest => (stringBody rest).map fun p => ('\r' :: p.1, p.2)
  | '\\' :: 't' :: rest => (stringBody rest).map fun p => ('\t' :: p.1, p.2)
  | '\\' :: 'b' :: rest => (stringBody rest).map fun p => ('\x08' :: p.1, p.2)
  | '\\' :: 'f' :: rest => (stringBody rest).map fun p => ('\x0c' :: p.1, p.2)
  | '\\' :: c :: rest =>
    if c = '"' ∨ c = '\\' ∨ c = '/' then (stringBody rest).map fun p => (c :: p.1, p.2) else none
  | c :: rest => if c.toNat < 32 then none else (stringBody rest).map fun p => (c :: p.1, p.2)

def digitsOf (cs : List Char) : List Char :=
  cs.takeWhile Char.isDigit

def afterDigits (cs : List Char) : List Char :=
  cs.dropWhile Char.isDigit

def natOfDigits (cs : List Char) : Nat :=
  Nat.ofDigitChars 10 cs 0

/-- The exponent part of a number, if there is one. -/
def exponentPart (cs : List Char) : Option Int × List Char :=
  match cs with
  | e :: rest =>
    if e = 'e' ∨ e = 'E' then
      let signed : Bool × List Char := match rest with
        | '-' :: r => (true, r)
        | '+' :: r => (false, r)
        | r => (false, r)
      match digitsOf signed.2 with
      | [] => (none, cs)
      | ds =>
        let n : Int := natOfDigits ds
        (some (if signed.1 then -n else n), afterDigits signed.2)
    else (none, cs)
  | [] => (none, [])

/-- The bits of `digits * 10 ^ exponent`. -/
def realBits (negative : Bool) (digits : Nat) (exponent : Int) : UInt64 :=
  let x := Float.ofScientific digits (exponent < 0) exponent.natAbs
  (if negative then -x else x).toBits

/-- An unsigned number: digits, then a fraction and an exponent where they are written. -/
def number (negative : Bool) (cs : List Char) : Option (Json × List Char) :=
  match digitsOf cs with
  | [] => none
  | ds =>
    let rest := afterDigits cs
    let fraction : List Char := match rest with
      | '.' :: r => digitsOf r
      | _ => []
    let rest := if fraction.isEmpty then rest else afterDigits (rest.drop 1)
    match fraction, exponentPart rest with
    | [], (none, _) =>
      let n : Int := natOfDigits ds
      some (.int (if negative then -n else n), rest)
    | fs, (x, rest) =>
      some (.real (realBits negative (natOfDigits (ds ++ fs)) (x.getD 0 - fs.length)), rest)

mutual

/-- One value and what follows it. The first argument bounds the depth of the search. -/
def value : Nat → List Char → Option (Json × List Char)
  | 0, _ => none
  | n + 1, cs =>
    match skipGap cs with
    | 'n' :: 'u' :: 'l' :: 'l' :: rest => some (.null, rest)
    | 't' :: 'r' :: 'u' :: 'e' :: rest => some (.bool true, rest)
    | 'f' :: 'a' :: 'l' :: 's' :: 'e' :: rest => some (.bool false, rest)
    | '"' :: rest => (stringBody rest).map fun p => (.string (String.ofList p.1), p.2)
    | '[' :: rest =>
      match skipGap rest with
      | ']' :: rest => some (.array [], rest)
      | rest =>
        match value n rest with
        | none => none
        | some (x, rest) => (items n rest).map fun p => (.array (x :: p.1), p.2)
    | '{' :: rest =>
      match skipGap rest with
      | '}' :: rest => some (.object [], rest)
      | rest =>
        match member n rest with
        | none => none
        | some (m, rest) => (members n rest).map fun p => (.object (m :: p.1), p.2)
    | '-' :: rest => number true rest
    | rest => number false rest

/-- The items after the first one, up to the closing bracket. -/
def items : Nat → List Char → Option (List Json × List Char)
  | 0, _ => none
  | n + 1, cs =>
    match skipGap cs with
    | ']' :: rest => some ([], rest)
    | ',' :: rest =>
      match value n rest with
      | none => none
      | some (x, rest) => (items n rest).map fun p => (x :: p.1, p.2)
    | _ => none

def member : Nat → List Char → Option ((String × Json) × List Char)
  | 0, _ => none
  | n + 1, cs =>
    match skipGap cs with
    | '"' :: rest =>
      match stringBody rest with
      | none => none
      | some (k, rest) =>
        match skipGap rest with
        | ':' :: rest => (value n rest).map fun p => ((String.ofList k, p.1), p.2)
        | _ => none
    | _ => none

/-- The members after the first one, up to the closing brace. -/
def members : Nat → List Char → Option (List (String × Json) × List Char)
  | 0, _ => none
  | n + 1, cs =>
    match skipGap cs with
    | '}' :: rest => some ([], rest)
    | ',' :: rest =>
      match member n rest with
      | none => none
      | some (m, rest) => (members n rest).map fun p => (m :: p.1, p.2)
    | _ => none

end

/-- Reads a text that holds one value and nothing else. -/
def parse (s : String) : Option Json :=
  match value (2 * s.toList.length + 2) s.toList with
  | some (v, rest) => if (skipGap rest).isEmpty then some v else none
  | none => none

end TemplateCompiler.Json
