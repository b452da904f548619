import TemplateCompiler.Json.Shortest
import TemplateCompiler.Text.Word

/-!
# JSON text

The compact text of a value, with nothing between its tokens. Inside strings only the quote, the
backslash and the characters below the space are escaped. `write` refuses values with integers that
are longer than a limit; `compact` is the text of any value. `escapeSeparators` writes the two line
separators, which generated code may not hold, by number.
-/

namespace TemplateCompiler.Json

/-- A digit of base sixteen, in lower case. -/
def hexDigit (n : Nat) : Char :=
  Nat.digitChar (n % 16)

/-- How a character is written between quotes. -/
def escapeChar (c : Char) : List Char :=
  if c = '"' then ['\\', '"']
  else if c = '\\' then ['\\', '\\']
  else if c = '\n' then ['\\', 'n']
  else if c = '\r' then ['\\', 'r']
  else if c = '\t' then ['\\', 't']
  else if c = '\x0c' then ['\\', 'f']
  else if c = '\x08' then ['\\', 'b']
  else if c.toNat < 32 then ['\\', 'u', '0', '0', hexDigit (c.toNat / 16), hexDigit c.toNat]
  else [c]

def quoteChars (cs : List Char) : List Char :=
  '"' :: cs.flatMap escapeChar ++ ['"']

/-- A string as a double-quoted literal. -/
def quote (s : String) : String :=
  String.ofList (quoteChars s.toList)

def intChars : Int → List Char
  | .ofNat n => Nat.toDigits 10 n
  | .negSucc n => '-' :: Nat.toDigits 10 (n + 1)

/-- A real number as JSON text writes it. -/
def realChars (bits : UInt64) : List Char :=
  match (realText bits).toList with
  | ['i', 'n', 'f'] => "Infinity".toList
  | ['-', 'i', 'n', 'f'] => "-Infinity".toList
  | cs => cs

mutual

def compactChars : Json → List Char
  | .null => ['n', 'u', 'l', 'l']
  | .bool true => ['t', 'r', 'u', 'e']
  | .bool false => ['f', 'a', 'l', 's', 'e']
  | .int n => intChars n
  | .real bits => realChars bits
  | .string s => quoteChars s.toList
  | .array [] => ['[', ']']
  | .array (x :: xs) => '[' :: compactChars x ++ itemsTail xs
  | .object [] => ['{', '}']
  | .object ((k, v) :: ms) => '{' :: quoteChars k.toList ++ ':' :: compactChars v ++ membersTail ms

def itemsTail : List Json → List Char
  | [] => [']']
  | x :: xs => ',' :: compactChars x ++ itemsTail xs

def membersTail : List (String × Json) → List Char
  | [] => ['}']
  | (k, v) :: ms => ',' :: quoteChars k.toList ++ ':' :: compactChars v ++ membersTail ms

end

/-- The compact text of a value. -/
def compact (v : Json) : String :=
  String.ofList (compactChars v)

/-- A value as the name of a member: text as it is. -/
def keyText : Json → String
  | .string s => s
  | v => v.compact

/-! ## Numbers that are too long -/

/-- How many digits an integer has. -/
def digitCount (n : Int) : Nat :=
  (Nat.toDigits 10 n.natAbs).length

mutual

/-- Whether every integer in a value can be written. -/
def fits (limit : Text.DigitLimit) : Json → Bool
  | .int n => limit.allows (digitCount n)
  | .array items => fitsItems limit items
  | .object members => fitsMembers limit members
  | _ => true

def fitsItems (limit : Text.DigitLimit) : List Json → Bool
  | [] => true
  | x :: xs => fits limit x && fitsItems limit xs

def fitsMembers (limit : Text.DigitLimit) : List (String × Json) → Bool
  | [] => true
  | (_, v) :: ms => fits limit v && fitsMembers limit ms

end

mutual

/-- The characters of the compact text, up to the first integer that is too long. -/
def writeChars (limit : Text.DigitLimit) : Json → Option (List Char)
  | .int n => if limit.allows (digitCount n) then some (intChars n) else none
  | .array [] => some ['[', ']']
  | .array (x :: xs) => do
    let item ← writeChars limit x
    return '[' :: item ++ (← writeItems limit xs)
  | .object [] => some ['{', '}']
  | .object ((k, v) :: ms) => do
    let value ← writeChars limit v
    return '{' :: quoteChars k.toList ++ ':' :: value ++ (← writeMembers limit ms)
  | v => some (compactChars v)

def writeItems (limit : Text.DigitLimit) : List Json → Option (List Char)
  | [] => some [']']
  | x :: xs => do
    let item ← writeChars limit x
    return ',' :: item ++ (← writeItems limit xs)

def writeMembers (limit : Text.DigitLimit) : List (String × Json) → Option (List Char)
  | [] => some ['}']
  | (k, v) :: ms => do
    let value ← writeChars limit v
    return ',' :: quoteChars k.toList ++ ':' :: value ++ (← writeMembers limit ms)

end

/-- The compact text of a value, if its integers can be written. -/
def write (limit : Text.DigitLimit) (v : Json) : Option String :=
  (writeChars limit v).map String.ofList

mutual

/-- The text of a value with a blank after each comma and each colon. -/
def spaced : Json → String
  | .array items => "[" ++ String.intercalate ", " (spacedItems items) ++ "]"
  | .object members => "\x7b" ++ String.intercalate ", " (spacedMembers members) ++ "\x7d"
  | v => v.compact

def spacedItems : List Json → List String
  | [] => []
  | x :: xs => spaced x :: spacedItems xs

def spacedMembers : List (String × Json) → List String
  | [] => []
  | (k, v) :: ms => (quote k ++ ": " ++ spaced v) :: spacedMembers ms

end

/-- How a character of literal text is written in a function body. -/
def separatorChars (c : Char) : List Char :=
  if c = '\u2028' then ['\\', 'u', '2', '0', '2', '8']
  else if c = '\u2029' then ['\\', 'u', '2', '0', '2', '9']
  else [c]

/-- Escapes the line and the paragraph separator. -/
def escapeSeparators (s : String) : String :=
  String.ofList (s.toList.flatMap separatorChars)

end TemplateCompiler.Json
