import TemplateCompiler.Json.Printer
import TemplateCompiler.Text.Hidden

/-!
# Values in messages

How a message shows a value: strings in single quotes, unless the text has a single quote and no
double one, with the characters that show nothing written by number.
-/

namespace TemplateCompiler.Json

/-- The last `width` digits of `n` in base sixteen. -/
def hexDigits : Nat → Nat → List Char
  | 0, _ => []
  | width + 1, n => hexDigits width (n / 16) ++ [hexDigit n]

def shownChar (mark : Char) (c : Char) : List Char :=
  if c = mark ∨ c = '\\' then ['\\', c]
  else if c = '\n' then ['\\', 'n']
  else if c = '\r' then ['\\', 'r']
  else if c = '\t' then ['\\', 't']
  else if Text.isHidden c then
    if c.toNat < 0x100 then '\\' :: 'x' :: hexDigits 2 c.toNat
    else if c.toNat < 0x10000 then '\\' :: 'u' :: hexDigits 4 c.toNat
    else '\\' :: 'U' :: hexDigits 8 c.toNat
  else [c]

/-- The quote that a text is shown in. -/
def quoteMark (cs : List Char) : Char :=
  if cs.contains '\'' && !cs.contains '"' then '"' else '\''

def inspectString (s : String) : String :=
  let mark := quoteMark s.toList
  String.ofList (mark :: s.toList.flatMap (shownChar mark) ++ [mark])

mutual

def inspect : Json → String
  | .null => "None"
  | .bool true => "True"
  | .bool false => "False"
  | .int n => String.ofList (intChars n)
  | .real bits => realText bits
  | .string s => inspectString s
  | .array items => "[" ++ String.intercalate ", " (inspectItems items) ++ "]"
  | .object members => "\x7b" ++ String.intercalate ", " (inspectMembers members) ++ "\x7d"

def inspectItems : List Json → List String
  | [] => []
  | x :: xs => inspect x :: inspectItems xs

def inspectMembers : List (String × Json) → List String
  | [] => []
  | (k, v) :: ms => (inspectString k ++ ": " ++ inspect v) :: inspectMembers ms

end

/-- A value as generated code and messages show it: text as it is. -/
def shown : Json → String
  | .string s => s
  | v => v.inspect

/-- What is shown of a value that counts as given. -/
def filled? (v : Json) : Option String :=
  if v.truthy then some v.shown else none

theorem isSome_filled? (v : Json) : v.filled?.isSome = v.truthy := by
  unfold filled?
  cases v.truthy <;> rfl

/-- A list of names as a message shows it. -/
def inspectNames (names : List String) : String :=
  inspect (.array (names.map .string))

end TemplateCompiler.Json
