import TemplateCompiler.Helper
import TemplateCompiler.Text.Blank

/-!
# Targets of two-way bindings

A target `a.b` or `a[b]` is split at its last access into the object and the key, so that the
runtime can set the key. A scan over the characters finds the last pair of outer brackets; brackets
inside quotes do not count.
-/

namespace TemplateCompiler

/-- A target: the object expression, and the key expression if there is one. -/
structure ModelPath where
  object : String
  key : Option String
  deriving DecidableEq, Repr

namespace ModelPath

/-- Where the scan stands: outside, in a quoted text outside, in brackets, or in a quoted text in
brackets. -/
inductive Place where
  | outside
  | quotedOutside (mark : Char)
  | inside (depth : Nat)
  | quotedInside (depth : Nat) (mark : Char)
  deriving DecidableEq, Repr

/-- The scan: the offset of the next character, and where the last outer brackets open and close. -/
structure Scan where
  place : Place := .outside
  offset : Nat := 0
  opening : Nat := 0
  closing : Nat := 0
  deriving DecidableEq, Repr

def isQuote (c : Char) : Bool :=
  c == '"' || c == '\''

def Scan.step (s : Scan) (c : Char) : Scan :=
  let s' := { s with offset := s.offset + 1 }
  match s.place with
  | .outside =>
    if isQuote c then { s' with place := .quotedOutside c }
    else if c == '[' then { s' with place := .inside 1, opening := s.offset }
    else s'
  | .quotedOutside mark => if c == mark then { s' with place := .outside } else s'
  | .inside depth =>
    if isQuote c then { s' with place := .quotedInside depth c }
    else if c == '[' then { s' with place := .inside (depth + 1) }
    else if c == ']' then
      if depth ≤ 1 then { s' with place := .outside, closing := s.offset }
      else { s' with place := .inside (depth - 1) }
    else s'
  | .quotedInside depth mark => if c == mark then { s' with place := .inside depth } else s'

/-- The scan of a whole target. Its first character opens nothing. -/
def scan (cs : List Char) : Scan :=
  (cs.drop 1).foldl Scan.step { offset := 1 }

/-- Splits a target at its last point. -/
def splitAtPoint (cs : List Char) : ModelPath :=
  match cs.reverse.span (· != '.') with
  | (last, _ :: rest) =>
    ⟨String.ofList rest.reverse, some (String.ofList ('"' :: last.reverse ++ ['"']))⟩
  | (_, []) => ⟨String.ofList cs, none⟩

/-- Splits a target at its last access. Only a target that ends in a bracket is split there. -/
def parse (value : String) : ModelPath :=
  let cs := Text.trimChars value.toList
  if cs.contains '[' && cs.getLast? == some ']' then
    let s := scan cs
    ⟨String.ofList (cs.take s.opening),
      some (String.ofList ((cs.take s.closing).drop (s.opening + 1)))⟩
  else splitAtPoint cs

/-- The code that assigns to a target. -/
def assignment (names : Names) (target value : String) : String :=
  let path := parse target
  match path.key with
  | none => target ++ "=" ++ value
  | some key => names .set ++ "(" ++ path.object ++ ", " ++ key ++ ", " ++ value ++ ")"

end ModelPath

end TemplateCompiler
