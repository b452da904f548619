import TemplateCompiler.Diagnostic.Style
import TemplateCompiler.Text.Lines

/-!
# Source snippets

The lines around a span of template source, with a row of carets under the part of the span on its
first line. Offsets count characters. `Snippet.around` finds the line by its line feeds and takes
the text of the lines from `Text.lines`.
-/

namespace TemplateCompiler

/-- Numbered lines around a span, the number of the line where the span starts, and the column and
width of the span on it. -/
structure Snippet where
  lines : List (Nat × String)
  errorLine : Nat
  column : Nat
  width : Nat
  deriving DecidableEq, Repr

namespace Snippet

/-- The offset nearest to `start` in a text of `size` characters. -/
def clamp (start : Int) (size : Nat) : Nat :=
  min start.toNat size

/-- The number of carets: at least one, and none past the end of the line. -/
def caretWidth (start : Nat) (stop : Option Int) (lineRest : Nat) : Nat :=
  match stop with
  | none => max 1 lineRest
  | some stop => max 1 (min (max 1 (stop - start).toNat) lineRest)

/-- The snippet for the span from `start` to `stop`, or to the end of the line, with `context` lines
before and after. -/
def around (source : String) (start : Int) (stop : Option Int) (context : Int) : Snippet :=
  let chars := source.toList
  let start := clamp start chars.length
  let before := chars.take start
  let errorLine := before.count '\n' + 1
  let lineRest := ((chars.drop start).takeWhile (· ≠ '\n')).length
  let shown (n : Nat) : Bool := errorLine - context ≤ n && n ≤ errorLine + context
  { lines := (((Text.lines source).zipIdx 1).filter fun e => shown e.2).map fun e => (e.2, e.1)
    errorLine := errorLine
    column := (before.reverse.takeWhile (· ≠ '\n')).length
    width := caretWidth start stop lineRest }

/-- The decimal text of a number, to the right of three places. -/
def lineNumber (n : Int) : String :=
  let digits := toString n
  String.ofList (List.replicate (3 - digits.length) ' ') ++ digits

/-- One numbered source line. -/
def sourceRow (color : Bool) (n : Int) (content : String) (isError : Bool) : String :=
  let marker := if isError then ">" else " "
  Style.paint color [.yellow] (marker ++ lineNumber n) ++ " | " ++
    Style.paint color [if isError then .brightRed else .dim] content

/-- The row of carets. -/
def caretRow (color : Bool) (column width : Int) : String :=
  Style.paint color [.dim] "     |" ++ " " ++
    Style.paint color [.brightRed]
      (String.ofList (List.replicate column.toNat ' ' ++ List.replicate (max width 1).toNat '^'))

def rule (color : Bool) : String :=
  Style.paint color [.dim] "     |"

/-- The rows of one line: the line itself, and the carets under the line of the span. -/
def lineRows (s : Snippet) (color : Bool) (line : Nat × String) : List String :=
  if line.1 = s.errorLine then
    [sourceRow color line.1 line.2 true, caretRow color s.column s.width]
  else [sourceRow color line.1 line.2 false]

def format (s : Snippet) (color : Bool) : String :=
  String.intercalate "\n" ([rule color] ++ s.lines.flatMap (s.lineRows color) ++ [rule color])

end Snippet

end TemplateCompiler
