/-!
# Lines

The lines of a text. A carriage return with the line feed after it is one line end, and the text
after the last line end is a line only if it is not empty.
-/

namespace TemplateCompiler.Text

/-- Line feed, vertical tab, form feed, carriage return, the file, group and record separators, next
line, and the line and paragraph separators. -/
def isLineEnd (c : Char) : Bool :=
  [10, 11, 12, 13, 28, 29, 30, 133, 8232, 8233].contains c.toNat

/-- The lines of `cs`, where `line` holds the characters of the current line, last first. -/
def linesFrom (line : List Char) : List Char → List (List Char)
  | [] => if line.isEmpty then [] else [line.reverse]
  | '\r' :: '\n' :: rest => line.reverse :: linesFrom [] rest
  | c :: rest =>
    if isLineEnd c then line.reverse :: linesFrom [] rest else linesFrom (c :: line) rest

def lines (s : String) : List String :=
  (linesFrom [] s.toList).map String.ofList

end TemplateCompiler.Text
