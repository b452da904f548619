/-!
# Blank characters

The blank characters of template source and the text between them.
-/

namespace TemplateCompiler.Text

/-- Code points of the blank characters: the separators of every script, the line ends and the
four information separators. A zero-width space is no blank. -/
def blankPoints : List Nat :=
  [9, 10, 11, 12, 13, 28, 29, 30, 31, 32, 133, 160, 5760, 8192, 8193, 8194, 8195, 8196, 8197, 8198,
  8199, 8200, 8201, 8202, 8232, 8233, 8239, 8287, 12288]

/-- The file, group, record and unit separators. -/
def isInformationSeparator (c : Char) : Bool :=
  28 ≤ c.toNat && c.toNat ≤ 31

def isBlank (c : Char) : Bool :=
  blankPoints.contains c.toNat

/-- The characters from the first to the last one that is not blank. -/
def trimChars (cs : List Char) : List Char :=
  ((cs.dropWhile isBlank).reverse.dropWhile isBlank).reverse

def trim (s : String) : String :=
  String.ofList (trimChars s.toList)

end TemplateCompiler.Text
