/-!
# UTF-16 code units and the content hash

`slotHash` is the hash by which the runtime tells slot contents apart. Text from elsewhere is a list
of code points. Half of a surrogate pair may stand alone in it, and then the text cannot be encoded
and has no hash.
-/

namespace TemplateCompiler.Text

/-- A character, or half of a surrogate pair. -/
abbrev CodePoint := Fin 0x110000

/-- Whether a code point is no character. -/
def CodePoint.isSurrogate (p : CodePoint) : Bool :=
  0xD800 ≤ p.val && p.val < 0xE000

/-- The UTF-16 code units of a code point: itself, or a high and a low surrogate. -/
def pointUnits (p : Nat) : List UInt16 :=
  if p < 0x10000 then [p.toUInt16]
  else [(0xD800 + (p - 0x10000) / 0x400).toUInt16, (0xDC00 + (p - 0x10000) % 0x400).toUInt16]

def charUnits (c : Char) : List UInt16 :=
  pointUnits c.toNat

def units (s : String) : List UInt16 :=
  s.toList.flatMap charUnits

/-- The units of a list of code points, whatever stands in it. -/
def unitsOf (ps : List CodePoint) : List UInt16 :=
  ps.flatMap fun p => pointUnits p.val

/-- The encoding of a list of code points, if all of them are characters. -/
def encode? (ps : List CodePoint) : Option (List UInt16) :=
  if ps.any CodePoint.isSurrogate then none else some (unitsOf ps)

/-- One step of the hash: multiply by 33, then mix in the unit. -/
def hashStep (h : UInt32) (u : UInt16) : UInt32 :=
  (h * 33) ^^^ u.toUInt32

/-- The hash of a unit sequence, taken from the last unit to the first. -/
def hashUnits (us : List UInt16) : UInt32 :=
  us.foldr (fun u h => hashStep h u) 5381

def slotHash (s : String) : UInt32 :=
  hashUnits (units s)

/-- The hash of text that can be encoded. -/
def pointsHash? (ps : List CodePoint) : Option UInt32 :=
  (encode? ps).map hashUnits

end TemplateCompiler.Text
