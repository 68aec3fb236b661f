import JavaAtlas.Text.Bytes

/-!
Lines and columns of a text, counted from 0 and in bytes. A place beyond the end of the text is taken
for the end.
-/

namespace JavaAtlas.Position

open Text

/-- The bytes after the line breaks of a text that begins at byte `pos`. -/
def startsAfter : Nat → List Char → List Nat
  | _, [] => []
  | pos, c :: cs =>
    if c = '\n' then (pos + 1) :: startsAfter (pos + 1) cs else startsAfter (pos + c.utf8Size) cs

/-- The bytes at which the lines of a text begin. -/
def lineStarts (text : String) : List Nat := 0 :: startsAfter 0 text.toList

/-- The byte at a line and column, the end of the text at the latest. -/
def offsetFor (text : String) (line column : Nat) : Nat :=
  match (lineStarts text)[line]? with
  | some start => min (start + column) (byteLength text.toList)
  | none => byteLength text.toList

/-- The starts of the lines up to the one that a byte lies on. -/
def startsUpTo (text : String) (offset : Nat) : List Nat :=
  (lineStarts text).filter (· ≤ min offset (byteLength text.toList))

/-- The line that a byte lies on. -/
def lineFor (text : String) (offset : Nat) : Nat := (startsUpTo text offset).length - 1

/-- The number of bytes between the start of the line and a byte. -/
def columnFor (text : String) (offset : Nat) : Nat :=
  min offset (byteLength text.toList) - ((startsUpTo text offset).getLast?).getD 0

end JavaAtlas.Position
