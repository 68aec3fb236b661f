import JavaAtlas.Text.Split

/-!
Lines of a text. A line ends with a line feed, or with a carriage return and a line feed; after the
last line feed there may be one more line, which is not empty.
-/

namespace JavaAtlas.Text

/-- A line that ended with a line feed, without the carriage return before it. -/
def withoutReturn (line : List Char) : List Char :=
  if line.getLast? = some '\r' then line.dropLast else line

/-- The lines between line feeds, of which the last did not end with one. -/
def closeLines : List (List Char) → List (List Char)
  | [] => []
  | [last] => if last.isEmpty then [] else [last]
  | line :: rest => withoutReturn line :: closeLines rest

def linesOf (cs : List Char) : List (List Char) := closeLines (splitChars '\n' cs)

def lines (s : String) : List String := (linesOf s.toList).map String.ofList

/-- What follows `start`, if the characters begin with it. -/
def dropStart? : List Char → List Char → Option (List Char)
  | [], cs => some cs
  | s :: start, c :: cs => if s = c then dropStart? start cs else none
  | _ :: _, [] => none

/-- The first result at an end piece of the characters, from the longest to the empty one. -/
def firstFrom? {α : Type} (read : List Char → Option α) : List Char → Option α
  | [] => read []
  | c :: cs => (read (c :: cs)).or (firstFrom? read cs)

/-- All results at the end pieces of the characters, from the longest to the empty one. -/
def allFrom {α : Type} (read : List Char → Option α) : List Char → List α
  | [] => (read []).toList
  | c :: cs => (read (c :: cs)).toList ++ allFrom read cs

end JavaAtlas.Text
