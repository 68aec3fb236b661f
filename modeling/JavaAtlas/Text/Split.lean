/-!
Cutting names at a separator.
-/

namespace JavaAtlas.Text

/-- The pieces between the separators; there is always at least one. -/
def splitChars (sep : Char) : List Char → List (List Char)
  | [] => [[]]
  | c :: cs =>
    if c = sep then [] :: splitChars sep cs
    else match splitChars sep cs with
      | [] => [[c]]
      | piece :: rest => (c :: piece) :: rest

/-- The pieces of a text between the separators. -/
def pieces (sep : Char) (s : String) : List String :=
  (splitChars sep s.toList).map String.ofList

/-- What follows the last separator, or everything when there is none. -/
def afterLast (sep : Char) (s : String) : String :=
  String.ofList (s.toList.reverse.takeWhile (· != sep)).reverse

/-- What stands before the first separator and what follows it. -/
def cutFirst? (sep : Char) (s : String) : Option (String × String) :=
  match s.toList.span (· != sep) with
  | (_, []) => none
  | (head, _ :: tail) => some (String.ofList head, String.ofList tail)

/-- What stands before the first separator, or everything when there is none. -/
def beforeFirst (sep : Char) (s : String) : String :=
  String.ofList (s.toList.takeWhile (· != sep))

/-- Joins the pieces with a separator between them. -/
def joinWith (sep : String) : List String → String
  | [] => ""
  | [piece] => piece
  | piece :: rest => piece ++ sep ++ joinWith sep rest

/-- Whether the text holds the character. -/
def hasChar (c : Char) (s : String) : Bool := s.toList.contains c

/-- Whether the text begins with `start`. -/
def beginsWith (start s : String) : Bool := start.toList.isPrefixOf s.toList

/-- Whether the text ends with `tail`. -/
def endsIn (tail s : String) : Bool := tail.toList.isSuffixOf s.toList

end JavaAtlas.Text
