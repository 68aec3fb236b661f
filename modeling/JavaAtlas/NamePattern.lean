import JavaAtlas.Text.Alphanumeric
import JavaAtlas.Text.Blank
import JavaAtlas.Text.CaseFold

/-!
Patterns for names: `*` stands for any run of characters and `?` for any one, neither across a line
break. A pattern with a point in it is matched against qualified names, any other against simple
names.
-/

namespace JavaAtlas

namespace NamePattern

/-- One part of a pattern. -/
inductive Piece where
  | run
  | one
  | letter (c : Char)
  deriving Repr, DecidableEq

/-- The piece that a character stands for, if it may stand in a pattern. -/
def Piece.ofChar? (c : Char) : Option Piece :=
  if c = '*' then some run
  else if c = '?' then some one
  else if Text.isAlphanumeric c ∨ c = '_' ∨ c = '$' ∨ c = '.' then some (letter c)
  else none

/-- Whether the piece stands for one character, and for this one. -/
def Piece.takes (caseSensitive : Bool) : Piece → Char → Bool
  | run, _ => false
  | one, c => c != '\n'
  | letter l, c => Text.sameLetter caseSensitive l c

/-- The answers for the end pieces of a name, from the whole name to its empty end, when a run of
characters comes first; `after` are the answers for what follows the run. -/
def runBefore : List Char → List Bool → List Bool
  | c :: cs, fit :: after =>
    let rest := runBefore cs after
    (fit || (c != '\n' && rest.headD false)) :: rest
  | _, after => after

/-- The answers for the end pieces of a name when one character comes first. -/
def oneBefore (takes : Char → Bool) : List Char → List Bool → List Bool
  | c :: cs, _ :: after => (takes c && after.headD false) :: oneBefore takes cs after
  | _, _ => [false]

/-- The answers for the end pieces of a name when a piece comes first. -/
def Piece.before (caseSensitive : Bool) (name : List Char) (after : List Bool) : Piece → List Bool
  | run => runBefore name after
  | piece => oneBefore (piece.takes caseSensitive) name after

end NamePattern

open NamePattern

structure NamePattern where
  pieces : List Piece
  qualified : Bool
  caseSensitive : Bool
  deriving Repr, DecidableEq

namespace NamePattern

/-- Reads a pattern, white space around it set aside. There is none in an empty text, in one that
begins or ends with a point, or in one with a character that no name has. -/
def parse? (text : String) (caseSensitive : Bool) : Option NamePattern :=
  let cs := Text.trimBlanks text.toList
  if cs.isEmpty ∨ cs.head? = some '.' ∨ cs.getLast? = some '.' then none
  else match cs.mapM Piece.ofChar? with
    | some pieces => some { pieces, qualified := cs.contains '.', caseSensitive }
    | none => none

/-- For each end piece of a name, from the whole name to its empty end, whether the pieces of the
pattern fit it. -/
def answers (p : NamePattern) (name : List Char) : List Bool :=
  p.pieces.foldr (fun piece after => piece.before p.caseSensitive name after)
    (name.map (fun _ => false) ++ [true])

/-- Whether the whole name fits. -/
def fits (p : NamePattern) (name : String) : Bool := (p.answers name.toList).headD false

/-- Whether an element fits, by the name that the pattern speaks of. -/
def matchesName (p : NamePattern) (simple qualified : String) : Bool :=
  p.fits (if p.qualified then qualified else simple)

end NamePattern

end JavaAtlas
