import JavaAtlas.FileTree
import JavaAtlas.Shell.Pattern

/-!
From the value of a word to the fields of a command: blanks in what was not quoted separate fields,
and a field with a pattern in it stands for the paths that fit.
-/

namespace JavaAtlas.Shell

/-- A piece of the value of a word. -/
inductive Piece where
  | chars (s : List Char) (quoted : Bool)
  | separator
  deriving Repr, DecidableEq

namespace Piece

/-- The pieces of a value that is split at blanks. -/
def split : List Char → List Piece
  | [] => []
  | c :: cs =>
    if c = ' ' ∨ c = '\t' ∨ c = '\n' then separator :: split cs
    else match split cs with
      | chars s false :: rest => chars (c :: s) false :: rest
      | rest => chars [c] false :: rest

/-- Adds a piece before a field that has begun, if any, and the fields after it. -/
def join (p : Piece) (state : Option (List Marked) × List (List Marked)) :
    Option (List Marked) × List (List Marked) :=
  match p, state with
  | separator, (some field, rest) => (none, field :: rest)
  | separator, (none, rest) => (none, rest)
  | chars [] false, state => state
  | chars s quoted, (field, rest) => (some (s.map (·, quoted) ++ field.getD []), rest)

/-- The fields of pieces. -/
def fields (pieces : List Piece) : List (List Marked) :=
  match pieces.foldr join (none, []) with
  | (some field, rest) => field :: rest
  | (none, rest) => rest

/-- The pieces as one row of characters. -/
def marked (pieces : List Piece) : List Marked :=
  pieces.flatMap fun p =>
    match p with
    | chars s quoted => s.map (·, quoted)
    | separator => [(' ', true)]

end Piece

def plainText (cs : List Marked) : String := String.ofList (cs.map (·.1))

/-- The parts of a field between slashes. -/
def splitSlashes : List Marked → List (List Marked)
  | [] => [[]]
  | c :: cs =>
    if c.1 = '/' then [] :: splitSlashes cs
    else match splitSlashes cs with
      | [] => [[c]]
      | part :: rest => (c :: part) :: rest

/-- The paths that continue a path by a name that fits. -/
def continuePath (fs : FileTree) (part : List Marked) (base : String) : List String :=
  if Glob.isPattern part then
    let names := (fs.readDir (if base.isEmpty then "." else base)).toOption.getD []
    let hidden := (part.head?.map (·.1)) == some '.'
    (names.filter fun n => (hidden || n.toList.head? != some '.') &&
      Glob.fits (Glob.parse part) n.toList).map (base ++ ·)
  else [base ++ plainText part]

/-- The paths that fit a field, part by part. -/
def matchingPaths (fs : FileTree) : List (List Marked) → List String → List String
  | [], bases => bases
  | [part], bases => bases.flatMap (continuePath fs part)
  | part :: parts, bases =>
    matchingPaths fs parts ((bases.flatMap (continuePath fs part)).map (· ++ "/"))

/-- What a field stands for: the paths that fit a pattern, if there are any, else itself. -/
def fieldValues (fs : FileTree) (field : List Marked) : List String :=
  if Glob.isPattern field then
    match (matchingPaths fs (splitSlashes field) [""]).filter fs.pathExists with
    | [] => [plainText field]
    | paths => paths
  else [plainText field]

end JavaAtlas.Shell
