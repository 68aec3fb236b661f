/-!
Patterns of the shell: `*` stands for any text, `?` for any character, and a set between brackets
for one of its characters. A quoted character stands for itself.
-/

namespace JavaAtlas.Shell

/-- A character and whether it was quoted. -/
abbrev Marked := Char × Bool

inductive Glob where
  | any
  | one
  | set (negated : Bool) (ranges : List (Char × Char))
  | char (c : Char)
  deriving Repr, DecidableEq

namespace Glob

/-- The ranges of a set, and what follows its closing bracket. -/
def readRanges : List Marked → Option (List (Char × Char) × List Marked)
  | [] => none
  | (']', false) :: rest => some ([], rest)
  | (lo, _) :: ('-', false) :: (hi, q) :: rest =>
    if hi = ']' ∧ q = false then some ([(lo, lo), ('-', '-')], rest)
    else (readRanges rest).map fun (ranges, rest) => ((lo, hi) :: ranges, rest)
  | (c, _) :: rest => (readRanges rest).map fun (ranges, rest) => ((c, c) :: ranges, rest)

/-- The set after an opening bracket; a bracket at its very start belongs to it. -/
def readSet (cs : List Marked) : Option (Glob × List Marked) :=
  let (negated, cs) := match cs with
    | ('!', false) :: rest => (true, rest)
    | _ => (false, cs)
  match cs with
  | (']', false) :: rest => (readRanges rest).map fun (ranges, rest) =>
      (.set negated ((']', ']') :: ranges), rest)
  | _ => (readRanges cs).map fun (ranges, rest) => (.set negated ranges, rest)

/-- Reads a pattern; the fuel is its length. -/
def read : Nat → List Marked → List Glob
  | 0, _ => []
  | _ + 1, [] => []
  | fuel + 1, ('*', false) :: cs => any :: read fuel cs
  | fuel + 1, ('?', false) :: cs => one :: read fuel cs
  | fuel + 1, ('[', false) :: cs =>
    match readSet cs with
    | some (g, rest) => g :: read fuel rest
    | none => char '[' :: read fuel cs
  | fuel + 1, (c, _) :: cs => char c :: read fuel cs

def parse (cs : List Marked) : List Glob := read cs.length cs

/-- Whether the characters hold anything but themselves. -/
def isPattern (cs : List Marked) : Bool := (parse cs).any fun g =>
  match g with
  | char _ => false
  | _ => true

def takes : Glob → Char → Bool
  | any, _ => false
  | one, _ => true
  | set negated ranges, c => (ranges.any fun (lo, hi) => lo ≤ c && c ≤ hi) != negated
  | char d, c => c == d

/-- The end pieces of a list, itself first. -/
def ends : List Char → List (List Char)
  | [] => [[]]
  | c :: cs => (c :: cs) :: ends cs

/-- Whether the pattern stands for the whole text. -/
def fits : List Glob → List Char → Bool
  | [], cs => cs.isEmpty
  | any :: gs, cs => (ends cs).any (fits gs)
  | g :: gs, c :: cs => g.takes c && fits gs cs
  | _ :: _, [] => false

/-- Leaves out the part at the front that fits, the longest or the shortest. -/
def dropFront (longest : Bool) (gs : List Glob) (cs : List Char) : List Char :=
  let sizes := List.range (cs.length + 1)
  match (if longest then sizes.reverse else sizes).find? fun n => fits gs (cs.take n) with
  | some n => cs.drop n
  | none => cs

/-- Leaves out the part at the end that fits, the longest or the shortest. -/
def dropBack (longest : Bool) (gs : List Glob) (cs : List Char) : List Char :=
  let sizes := List.range (cs.length + 1)
  match (if longest then sizes else sizes.reverse).find? fun n => fits gs (cs.drop n) with
  | some n => cs.take n
  | none => cs

end Glob

end JavaAtlas.Shell
