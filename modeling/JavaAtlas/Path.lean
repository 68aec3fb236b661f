import JavaAtlas.Text.Split

/-!
Paths as texts. Two paths are the same when they have the same components: repeated slashes and
points inside do not count, a point at the very start does. What is written is kept as written.
-/

namespace JavaAtlas.Path

open Text

inductive Component where
  | root
  | current
  | parent
  | normal (name : String)
  deriving Repr, DecidableEq

def isAbsolute (p : String) : Bool := p.toList.head? == some '/'

/-- The components of the names between slashes. -/
def ofNames (names : List String) : List Component :=
  (names.filter fun n => n != "" && n != ".").map fun n => if n == ".." then .parent else .normal n

def components (p : String) : List Component :=
  let names := pieces '/' p
  if isAbsolute p then .root :: ofNames names
  else if names.head? == some "." then .current :: ofNames names
  else ofNames names

/-- The text of components that follow the first slash. -/
def Component.text : Component → String
  | root => ""
  | current => "."
  | parent => ".."
  | normal name => name

/-- The shortest text with the given components. -/
def render (cs : List Component) : String :=
  match cs with
  | .root :: rest => "/" ++ joinWith "/" (rest.map (·.text))
  | _ => joinWith "/" (cs.map (·.text))

def same (p q : String) : Bool := components p == components q

/-- The first of each group of paths that are the same. -/
def distinct (paths : List String) : List String :=
  (paths.foldl (fun (seen, kept) p =>
    let key := components p
    if seen.contains key then (seen, kept) else (key :: seen, p :: kept))
    (([], []) : List (List Component) × List String)).2.reverse

/-- Whether `p` lies in `base` or is the same. -/
def isWithin (base p : String) : Bool := (components base).isPrefixOf (components p)

/-- `p` seen from `base`; an absolute path stays as it is. -/
def join (base p : String) : String :=
  if isAbsolute p then p
  else if base.isEmpty || base.toList.getLast? == some '/' then base ++ p
  else base ++ "/" ++ p

/-- Leaves out slashes and points at the front. -/
def trimFront : List Char → List Char
  | '/' :: cs => trimFront cs
  | '.' :: '/' :: cs => trimFront cs
  | ['.'] => []
  | cs => cs

/-- Leaves out slashes and points at the end. -/
def trimBack (cs : List Char) : List Char := (trimFront cs.reverse).reverse

/-- Leaves out the first component of a path. -/
def dropFirst (cs : List Char) : List Char :=
  if cs.head? == some '/' then cs.tail else cs.dropWhile (· != '/')

/-- Leaves out the first `n` components of the inside of a path. -/
def dropInner : Nat → List Char → List Char
  | 0, cs => trimFront cs
  | n + 1, cs => dropInner n ((trimFront cs).dropWhile (· != '/'))

/-- What is written after the first `n` components, without slashes and points at either end. -/
def textAfter (n : Nat) (p : String) : String :=
  let cs := p.toList
  match n with
  | 0 =>
    if isAbsolute p || (components p).head? == some .current then
      String.ofList (cs.take 1 ++ trimBack cs.tail)
    else String.ofList (trimBack cs)
  | n + 1 => String.ofList (trimBack (dropInner n (dropFirst cs)))

/-- The rest of a path that lies in `base`. -/
def stripBase? (base p : String) : Option String :=
  if isWithin base p then some (textAfter (components base).length p) else none

/-- Resolves points and double points by the text alone. A double point takes away the component
before it, whatever it is, and stays where there is none to take. -/
def cleanComponents : List Component → List Component → List Component
  | kept, [] => kept.reverse
  | kept, .current :: cs => cleanComponents kept cs
  | kept, .parent :: cs =>
    match kept with
    | [] | [.root] => cleanComponents (.parent :: kept) cs
    | _ :: before => cleanComponents before cs
  | kept, c :: cs => cleanComponents (c :: kept) cs

def clean (p : String) : String := render (cleanComponents [] (components p))

/-- The path with single slashes and no points, as it is shown to callers. -/
def toSlash (p : String) : String :=
  joinWith "/" (((components p).filter (· != .current)).map (·.text))

/-- The last name, if the path ends with one. -/
def fileName? (p : String) : Option String :=
  match (components p).getLast? with
  | some (.normal name) => some name
  | _ => none

/-- What follows the last point of a file name that does not begin with it. -/
def extensionOf? (name : String) : Option String :=
  match name.toList.reverse.span (· != '.') with
  | (_, []) => none
  | (_, [_]) => none
  | (tail, _) => some (String.ofList tail.reverse)

end JavaAtlas.Path
