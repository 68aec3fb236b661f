import JavaAtlas.FileTree

/-!
The source files of a directory. The walk goes through a directory in the order of its names, passes
over names that begin with a point, follows links, and does not enter a directory that it is in
already.
-/

namespace JavaAtlas.Sources

/-- Whether a path names a source file. -/
def isSource (path : String) : Bool :=
  ((Path.fileName? path).bind Path.extensionOf?) == some "java"

def isHidden (name : String) : Bool := name.toList.head? == some '.'

/-- The source files at a location that the walk has come to by `path`; `around` are the
directories it is in. -/
def filesAt (fs : FileTree) : Nat → List Location → String → Location → List String
  | 0, _, _, _ => []
  | fuel + 1, around, path, loc =>
    match fs.entry? loc with
    | some .dir =>
      ((fs.namesAt loc).filter (!isHidden ·)).flatMap fun name =>
        let inner := Path.join path name
        match fs.entry? (loc ++ [name]) with
        | some (.link _) =>
          match fs.follow false 40 loc [name] with
          | .arrived target =>
            if fs.isDirAt target && (loc :: around).contains target then []
            else filesAt fs fuel (loc :: around) inner target
          | _ => []
        | _ => filesAt fs fuel (loc :: around) inner (loc ++ [name])
    | some (.file _ _) => if isSource path then [path] else []
    | _ => []

/-- Enough depth for any walk: between two links it goes down at most once through each
directory. -/
def depthFor (fs : FileTree) : Nat := (fs.entries.length + 2) * (fs.entries.length + 2)

/-- The source files below a path, or the path itself if it is one. -/
def filesBelow (fs : FileTree) (root : String) : List String :=
  match fs.locate root with
  | .ok loc => filesAt fs (depthFor fs) [] root loc
  | .error _ => []

/-- The source files below several paths, each once. -/
def filesBelowAll (fs : FileTree) (roots : List String) : List String :=
  Path.distinct (roots.flatMap (filesBelow fs))

/-- The files that can be read as text, with their text. -/
def texts (fs : FileTree) (paths : List String) : List (String × String) :=
  paths.filterMap fun p => (fs.readText p).toOption.map fun text => (p, text)

end JavaAtlas.Sources
