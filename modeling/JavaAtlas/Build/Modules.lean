import JavaAtlas.FileTree
import JavaAtlas.Project
import JavaAtlas.Text.Blank
import JavaAtlas.Text.Lines

/-!
What the descriptor files of a source tree say about how it is built: the tool, and the modules that
a Maven descriptor lists. A descriptor is scanned as text; one that cannot be read lists nothing.
-/

namespace JavaAtlas.Build

open Text

def mavenMarker : String := "pom.xml"

def gradleMarkers : List String := ["build.gradle", "build.gradle.kts"]

/-- Modules of modules are followed this far down. -/
def maxDepth : Nat := 8

variable (fs : FileTree)

/-- The tool that builds a tree, by the files in it. -/
def detect (path : String) : BuildSystem :=
  if fs.isFile (Path.join path mavenMarker) then .maven
  else if gradleMarkers.any fun marker => fs.isFile (Path.join path marker) then .gradle
  else .unknown

/-- The text of the Maven descriptor. -/
def descriptor? (path : String) : Option (List Char) :=
  (fs.readText (Path.join path mavenMarker)).toOption.map String.toList

/-- A list of modules begins here. -/
def opensModules? (cs : List Char) : Option Unit := do
  let rest ← dropStart? "<modules".toList cs
  discard (dropStart? ['>'] (rest.dropWhile isBlank))

/-- The packaging of a project that only holds others is named here. -/
def holdsOthers? (cs : List Char) : Option Unit := do
  let rest ← dropStart? "<packaging>".toList cs
  let rest ← dropStart? "pom".toList (rest.dropWhile isBlank)
  discard (dropStart? "</packaging>".toList (rest.dropWhile isBlank))

/-- The name in the module entry that begins here. -/
def moduleEntry? (cs : List Char) : Option String := do
  let body ← dropStart? "<module>".toList cs
  discard (dropStart? "</module>".toList (body.dropWhile (· != '<')))
  return String.ofList (trimBlanks (body.takeWhile (· != '<')))

/-- Whether the tree is built by Maven from modules. -/
def isMultiModule (path : String) : Bool :=
  detect fs path == .maven &&
    (descriptor? fs path).any fun text =>
      (firstFrom? opensModules? text).isSome || (firstFrom? holdsOthers? text).isSome

/-- The listed modules whose directory exists, each once. -/
def listModules (path : String) : List String :=
  match descriptor? fs path with
  | none => []
  | some text =>
    ((allFrom moduleEntry? text).filter fun name =>
      !name.isEmpty && fs.isDir (Path.join path name)).eraseDups

/-- The true location of a path, or the path itself. -/
def placeOf (path : String) : String := (fs.canonicalize path).toOption.getD path

/-- The name of a module of the module `above`, as seen from the root. -/
def nameBelow (above name : String) : String :=
  let own := String.ofList (name.toList.reverse.dropWhile (· == '/')).reverse
  if above.isEmpty then own else above ++ "/" ++ own

/-- The modules below a directory, depth first, and the places that are known after that. -/
def collect : Nat → String → String → List String → List String × List String
  | 0, _, _, known => (known, [])
  | depth + 1, dir, above, known =>
    if !isMultiModule fs dir then (known, [])
    else
      (listModules fs dir).foldl (fun (known, found) name =>
        let child := Path.join dir name
        let place := placeOf fs child
        if known.contains place then (known, found)
        else
          let shown := nameBelow above name
          let (known, below) := collect depth child shown (place :: known)
          (known, found ++ shown :: below)) (known, [])

/-- All modules below a tree, depth first, by their paths from there. A directory that was reached
before is passed over. -/
def moduleTree (path : String) : List String :=
  (collect fs maxDepth path "" [placeOf fs path]).2

/-- The root module, whose name is empty, and all modules below it. -/
def modules (path : String) : List String :=
  "" :: if detect fs path == .maven then moduleTree fs path else []

end JavaAtlas.Build
