import JavaAtlas.Classpath.Entry
import JavaAtlas.FileTree
import JavaAtlas.Text.Digit
import JavaAtlas.Text.Lines

/-!
Where the platform is installed, and of which version it is.
-/

namespace JavaAtlas.Jdk

open Text

variable (fs : FileTree)

/-- Files of which each shows that a directory is an installation, in the order of preference. -/
def assetFiles : List String := ["lib/modules", "jre/lib/rt.jar", "lib/rt.jar"]

/-- Whether a directory holds a module file. -/
def holdsModuleFile (path : String) : Bool :=
  ((fs.readDir path).toOption.getD []).any fun name => Path.extensionOf? name == some "jmod"

/-- What makes a directory an installation. -/
def asset? (home : String) : Option String :=
  if !fs.pathExists home then none
  else
    match (assetFiles.map (Path.join home)).find? fs.pathExists with
    | some found => some found
    | none =>
      let modules := Path.join home "jmods"
      if holdsModuleFile fs modules then some modules else none

/-- Leaves out the double quotes at either end. -/
def unquote (cs : List Char) : List Char :=
  ((cs.dropWhile (· == '"')).reverse.dropWhile (· == '"')).reverse

/-- The version that the release file names. -/
def releaseVersion? (home : String) : Option String := do
  let text ← (fs.readText (Path.join home "release")).toOption
  let value ← (linesOf text.toList).findSome? (dropStart? "JAVA_VERSION=".toList)
  return String.ofList (unquote value)

/-- Numbers with points between them; the fuel bounds how many. -/
def dotted : Nat → List Char → List Char
  | 0, _ => []
  | fuel + 1, cs =>
    match cs.span isDecimalDigit with
    | ([], _) => []
    | (digits, '.' :: rest) =>
      match dotted fuel rest with
      | [] => digits
      | more => digits ++ '.' :: more
    | (digits, _) => digits

/-- The version after the name of a platform that stands here. -/
def versionAt? (cs : List Char) : Option String := do
  let rest ← (dropStart? "jdk".toList cs).or (dropStart? "java".toList cs)
  let number := (dropStart? ['-'] rest).getD rest
  match dotted number.length number with
  | [] => none
  | version => some (String.ofList version)

/-- The version of an installation: as its release file says, else as its path does. -/
def version? (home : String) : Option String :=
  (releaseVersion? fs home).or (firstFrom? versionAt? home.toList)

/-- The installation at a path, or the first in it. -/
def findBelow? (root : String) : Option String :=
  if (asset? fs root).isSome then some root
  else (((fs.readDir root).toOption.getD []).map (Path.join root)).find? fun path =>
    (asset? fs path).isSome

/-- Directories that may hold installations. -/
def searchRoots (userHome : String) : List String :=
  ["/usr/lib/jvm/", Path.join userHome ".sdkman/candidates/java/"]

/-- The installation to use: the one that the user names, if it is one, else the first found. -/
def home? (named : Option String) (userHome : String) : Option String :=
  (named.filter fun path => (asset? fs path).isSome).or
    (((searchRoots userHome).filter fs.pathExists).findSome? (findBelow? fs))

/-- The container for the installation to use. -/
def container (named : Option String) (userHome : String) : RuntimeContainer :=
  match home? fs named userHome with
  | some home => { RuntimeContainer.unresolved with home := some home, version := version? fs home }
  | none => .unresolved

end JavaAtlas.Jdk
