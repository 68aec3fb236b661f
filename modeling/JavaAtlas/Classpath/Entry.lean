import JavaAtlas.Json

/-!
What a project is compiled from: the runtime, its source directories and its libraries.
-/

namespace JavaAtlas

/-- A directory of sources. `relative` is taken from the root of the source tree; `module` is the
module it belongs to, empty for the root module. -/
structure SourceRoot where
  path : String
  relative : String
  module : String
  deriving Repr, DecidableEq

namespace SourceRoot

def toFields (r : SourceRoot) : List (String × Json) :=
  [("path", .str r.path), ("relative", .str r.relative), ("module", .str r.module)]

def toJson (r : SourceRoot) : Json := .obj r.toFields

def ofJson? (j : Json) : Option SourceRoot := do
  let [path, relative, module] ← j.fields? ["path", "relative", "module"] | none
  return ⟨← path.toStr?, ← relative.toStr?, ← module.toStr?⟩

end SourceRoot

/-- The platform that the project compiles against. -/
structure RuntimeContainer where
  id : String
  home : Option String
  version : Option String
  deriving Repr, DecidableEq

namespace RuntimeContainer

/-- The container when no platform was found. -/
def unresolved : RuntimeContainer := ⟨"JRE_CONTAINER", none, none⟩

def toFields (c : RuntimeContainer) : List (String × Json) :=
  [("id", .str c.id), ("home", Json.ofOption .str c.home), ("version", Json.ofOption .str c.version)]

def toJson (c : RuntimeContainer) : Json := .obj c.toFields

def ofJson? (j : Json) : Option RuntimeContainer := do
  let [id, home, version] ← j.fields? ["id", "home", "version"] | none
  return ⟨← id.toStr?, ← home.toOption? Json.toStr?, ← version.toOption? Json.toStr?⟩

end RuntimeContainer

/-- One entry of a class path. -/
inductive ClasspathEntry where
  | container (runtime : RuntimeContainer)
  | source (root : SourceRoot)
  | library (path : String)
  deriving Repr, DecidableEq

namespace ClasspathEntry

def isSource : ClasspathEntry → Bool
  | source _ => true
  | _ => false

def isLibrary : ClasspathEntry → Bool
  | library _ => true
  | _ => false

/-- Where the entry lies, if it lies anywhere. -/
def path? : ClasspathEntry → Option String
  | container c => c.home
  | source r => some r.path
  | library p => some p

def toJson : ClasspathEntry → Json
  | container c => .obj (("kind", .str "container") :: c.toFields)
  | source r => .obj (("kind", .str "source") :: r.toFields)
  | library p => .obj [("kind", .str "library"), ("path", .str p)]

/-- Reads the fields of an entry whose kind is known. -/
def ofTagged? (kind : String) (body : Json) : Option ClasspathEntry :=
  match kind with
  | "container" => (RuntimeContainer.ofJson? body).map container
  | "source" => (SourceRoot.ofJson? body).map source
  | "library" => do
    let [path] ← body.fields? ["path"] | none
    return library (← path.toStr?)
  | _ => none

/-- The kind stands in the field `kind` of an object, or first in an array. -/
def ofJson? : Json → Option ClasspathEntry
  | .obj entries => do
    let kind ← entries.lookup "kind"
    ofTagged? (← kind.toStr?) (.obj (entries.filter (·.1 != "kind")))
  | .arr (kind :: items) => do ofTagged? (← kind.toStr?) (.arr items)
  | _ => none

end ClasspathEntry

end JavaAtlas
