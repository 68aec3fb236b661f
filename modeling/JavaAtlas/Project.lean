import JavaAtlas.Json

/-!
What callers learn about a loaded project.
-/

namespace JavaAtlas

/-- The tool that builds a source tree. -/
inductive BuildSystem where
  | maven
  | gradle
  | unknown
  deriving Repr, DecidableEq, Inhabited

namespace BuildSystem

def name : BuildSystem → String
  | maven => "MAVEN"
  | gradle => "GRADLE"
  | unknown => "UNKNOWN"

def toJson (b : BuildSystem) : Json := .str b.name

def ofJson? : Json → Option BuildSystem :=
  Json.toCase? ([maven, gradle, unknown].map fun b => (b.name, b))

end BuildSystem

/-- The answer to a successful load. -/
structure ProjectSummary where
  buildSystem : BuildSystem
  sourceFileCount : Nat
  packages : List String
  classpathEntryCount : Nat
  deriving Repr, DecidableEq

namespace ProjectSummary

def toJson (s : ProjectSummary) : Json :=
  .obj [("build_system", s.buildSystem.toJson), ("source_file_count", Json.ofNat s.sourceFileCount),
    ("packages", Json.ofList .str s.packages),
    ("classpath_entry_count", Json.ofNat s.classpathEntryCount)]

def ofJson? (j : Json) : Option ProjectSummary := do
  let [build, files, packages, entries] ← j.fields?
    ["build_system", "source_file_count", "packages", "classpath_entry_count"] | none
  return {
    buildSystem := ← BuildSystem.ofJson? build
    sourceFileCount := ← files.toNat?
    packages := ← packages.toList? Json.toStr?
    classpathEntryCount := ← entries.toNat? }

end ProjectSummary

/-- The state of the loaded project. `loadedAt` counts milliseconds; `degraded` says that some
dependencies could not be found. -/
structure ProjectStatus where
  root : String
  projectName : String
  buildSystem : BuildSystem
  sourceFileCount : Nat
  packages : List String
  classpathEntryCount : Nat
  loadedAt : Nat
  degraded : Bool
  token : String
  workspace : String
  deriving Repr, DecidableEq

namespace ProjectStatus

def toJson (s : ProjectStatus) : Json :=
  .obj [("root", .str s.root), ("project_name", .str s.projectName),
    ("build_system", s.buildSystem.toJson), ("source_file_count", Json.ofNat s.sourceFileCount),
    ("packages", Json.ofList .str s.packages),
    ("classpath_entry_count", Json.ofNat s.classpathEntryCount),
    ("loaded_at_ms", Json.ofNat s.loadedAt), ("classpath_degraded", .bool s.degraded),
    ("session_token", .str s.token), ("workspace", .str s.workspace)]

def ofJson? (j : Json) : Option ProjectStatus := do
  let [root, name, build, files, packages, entries, loadedAt, degraded, token, workspace] ←
    j.fields? ["root", "project_name", "build_system", "source_file_count", "packages",
      "classpath_entry_count", "loaded_at_ms", "classpath_degraded", "session_token",
      "workspace"] | none
  return {
    root := ← root.toStr?
    projectName := ← name.toStr?
    buildSystem := ← BuildSystem.ofJson? build
    sourceFileCount := ← files.toNat?
    packages := ← packages.toList? Json.toStr?
    classpathEntryCount := ← entries.toNat?
    loadedAt := ← loadedAt.toNat?
    degraded := ← degraded.toBool?
    token := ← token.toStr?
    workspace := ← workspace.toStr? }

end ProjectStatus

end JavaAtlas
