import JavaAtlas.Classpath.Entry
import JavaAtlas.Error
import JavaAtlas.Index
import JavaAtlas.Sources

/-!
The register of the projects of a workspace. Each project has a name of its own and lies in the
workspace; its index is made when it is first asked for, and kept.
-/

namespace JavaAtlas

structure Project where
  name : String
  location : String
  output : String
  classpath : List ClasspathEntry
  index? : Option Index
  deriving Repr

namespace Project

/-- The source directories of the class path. -/
def sourceRoots (p : Project) : List String :=
  p.classpath.filterMap fun e =>
    match e with
    | .source root => some root.path
    | _ => none

/-- The index of the source files as they are now. -/
def readIndex (fs : FileTree) (p : Project) : Index :=
  Index.ofFiles (Sources.texts fs (Sources.filesBelowAll fs p.sourceRoots))

/-- The project with its index made. -/
def indexed (fs : FileTree) (p : Project) : Project :=
  match p.index? with
  | some _ => p
  | none => { p with index? := some (p.readIndex fs) }

/-- The index, as kept or as the files are now. -/
def index (fs : FileTree) (p : Project) : Index := p.index?.getD (p.readIndex fs)

end Project

/-- Why a project cannot be registered. -/
inductive EngineError where
  | invalidName (name : String)
  | outsideWorkspace (location workspace : String)
  | duplicate (name : String)
  deriving Repr, DecidableEq

namespace EngineError

def message : EngineError → String
  | invalidName name => "Invalid project name '" ++ name ++ "'"
  | outsideWorkspace location workspace =>
    "Project location " ++ location ++ " is outside the workspace " ++ workspace
  | duplicate name => "Project '" ++ name ++ "' already exists"

def toServiceError (e : EngineError) : ServiceError := .invalidInput e.message

end EngineError

structure Engine where
  workspace : String
  projects : List Project
  deriving Repr

namespace Engine

def name : String := "java"

def ofWorkspace (workspace : String) : Engine := ⟨workspace, []⟩

/-- A name that is one segment of a path. -/
def isValidName (name : String) : Bool :=
  !(name.isEmpty || Text.hasChar '/' name || Text.hasChar '\\' name || name == "." || name == "..")

variable (engine : Engine)

def project? (name : String) : Option Project := engine.projects.find? (·.name == name)

/-- Registers a project whose name is free. -/
def create (p : Project) : Except EngineError Engine :=
  if !isValidName p.name then .error (.invalidName p.name)
  else if !Path.isWithin engine.workspace p.location then
    .error (.outsideWorkspace p.location engine.workspace)
  else if (engine.project? p.name).isSome then .error (.duplicate p.name)
  else .ok { engine with projects := engine.projects ++ [p] }

/-- Forgets the project of that name. -/
def delete (name : String) : Engine :=
  { engine with projects := engine.projects.filter (·.name != name) }

end Engine

/-- Whether a category can be asked for elements of a kind. -/
def Category.appliesTo : Category → ElementKind → Bool
  | .declarations, _ | .references, _ => true
  | .readAccesses, k | .writeAccesses, k => k.isField
  | .methodReferences, k => k.isMethod
  | _, k => k.isType

/-- A kind that stands for its family. -/
def ElementFamily.typical : ElementFamily → ElementKind
  | .type => .classType
  | .method => .method
  | .field => .field

namespace Index

/-- Whether the target can be searched for in a category: a pattern that can be read, or an element
that the index knows or that is known by name only. -/
def admits (index : Index) (category : Category) : SearchTarget → Bool
  | .name text family =>
    (NamePattern.parse? text false).isSome && family.all fun f => category.appliesTo f.typical
  | .element e =>
    (e.binary || (index.declaration? e.id).isSome) && category.appliesTo e.kind

/-- The search pattern for a target, in which case does not count. -/
def searchPattern? (index : Index) (category : Category) (target : SearchTarget) :
    Option SearchPattern :=
  if index.admits category target then some ⟨target, category, false⟩ else none

end Index

end JavaAtlas
