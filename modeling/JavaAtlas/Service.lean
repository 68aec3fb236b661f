import JavaAtlas.Config
import JavaAtlas.Deadline
import JavaAtlas.Project
import JavaAtlas.Query
import JavaAtlas.Workspace

/-!
A service holds at most one loaded project and answers questions about it. A load that fails leaves
the project that was loaded before; after the end of the session nothing can be loaded.
-/

namespace JavaAtlas

/-- What a load has found out. -/
structure LoadedProject where
  root : String
  buildSystem : BuildSystem
  bound : BoundProject
  query : Query
  summary : ProjectSummary
  loadedAt : Nat
  degraded : Bool
  deriving Repr

structure Service where
  config : ServiceConfig
  launch : Launcher
  container : RuntimeContainer
  workspace : Workspace
  current : Option LoadedProject

namespace Service

/-- A service over a session. -/
def ofSession (config : ServiceConfig) (launch : Launcher) (container : RuntimeContainer)
    (files : FileTree) (session : Session) : Service where
  config
  launch
  container
  workspace := ⟨files, session, .ofWorkspace session.path, .link⟩
  current := none

variable (s : Service)

def isLoaded : Bool := s.current.isSome

def loaded : Except ServiceError LoadedProject :=
  match s.current with
  | some project => .ok project
  | none => .error .notLoaded

/-- What must hold of a path before it is loaded. -/
def checkLoad (path : String) : Except ServiceError Unit := do
  if !s.workspace.files.pathExists path then
    throw (.notFound ("project directory '" ++ path ++ "'"))
  if !s.workspace.files.isDir path then
    throw (.notFound ("'" ++ path ++ "' is not a directory"))
  if s.workspace.session.tornDown then
    throw (.internal "session workspace already torn down")

/-- How the service assembles class paths. -/
def assembler : Classpath.Assembler where
  launch := s.launch
  mavenCommand := s.config.mavenCommand
  timeoutMs := s.config.classpathTimeoutSecs * 1000
  container := s.container
  cancelled := false

/-- A project that was put into the workspace, with its files indexed as they are now. -/
def loadedFrom (files : FileTree) (root : String) (assembly : Classpath.Assembly)
    (bound : BoundProject) (now : Nat) : LoadedProject :=
  let index := Project.readIndex files
    ⟨bound.name, bound.location, bound.output, bound.classpath, none⟩
  { root
    buildSystem := assembly.kind
    bound
    query := ⟨index, ⟨root, bound.roots, s.config.absolutePaths⟩⟩
    summary := {
      buildSystem := assembly.kind
      sourceFileCount := index.units.length
      packages := index.packages
      classpathEntryCount := bound.classpath.length }
    loadedAt := now
    degraded := assembly.degraded }

/-- Makes a project the current one, and takes that of another name out of the workspace. -/
def replaceCurrent (project : LoadedProject) : Service :=
  let workspace := match s.current with
    | some previous =>
      if previous.bound.name != project.bound.name then s.workspace.unbind previous.bound.name
      else s.workspace
    | none => s.workspace
  { s with workspace, current := some project }

/-- Loads the tree at a path in place of what was loaded before. `now` is the time in
milliseconds. -/
def load (path : String) (now : Nat) : Except ServiceError ProjectSummary × Service :=
  match s.checkLoad path with
  | .error e => (.error e, s)
  | .ok _ =>
    let root := s.workspace.files.normalize path
    let (assembly, files) := s.assembler.assemble s.workspace.files root
    match (Workspace.bind root assembly.entries).run { s.workspace with files } with
    | (.error e, workspace) => (.error e.toServiceError, { s with workspace })
    | (.ok bound, workspace) =>
      let project := s.loadedFrom workspace.files root assembly bound now
      (.ok project.summary, { s with workspace }.replaceCurrent project)

def status : Except ServiceError ProjectStatus := do
  let project ← s.loaded
  return {
    root := project.root
    projectName := project.bound.name
    buildSystem := project.buildSystem
    sourceFileCount := project.summary.sourceFileCount
    packages := project.summary.packages
    classpathEntryCount := project.summary.classpathEntryCount
    loadedAt := project.loadedAt
    degraded := project.degraded
    token := s.workspace.session.token
    workspace := s.workspace.session.path }

/-- Forgets the project and ends the session. -/
def shutdown : Service :=
  let workspace := match s.current with
    | some project => s.workspace.unbind project.bound.name
    | none => s.workspace
  { s with workspace := workspace.teardown, current := none }

/-- Runs an operation within the time that the service allows. -/
def execute {α : Type} (operation : String) (course : Deadline.Course α) : Except ServiceError α :=
  Deadline.run operation (s.config.timeoutSecs * 1000) course

/-- Runs an operation as a task within the time that the service allows. -/
def executeTask {α : Type} (operation : String) (course : Deadline.Course α) :
    Except ServiceError α :=
  Deadline.runTask operation (s.config.timeoutSecs * 1000) course

/-- The text without white space around it, which must not be all. -/
def nonBlank (what text : String) : Except ServiceError String :=
  let trimmed := Text.trim text
  if trimmed.isEmpty then .error (.invalidInput (what ++ " must not be blank")) else .ok trimmed

def positive (most : Nat) : Except ServiceError Nat :=
  if most = 0 then .error (.invalidInput "max_results must be positive") else .ok most

/-- The element of an identifier. -/
def elementOf (project : LoadedProject) (id : String) : Except ServiceError Element :=
  match project.query.index.declaration? id with
  | some d => .ok d.element
  | none => .error (.notFound ("element '" ++ id ++ "'"))

/-- The type of an identifier. -/
def typeOf (project : LoadedProject) (id : String) : Except ServiceError Element := do
  let e ← elementOf project id
  if e.kind.isType then return e else throw (.invalidInput ("'" ++ id ++ "' is not a type"))

/-- The file at a path of the caller. -/
def unitOf (project : LoadedProject) (path : String) : Except ServiceError IndexedUnit :=
  match project.query.unit? s.workspace.files.normalize path with
  | some unit => .ok unit
  | none => .error (.notFound ("compilation unit '" ++ path ++ "'"))

def searchSymbols (pattern : String) (family : Option ElementFamily) (most : Nat) :
    Except ServiceError (List SearchMatch) := do
  let project ← s.loaded
  let pattern ← nonBlank "pattern" pattern
  let most ← positive most
  return project.query.searchSymbols pattern family most

def findByShape (id : String) (shape : Shape) (most : Nat) :
    Except ServiceError (List SearchMatch) := do
  let project ← s.loaded
  let id ← nonBlank "element id" id
  let most ← positive most
  return project.query.findByShape (← elementOf project id) shape most

def findReferences (id : String) (access : Access) (most : Nat) :
    Except ServiceError (List SearchMatch) := s.findByShape id access.shape most

def findImplementations (id : String) (most : Nat) : Except ServiceError (List SearchMatch) := do
  let project ← s.loaded
  let id ← nonBlank "element id" id
  let most ← positive most
  return project.query.findImplementations (← elementOf project id) most

def typeHierarchy (id : String) : Except ServiceError TypeHierarchy := do
  let project ← s.loaded
  let id ← nonBlank "element id" id
  return project.query.hierarchy (← typeOf project id)

def allSupertypes (id : String) : Except ServiceError (List Element) := do
  let project ← s.loaded
  let id ← nonBlank "element id" id
  return project.query.allSupertypes (← typeOf project id)

def allSubtypes (id : String) : Except ServiceError (List Element) := do
  let project ← s.loaded
  let id ← nonBlank "element id" id
  return project.query.index.allSubtypes (← typeOf project id)

def element (id : String) : Except ServiceError Element := do
  let project ← s.loaded
  elementOf project (← nonBlank "element id" id)

def offsetFor (path : String) (line column : Nat) : Except ServiceError Nat := do
  let unit ← s.unitOf (← s.loaded) path
  return Position.offsetFor unit.source line column

def lineFor (path : String) (offset : Nat) : Except ServiceError Nat := do
  let unit ← s.unitOf (← s.loaded) path
  return Position.lineFor unit.source offset

def columnFor (path : String) (offset : Nat) : Except ServiceError Nat := do
  let unit ← s.unitOf (← s.loaded) path
  return Position.columnFor unit.source offset

def elementAt (path : String) (line column : Nat) : Except ServiceError (Option Element) := do
  let project ← s.loaded
  let unit ← s.unitOf project path
  return project.query.elementAt? unit line column

end Service

end JavaAtlas
