import JavaAtlas.Classpath.Assembly
import JavaAtlas.Engine
import JavaAtlas.PathMap
import JavaAtlas.Session

/-!
The projects of a session. Each has a directory with `links`, where a link or a copy stands for each
of its source directories, and `bin` for compiled classes, and is registered with the engine.
-/

namespace JavaAtlas

/-- What can go wrong with the files of a session or the register of its projects. -/
inductive WorkspaceError where
  | io (error : IoError)
  | session (error : SessionError)
  | engine (error : EngineError)
  | unreadable (source path : String) (error : IoError)
  deriving Repr, DecidableEq

namespace WorkspaceError

def message : WorkspaceError → String
  | io error => "I/O error: " ++ error.message
  | session error => "Session workspace error: " ++ error.message
  | engine error => "Engine error: " ++ error.toServiceError.message
  | unreadable source path error =>
    "Internal error: cannot copy " ++ source ++ ": IO error for operation on " ++ path ++ ": " ++
      error.message

/-- The error as callers of a service see it. -/
def toServiceError : WorkspaceError → ServiceError
  | engine error => error.toServiceError
  | error => .internal error.message

end WorkspaceError

/-- How a source directory gets into the workspace: by a link, or by a copy where no link can be
made; or by a copy in any case. -/
inductive LinkMode where
  | link
  | copy
  deriving Repr, DecidableEq

structure Workspace where
  files : FileTree
  session : Session
  engine : Engine
  mode : LinkMode
  deriving Repr

/-- A project with its place in the workspace. -/
structure BoundProject where
  name : String
  location : String
  output : String
  roots : List LinkedRoot
  classpath : List ClasspathEntry
  deriving Repr, DecidableEq

namespace Workspace

/-- The name with an underscore for each character that may not stand in a name. -/
def sanitize (name : String) : String :=
  name.map fun c => if c.isAlphanum || c == '_' then c else '_'

/-- A name that is not empty, or else the given one. -/
def orName (other name : String) : String := if name.isEmpty then other else name

/-- The name of the project for a tree: that of its directory. -/
def projectName (treeRoot : String) : String :=
  orName "project" (sanitize ((Path.fileName? treeRoot).getD ""))

/-- The name of the link for a source directory: its path from the root of the tree. -/
def linkName (relative : String) : String := orName "root" (sanitize (Path.toSlash relative))

/-- The base, or the base with the least number from 2 on that makes it new. -/
def uniqueName (taken : List String) (base : String) : String :=
  let numbered := (List.range (taken.length + 1)).map fun i => base ++ "_" ++ toString (i + 2)
  ((base :: numbered).find? (!taken.contains ·)).getD base

/-- Steps that change a workspace and may stop at an error; what was done before it stays done. -/
abbrev Action := ExceptT WorkspaceError (StateM Workspace)

/-- Changes the files; the change may be done in part when it fails. -/
def edit (change : FileTree → Except IoError Unit × FileTree) : Action Unit := do
  let w ← get
  let (result, files) := change w.files
  set { w with files }
  match result with
  | .ok _ => pure ()
  | .error e => throw (.io e)

/-- What a copy of a directory is made of, by paths from there. A link at the very start is
followed, any other is left out. -/
def copyItems (fs : FileTree) (source : String) : Except IoError (List (String × FileEntry)) := do
  let loc ← fs.locateLink source
  match fs.entry? loc with
  | some (.link _) => do
    discard (fs.status source)
    return fs.listing source
  | some .dir => return ("", .dir) :: fs.listing source
  | some entry => return [("", entry)]
  | none => .error .notFound

/-- Copies one entry, given by its path from the source. -/
def copyItem (source target : String) (item : String × FileEntry) : Action Unit :=
  match item with
  | (path, .dir) => edit (·.createDirAll (Path.join target path))
  | (path, .file _ _) =>
    edit fun fs => fs.attempt (fs.copyFile (Path.join source path) (Path.join target path))
  | (_, .link _) => pure ()

/-- Copies the files and directories of a tree. -/
def copyTree (source target : String) : Action Unit := do
  match copyItems (← get).files source with
  | .error e => throw (.unreadable source source e)
  | .ok items => items.forM (copyItem source target)

/-- Makes the link or the copy that stands for a source directory. -/
def materialize (source target : String) : Action Unit := do
  let w ← get
  match w.mode, w.files.createLink source target with
  | .link, .ok files => set { w with files }
  | _, _ => copyTree source target

/-- Puts the source directories of a class path into `dir`. The names that are `taken` are not
used again. -/
def linkEntries (dir : String) :
    List String → List ClasspathEntry → Action (List LinkedRoot × List ClasspathEntry)
  | _, [] => pure ([], [])
  | taken, .source root :: rest => do
    let name := uniqueName taken (linkName root.relative)
    let link := Path.join dir name
    materialize root.path link
    let (roots, entries) ← linkEntries dir (name :: taken) rest
    pure (⟨name, link, root.path⟩ :: roots, .source { root with path := link } :: entries)
  | taken, entry :: rest => do
    let (roots, entries) ← linkEntries dir taken rest
    pure (roots, entry :: entries)

/-- Forgets a project and takes its directory away. -/
def unbind (w : Workspace) (name : String) : Workspace :=
  { w with
    engine := w.engine.delete name
    files := w.files.removeTree (w.session.projectDir name) }

/-- Registers a project with the engine. -/
def register (project : Project) : Action Unit := do
  let w ← get
  match w.engine.create project with
  | .ok engine => set { w with engine }
  | .error e => throw (.engine e)

/-- Makes the directory of a project with all that stands in it, and registers the project. -/
def build (name location : String) (entries : List ClasspathEntry) : Action BoundProject := do
  let links := Path.join location "links"
  let output := Path.join location "bin"
  edit (·.createDirAll links)
  edit (·.createDirAll output)
  let (roots, classpath) ← linkEntries links [] entries
  register { name, location, output, classpath, index? := none }
  return { name, location, output, roots, classpath }

/-- Puts a tree into the workspace as a project, in place of one of the same name. -/
def bind (treeRoot : String) (entries : List ClasspathEntry) : Action BoundProject := do
  let session := (← get).session
  if session.tornDown then throw (.session (.tornDown session.path))
  let name := projectName treeRoot
  modify (·.unbind name)
  build name (session.projectDir name) entries

/-- Ends the session. -/
def teardown (w : Workspace) : Workspace :=
  let (session, files) := w.session.teardown w.files
  { w with session, files }

end Workspace

end JavaAtlas
