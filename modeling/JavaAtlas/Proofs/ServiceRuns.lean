import JavaAtlas.Service
import Mathlib.Tactic.Lemma

/-! Whole runs: the calls that a service gets one after another, and the steps that are taken on a
workspace directly. -/

namespace JavaAtlas

/-- What callers can ask of a service. -/
inductive Question where
  | status
  | symbols (pattern : String) (family : Option ElementFamily) (most : Nat)
  | shape (id : String) (shape : Shape) (most : Nat)
  | references (id : String) (access : Access) (most : Nat)
  | implementations (id : String) (most : Nat)
  | hierarchy (id : String)
  | supertypes (id : String)
  | subtypes (id : String)
  | element (id : String)
  | offset (path : String) (line column : Nat)
  | line (path : String) (offset : Nat)
  | column (path : String) (offset : Nat)
  | elementAt (path : String) (line column : Nat)
  deriving Repr, DecidableEq

/-- What they learn. -/
inductive Answer where
  | status (status : ProjectStatus)
  | hits (hits : List SearchMatch)
  | hierarchy (hierarchy : TypeHierarchy)
  | elements (elements : List Element)
  | element (element : Element)
  | found (element : Option Element)
  | number (value : Nat)
  deriving Repr, DecidableEq

inductive Call where
  | load (path : String) (now : Nat)
  | ask (question : Question)
  | shutdown
  deriving Repr, DecidableEq

namespace Service

def answer (s : Service) : Question → Except ServiceError Answer
  | .status => s.status.map .status
  | .symbols pattern family most => (s.searchSymbols pattern family most).map .hits
  | .shape id shape most => (s.findByShape id shape most).map .hits
  | .references id access most => (s.findReferences id access most).map .hits
  | .implementations id most => (s.findImplementations id most).map .hits
  | .hierarchy id => (s.typeHierarchy id).map .hierarchy
  | .supertypes id => (s.allSupertypes id).map .elements
  | .subtypes id => (s.allSubtypes id).map .elements
  | .element id => (s.element id).map .element
  | .offset path line column => (s.offsetFor path line column).map .number
  | .line path offset => (s.lineFor path offset).map .number
  | .column path offset => (s.columnFor path offset).map .number
  | .elementAt path line column => (s.elementAt path line column).map .found

/-- All that a load can come to: it is refused, the tree cannot be put into the workspace, or the
project becomes the current one. -/
inductive Loads (s : Service) (path : String) (now : Nat) :
    Except ServiceError ProjectSummary × Service → Prop
  | refused {e : ServiceError} : s.checkLoad path = .error e → Loads s path now (.error e, s)
  | unbound {root : String} {assembly : Classpath.Assembly} {files : FileTree} {e : WorkspaceError}
      {workspace : Workspace} : s.checkLoad path = .ok () → s.workspace.files.normalize path = root →
      s.assembler.assemble s.workspace.files root = (assembly, files) →
      (Workspace.bind root assembly.entries).run { s.workspace with files } =
        (.error e, workspace) →
      Loads s path now (.error e.toServiceError, { s with workspace })
  | loaded {root : String} {assembly : Classpath.Assembly} {files : FileTree} {bound : BoundProject}
      {workspace : Workspace} : s.checkLoad path = .ok () → s.workspace.files.normalize path = root →
      s.assembler.assemble s.workspace.files root = (assembly, files) →
      (Workspace.bind root assembly.entries).run { s.workspace with files } =
        (.ok bound, workspace) →
      Loads s path now ((.ok (s.loadedFrom workspace.files root assembly bound now).summary),
        { s with workspace }.replaceCurrent (s.loadedFrom workspace.files root assembly bound now))

theorem loads (s : Service) (path : String) (now : Nat) : s.Loads path now (s.load path now) := by
  cases hc : s.checkLoad path with
  | error e =>
    rw [load, hc]
    exact .refused hc
  | ok _ =>
    cases ha : s.assembler.assemble s.workspace.files (s.workspace.files.normalize path) with
    | mk assembly files =>
      rcases hb : (Workspace.bind (s.workspace.files.normalize path) assembly.entries).run
        { s.workspace with files } with ⟨e | bound, workspace⟩
      · simp only [load, hc, ha, hb]
        exact .unbound hc rfl ha hb
      · simp only [load, hc, ha, hb]
        exact .loaded hc rfl ha hb

/-- The service after a call. -/
def after (s : Service) : Call → Service
  | .load path now => (s.load path now).2
  | .ask _ => s
  | .shutdown => s.shutdown

def afterAll (s : Service) (calls : List Call) : Service := calls.foldl after s

end Service

namespace Workspace

inductive Step where
  | bind (treeRoot : String) (entries : List ClasspathEntry)
  /-- Takes out the project that a tree was put in as. -/
  | unbind (treeRoot : String)
  | teardown
  deriving Repr, DecidableEq

def after (w : Workspace) : Step → Workspace
  | .bind treeRoot entries => ((bind treeRoot entries).run w).2
  | .unbind treeRoot => w.unbind (projectName treeRoot)
  | .teardown => w.teardown

def afterAll (w : Workspace) (steps : List Step) : Workspace := steps.foldl after w

end Workspace

end JavaAtlas
