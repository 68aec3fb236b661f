import JavaAtlas.Engine
import JavaAtlas.PathMap
import JavaAtlas.Position

/-!
The questions that callers ask of a loaded project, and their answers in callers' terms.
-/

namespace JavaAtlas

/-- An index with the map between its paths and those of callers. -/
structure Query where
  index : Index
  paths : PathMap
  deriving Repr

namespace Query

variable (q : Query)

/-- A result as callers see it. -/
def present (hit : Hit) : SearchMatch :=
  let text := (q.index.unit? hit.unit.path).map (·.source)
  { name := hit.element.name
    elementId := hit.element.id
    elementKind := hit.element.kind
    role := hit.role
    path := q.paths.report hit.unit.path
    offset := hit.offset
    length := hit.length
    line := (text.map (Position.lineFor · hit.offset)).getD 0
    column := (text.map (Position.columnFor · hit.offset)).getD 0
    accurate := hit.accurate }

/-- Keeps a result that is wanted, and asks for more while there are fewer than `most`. -/
def collect (wanted : Hit → Bool) (most : Nat) (kept : List SearchMatch) (hit : Hit) :
    List SearchMatch × Bool :=
  let kept := if wanted hit then kept ++ [q.present hit] else kept
  (kept, kept.length < most)

/-- The first `most` results for a target; none when it cannot be searched for. -/
def run (target : SearchTarget) (category : Category) (scope : SearchScope) (most : Nat) :
    List SearchMatch :=
  if most = 0 then []
  else
    match q.index.searchPattern? category target with
    | none => []
    | some pattern => q.index.request pattern scope (q.collect (fun _ => true) most) []

def searchSymbols (pattern : String) (family : Option ElementFamily) (most : Nat) :
    List SearchMatch :=
  q.run (.name pattern family) .declarations .project most

def findByShape (e : Element) (shape : Shape) (most : Nat) : List SearchMatch :=
  q.run (.element e) shape.category .project most

def findReferences (e : Element) (access : Access) (most : Nat) : List SearchMatch :=
  q.findByShape e access.shape most

/-- The place where an element is declared. -/
def declarationMatch? (e : Element) : Option SearchMatch :=
  e.unit.map fun unit => q.present {
    element := e
    unit
    offset := e.nameOffset.getD 0
    length := e.nameLength
    role := .declaration
    accurate := true }

/-- Whether a result declares a method like `e`: of its name and number of parameters. -/
def isLike (e : Element) (hit : Hit) : Bool :=
  hit.element.kind == .method && hit.element.name == e.name &&
    arityOfId? hit.element.id == arityOfId? e.id

/-- The subtypes of a type, or the methods like a method in the subtypes of its type. -/
def findImplementations (e : Element) (most : Nat) : List SearchMatch :=
  if e.kind.isType then
    ((q.index.allSubtypes e).filterMap q.declarationMatch?).take most
  else if e.kind != .method then []
  else
    match e.declaringType.bind q.index.declaration? with
    | none => []
    | some owner =>
      let subtypes := (q.index.allSubtypes owner.element).map (·.id)
      if subtypes.isEmpty then []
      else
        match q.index.searchPattern? .declarations (.name e.name (some .method)) with
        | none => []
        | some pattern =>
          q.index.request pattern (.types subtypes) (q.collect (isLike e) most) []

def allSupertypes (e : Element) : List Element := q.index.allSupertypes rootType e

def hierarchy (e : Element) : TypeHierarchy where
  focus := e
  supertypes := q.allSupertypes e
  subtypes := q.index.allSubtypes e

/-- The file at a path of the caller. -/
def unit? (normalize : String → String) (path : String) : Option IndexedUnit :=
  (q.paths.toWorkspace? normalize path).bind q.index.unit?

/-- The element that is named at a line and column, else the innermost one around. -/
def elementAt? (unit : IndexedUnit) (line column : Nat) : Option Element :=
  let offset := Position.offsetFor unit.source line column
  match q.index.select unit.ref.path offset 0 with
  | e :: _ => some e
  | [] => q.index.containing? unit.ref.path offset

end Query

end JavaAtlas
