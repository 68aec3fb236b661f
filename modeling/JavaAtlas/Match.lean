import JavaAtlas.Element

/-!
Search results: the role in which a name occurs, the shapes of a query and the categories that
answer them.
-/

namespace JavaAtlas

/-- How an occurrence relates to the element it names. -/
inductive Role where
  | declaration
  | reference
  | read
  | write
  | readWrite
  | implementation
  | instantiation
  | cast
  | instanceTest
  | throwsClause
  | catchClause
  | methodReference
  | typeArgument
  | annotationUse
  deriving Repr, DecidableEq, Inhabited

namespace Role

def isRead : Role → Bool
  | read | readWrite => true
  | _ => false

def isWrite : Role → Bool
  | write | readWrite => true
  | _ => false

def name : Role → String
  | declaration => "declaration"
  | reference => "reference"
  | read => "read"
  | write => "write"
  | readWrite => "read_write"
  | implementation => "implementation"
  | instantiation => "instantiation"
  | cast => "cast"
  | instanceTest => "instanceof"
  | throwsClause => "throws_clause"
  | catchClause => "catch_clause"
  | methodReference => "method_reference"
  | typeArgument => "type_argument"
  | annotationUse => "annotation"

def all : List Role :=
  [declaration, reference, read, write, readWrite, implementation, instantiation, cast,
   instanceTest, throwsClause, catchClause, methodReference, typeArgument, annotationUse]

def toJson (r : Role) : Json := .str r.name

def ofJson? : Json → Option Role := Json.toCase? (all.map fun r => (r.name, r))

end Role

/-- What the index can be asked for: one category of occurrences. -/
inductive Category where
  | declarations
  | references
  | readAccesses
  | writeAccesses
  | implementors
  | annotations
  | instantiations
  | casts
  | instanceTests
  | throwsClauses
  | catchClauses
  | methodReferences
  | typeArguments
  deriving Repr, DecidableEq, Inhabited

namespace Category

def name : Category → String
  | declarations => "Declarations"
  | references => "References"
  | readAccesses => "ReadAccesses"
  | writeAccesses => "WriteAccesses"
  | implementors => "Implementors"
  | annotations => "AnnotationTypeReference"
  | instantiations => "ClassInstanceCreationTypeReference"
  | casts => "CastTypeReference"
  | instanceTests => "InstanceofTypeReference"
  | throwsClauses => "ThrowsClauseTypeReference"
  | catchClauses => "CatchTypeReference"
  | methodReferences => "MethodReferenceExpression"
  | typeArguments => "TypeArgumentTypeReference"

def all : List Category :=
  [declarations, references, readAccesses, writeAccesses, implementors, annotations,
   instantiations, casts, instanceTests, throwsClauses, catchClauses, methodReferences,
   typeArguments]

def ofName? (s : String) : Option Category := all.find? (·.name == s)

/-- The roles that belong to the category. -/
def accepts : Category → Role → Bool
  | declarations, r => r == .declaration
  | references, r => r != .declaration
  | readAccesses, r => r.isRead
  | writeAccesses, r => r.isWrite
  | implementors, r => r == .implementation
  | annotations, r => r == .annotationUse
  | instantiations, r => r == .instantiation
  | casts, r => r == .cast
  | instanceTests, r => r == .instanceTest
  | throwsClauses, r => r == .throwsClause
  | catchClauses, r => r == .catchClause
  | methodReferences, r => r == .methodReference
  | typeArguments, r => r == .typeArgument

end Category

/-- The shapes of query that callers know, one for each category. -/
inductive Shape where
  | declarations
  | allReferences
  | readAccesses
  | writeAccesses
  | implementors
  | annotationUsage
  | instantiation
  | cast
  | instanceTest
  | throwsClause
  | catchClause
  | methodReference
  | typeArgumentUsage
  deriving Repr, DecidableEq, Inhabited

namespace Shape

def name : Shape → String
  | declarations => "declarations"
  | allReferences => "all_references"
  | readAccesses => "read_accesses"
  | writeAccesses => "write_accesses"
  | implementors => "implementors"
  | annotationUsage => "annotation_usage"
  | instantiation => "instantiation"
  | cast => "cast"
  | instanceTest => "instanceof"
  | throwsClause => "throws_clause"
  | catchClause => "catch_clause"
  | methodReference => "method_reference_expr"
  | typeArgumentUsage => "type_argument_usage"

def all : List Shape :=
  [declarations, allReferences, readAccesses, writeAccesses, implementors, annotationUsage,
   instantiation, cast, instanceTest, throwsClause, catchClause, methodReference,
   typeArgumentUsage]

def category : Shape → Category
  | declarations => .declarations
  | allReferences => .references
  | readAccesses => .readAccesses
  | writeAccesses => .writeAccesses
  | implementors => .implementors
  | annotationUsage => .annotations
  | instantiation => .instantiations
  | cast => .casts
  | instanceTest => .instanceTests
  | throwsClause => .throwsClauses
  | catchClause => .catchClauses
  | methodReference => .methodReferences
  | typeArgumentUsage => .typeArguments

def toJson (s : Shape) : Json := .str s.name

def ofJson? : Json → Option Shape := Json.toCase? (all.map fun s => (s.name, s))

end Shape

/-- Which accesses a search for references keeps. -/
inductive Access where
  | all
  | reads
  | writes
  deriving Repr, DecidableEq, Inhabited

namespace Access

def name : Access → String
  | all => "ALL"
  | reads => "READ_ACCESSES"
  | writes => "WRITE_ACCESSES"

def shape : Access → Shape
  | all => .allReferences
  | reads => .readAccesses
  | writes => .writeAccesses

def toJson (a : Access) : Json := .str a.name

def ofJson? : Json → Option Access :=
  Json.toCase? ([all, reads, writes].map fun a => (a.name, a))

end Access

/-- A search restricted to some types, or to nothing. -/
inductive SearchScope where
  | project
  | types (ids : List String)
  deriving Repr, DecidableEq

/-- Whether the scope holds what lies in the given type. -/
def SearchScope.encloses : SearchScope → Option String → Bool
  | project, _ => true
  | types ids, some id => ids.contains id
  | types _, none => false

/-- One result of a search as callers see it; lines and columns count from 0. -/
structure SearchMatch where
  name : String
  elementId : String
  elementKind : ElementKind
  role : Role
  path : String
  offset : Nat
  length : Nat
  line : Nat
  column : Nat
  accurate : Bool
  deriving Repr, DecidableEq

namespace SearchMatch

def toJson (m : SearchMatch) : Json :=
  .obj [("name", .str m.name), ("element_id", .str m.elementId),
    ("element_kind", m.elementKind.toJson), ("kind", m.role.toJson), ("path", .str m.path),
    ("offset", Json.ofNat m.offset), ("length", Json.ofNat m.length),
    ("line", Json.ofNat m.line), ("column", Json.ofNat m.column), ("accurate", .bool m.accurate)]

def ofJson? (j : Json) : Option SearchMatch := do
  let [name, elementId, elementKind, role, path, offset, length, line, column, accurate] ← j.fields?
    ["name", "element_id", "element_kind", "kind", "path", "offset", "length", "line", "column",
     "accurate"] | none
  return {
    name := ← name.toStr?
    elementId := ← elementId.toStr?
    elementKind := ← ElementKind.ofJson? elementKind
    role := ← Role.ofJson? role
    path := ← path.toStr?
    offset := ← offset.toNat?
    length := ← length.toNat?
    line := ← line.toNat?
    column := ← column.toNat?
    accurate := ← accurate.toBool? }

end SearchMatch

end JavaAtlas
