import JavaAtlas.Outline.Basic
import JavaAtlas.Outline.TypeText

/-!
What a written type name means. The types around the name come first, then the imports of single
types, the package of the file, the imports on demand, and at last the names that every file sees.
-/

namespace JavaAtlas.Binding

open Outline Text

/-- The package and the imports of one file. -/
structure UnitScope where
  package : String
  imports : List Import
  deriving Repr, DecidableEq, Inhabited

/-- The meaning of a type name: a type of the project, a type known by its qualified name, or
neither. -/
inductive TypeRef where
  | project (id : String)
  | external (id : String)
  | unresolved (id : String)
  deriving Repr, DecidableEq

namespace TypeRef

def id : TypeRef → String
  | project id | external id | unresolved id => id

/-- The identifier, if it means anything. -/
def known? : TypeRef → Option String
  | project id | external id => some id
  | unresolved _ => none

def projectId? : TypeRef → Option String
  | project id => some id
  | _ => none

end TypeRef

/-- Types of the platform that need no import. -/
def platformNames : List String :=
  ["Object", "String", "Integer", "Long", "Short", "Byte", "Character", "Boolean", "Double",
   "Float", "Number", "Math", "System", "Thread", "Runnable", "Iterable", "Comparable",
   "CharSequence", "StringBuilder", "Enum", "Record", "Class", "Void", "AutoCloseable",
   "Cloneable", "Exception", "RuntimeException", "Error", "Throwable",
   "IllegalArgumentException", "IllegalStateException", "NullPointerException",
   "UnsupportedOperationException", "IndexOutOfBoundsException", "ClassCastException",
   "ArithmeticException", "InterruptedException", "CloneNotSupportedException", "Override",
   "Deprecated", "SuppressWarnings", "FunctionalInterface", "SafeVarargs"]

/-- The identifiers that an enclosing type lends a simple name to: itself, or a type declared in
it. -/
def fromEnclosing (isType : String → Bool) (name : String) (outer : String) : Option TypeRef :=
  if afterLast '.' outer = name then some (.project outer)
  else
    let nested := outer ++ "." ++ name
    if isType nested then some (.project nested) else none

/-- A qualified name, which the project may declare or not. -/
def ofQualified (isType : String → Bool) (id : String) : TypeRef :=
  if isType id then .project id else .external id

/-- The meaning of a name without points in a file, inside the given types (innermost last). -/
def resolveSimple (isType : String → Bool) (scope : UnitScope) (chain : List String)
    (name : String) : TypeRef :=
  let enclosing := chain.reverse.findSome? (fromEnclosing isType name)
  let single := scope.imports.find? fun i =>
    !i.onDemand && !i.isStatic && (endsIn ("." ++ name) i.path || i.path == name)
  let samePackage := if scope.package.isEmpty then name else scope.package ++ "." ++ name
  let onDemand := (scope.imports.filter fun i => i.onDemand && !i.isStatic).map fun i =>
    i.path ++ "." ++ name
  match enclosing, single with
  | some ref, _ => ref
  | none, some i => ofQualified isType i.path
  | none, none =>
    match (samePackage :: onDemand).find? isType with
    | some id => .project id
    | none =>
      if platformNames.contains name then .external ("java.lang." ++ name) else .unresolved name

/-- The meaning of a written type. A name with points is a type of the project, or is found from
its first part. -/
def resolveType (isType : String → Bool) (scope : UnitScope) (chain : List String)
    (written : String) : TypeRef :=
  let name := eraseType written
  match cutFirst? '.' name with
  | none => resolveSimple isType scope chain name
  | some (head, rest) =>
    if isType name then .project name
    else match (resolveSimple isType scope chain head).known? with
      | some outer => ofQualified isType (outer ++ "." ++ rest)
      | none => .external name

end JavaAtlas.Binding
