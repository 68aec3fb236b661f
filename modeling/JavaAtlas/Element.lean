import JavaAtlas.Json
import JavaAtlas.Text.Split

/-!
Declared elements: types, methods and fields, each with an identifier. The identifier of a type is
its qualified name, that of a field is `Type#name`, that of a method or constructor is
`Type#name(Param,...)`.
-/

namespace JavaAtlas

inductive ElementKind where
  | package
  | classType
  | interfaceType
  | enumType
  | recordType
  | annotationType
  | method
  | constructor
  | field
  | enumConstant
  deriving Repr, DecidableEq, Inhabited

namespace ElementKind

def isType : ElementKind → Bool
  | classType | interfaceType | enumType | recordType | annotationType => true
  | _ => false

def isMethod : ElementKind → Bool
  | method | constructor => true
  | _ => false

def isField : ElementKind → Bool
  | field | enumConstant => true
  | _ => false

def name : ElementKind → String
  | package => "package"
  | classType => "class"
  | interfaceType => "interface"
  | enumType => "enum"
  | recordType => "record"
  | annotationType => "annotation"
  | method => "method"
  | constructor => "constructor"
  | field => "field"
  | enumConstant => "enumconstant"

def all : List ElementKind :=
  [package, classType, interfaceType, enumType, recordType, annotationType, method, constructor,
   field, enumConstant]

def toJson (k : ElementKind) : Json := .str k.name

def ofJson? : Json → Option ElementKind := Json.toCase? (all.map fun k => (k.name, k))

end ElementKind

/-- The family of elements that a search may be narrowed to. -/
inductive ElementFamily where
  | type
  | method
  | field
  deriving Repr, DecidableEq, Inhabited

namespace ElementFamily

def accepts : ElementFamily → ElementKind → Bool
  | type, k => k.isType
  | method, k => k.isMethod
  | field, k => k.isField

def name : ElementFamily → String
  | type => "TYPE"
  | method => "METHOD"
  | field => "FIELD"

def all : List ElementFamily := [type, method, field]

def toJson (f : ElementFamily) : Json := .str f.name

def ofJson? : Json → Option ElementFamily := Json.toCase? (all.map fun f => (f.name, f))

end ElementFamily

/-- A source file, by its location in the workspace. -/
structure UnitRef where
  path : String
  deriving Repr, DecidableEq, Inhabited

namespace UnitRef

def toJson (u : UnitRef) : Json := .obj [("path", .str u.path)]

def ofJson? (j : Json) : Option UnitRef := do
  let [path] ← j.fields? ["path"] | none
  return ⟨← path.toStr?⟩

end UnitRef

/-- A declared element, or a type known by name only (`binary`). -/
structure Element where
  id : String
  name : String
  kind : ElementKind
  declaringType : Option String
  unit : Option UnitRef
  nameOffset : Option Nat
  nameLength : Nat
  binary : Bool
  deriving Repr, DecidableEq, Inhabited

namespace Element

/-- A type that has no source in the project. -/
def binaryType (qualifiedName : String) : Element where
  id := qualifiedName
  name := Text.afterLast '.' qualifiedName
  kind := .classType
  declaringType := none
  unit := none
  nameOffset := none
  nameLength := 0
  binary := true

def toJson (e : Element) : Json :=
  .obj [("id", .str e.id), ("name", .str e.name), ("kind", e.kind.toJson),
    ("declaring_type", Json.ofOption .str e.declaringType),
    ("unit", Json.ofOption UnitRef.toJson e.unit),
    ("name_offset", Json.ofOption Json.ofNat e.nameOffset),
    ("name_length", Json.ofNat e.nameLength), ("binary", .bool e.binary)]

def ofJson? (j : Json) : Option Element := do
  let [id, name, kind, declaringType, unit, nameOffset, nameLength, binary] ← j.fields?
    ["id", "name", "kind", "declaring_type", "unit", "name_offset", "name_length", "binary"]
    | none
  return {
    id := ← id.toStr?
    name := ← name.toStr?
    kind := ← ElementKind.ofJson? kind
    declaringType := ← declaringType.toOption? Json.toStr?
    unit := ← unit.toOption? UnitRef.ofJson?
    nameOffset := ← nameOffset.toOption? Json.toNat?
    nameLength := ← nameLength.toNat?
    binary := ← binary.toBool? }

end Element

/-- A type with all its supertypes and subtypes. -/
structure TypeHierarchy where
  focus : Element
  supertypes : List Element
  subtypes : List Element
  deriving Repr, DecidableEq

namespace TypeHierarchy

def toJson (h : TypeHierarchy) : Json :=
  .obj [("focus", h.focus.toJson), ("supertypes", Json.ofList Element.toJson h.supertypes),
    ("subtypes", Json.ofList Element.toJson h.subtypes)]

def ofJson? (j : Json) : Option TypeHierarchy := do
  let [focus, supertypes, subtypes] ← j.fields? ["focus", "supertypes", "subtypes"] | none
  return {
    focus := ← Element.ofJson? focus
    supertypes := ← supertypes.toList? Element.ofJson?
    subtypes := ← subtypes.toList? Element.ofJson? }

end TypeHierarchy

/-- `pkg.Type#name(int)` is named `pkg.Type.name`; the identifier of a type is its own name. -/
def qualifiedName (id : String) : String :=
  match Text.cutFirst? '#' id with
  | some (owner, member) => owner ++ "." ++ Text.beforeFirst '(' member
  | none => id

/-- The number of parameters that the identifier of a method spells out. -/
def arityOfId? (id : String) : Option Nat :=
  match Text.cutFirst? '(' id with
  | none => none
  | some (_, tail) =>
    match tail.toList.reverse with
    | ')' :: params =>
      some (if params.isEmpty then 0 else (Text.splitChars ',' params).length)
    | _ => none

end JavaAtlas
