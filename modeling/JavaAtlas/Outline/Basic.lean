import JavaAtlas.Match

/-!
What one source file says on its own: its package and imports, the elements it declares, and the
names it mentions, with enough of their surroundings to find out later what they mean.
-/

namespace JavaAtlas.Outline

/-- One `import` line. -/
structure Import where
  path : String
  onDemand : Bool
  isStatic : Bool
  deriving Repr, DecidableEq

/-- A declared element. `typeText` is the type of a field or the result of a method as written,
`superTexts` are the supertypes as written, `chain` are the types around it, innermost last. -/
structure Declaration where
  element : Element
  start : Nat
  stop : Nat
  arity : Nat
  varargs : Bool
  typeText : Option String
  superTexts : List String
  chain : List String
  unit : Nat
  deriving Repr, DecidableEq

namespace Declaration

def id (d : Declaration) : String := d.element.id

/-- Whether a call with that many arguments fits. A variable arity takes any number from one below
the declared one. -/
def acceptsArity (d : Declaration) (args : Nat) : Bool :=
  if d.varargs then d.arity ≤ args + 1 else args == d.arity

/-- The type that the declaration is or belongs to. -/
def owner? (d : Declaration) : Option String :=
  if d.element.kind.isType then some d.id else d.element.declaringType

end Declaration

/-- What stands before the point of a member access. -/
inductive Receiver where
  | implicit
  | this
  | super
  | type (written : String)
  | name (name : String)
  | unknown
  deriving Repr, DecidableEq

/-- What a mention names, as written. -/
inductive Target where
  | type (name : String)
  | name (name : String)
  | field (name : String) (receiver : Receiver)
  | method (name : String) (arity : Nat) (receiver : Receiver)
  | constructor (typeName : String) (arity : Nat)
  | methodRef (name : String) (receiver : Receiver)
  deriving Repr, DecidableEq

/-- A name at a place of the file. `enclosing` is the innermost declaration around it, by its
position among the declarations of the file. -/
structure Mention where
  offset : Nat
  length : Nat
  role : Role
  target : Target
  enclosing : Option Nat
  chain : List String
  deriving Repr, DecidableEq

end JavaAtlas.Outline

namespace JavaAtlas

open Outline

/-- All that one source file says. -/
structure Outline where
  unit : UnitRef
  source : String
  package : String
  imports : List Import
  declarations : List Declaration
  mentions : List Mention
  deriving Repr

end JavaAtlas
