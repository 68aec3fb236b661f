import JavaAtlas.Binding.TypeRef

/-!
All that the files of a project declare, and what their mentions mean. A member is looked for in
the type of its receiver and then in the supertypes that the project declares, nearest first. A
member of something whose type is not known is bound only when the project has just one candidate,
and then not accurately.
-/

namespace JavaAtlas.Binding

open Outline Text

/-- A mention whose meaning was found. Several targets mean that the choice between them is open. -/
structure Use where
  unit : Nat
  offset : Nat
  length : Nat
  role : Role
  targets : List String
  targetName : String
  family : ElementFamily
  enclosing : Option Nat
  enclosingType : Option String
  accurate : Bool
  deriving Repr, DecidableEq

/-- The declarations of a project with the direct supertypes of its types, last declared first. -/
structure Lexicon where
  scopes : List UnitScope
  declarations : List Declaration
  supertypes : List (String × List TypeRef)
  deriving Repr

namespace Lexicon

/-- Whether the project declares a type of that identifier. -/
def declaresType (declarations : List Declaration) (id : String) : Bool :=
  declarations.any fun d => d.element.kind.isType && d.id == id

/-- The supertypes of a type as its file means them, itself left out. -/
def supertypesIn (scopes : List UnitScope) (declarations : List Declaration) (d : Declaration) :
    List TypeRef :=
  (d.superTexts.map (resolveType (declaresType declarations) ((scopes[d.unit]?).getD default)
    d.chain)).filter (·.id != d.id)

def ofDeclarations (scopes : List UnitScope) (declarations : List Declaration) : Lexicon where
  scopes
  declarations
  supertypes := ((declarations.filter (·.element.kind.isType)).map fun d =>
    (d.id, supertypesIn scopes declarations d)).reverse

variable (lex : Lexicon)

def resolve (written : String) (unit : Nat) (chain : List String) : TypeRef :=
  resolveType (declaresType lex.declarations) ((lex.scopes[unit]?).getD default) chain written

/-- The direct supertypes of a type, in the order in which they are written. -/
def supertypesOf (id : String) : List TypeRef := (lex.supertypes.lookup id).getD []

/-- The supertypes of a type that the project declares. -/
def projectSupertypes (id : String) : List String := (lex.supertypesOf id).filterMap (·.projectId?)

/-- Takes types from a queue, each once, and queues their supertypes behind the others. -/
def lineageFrom : Nat → List String → List String → List String
  | 0, _, _ => []
  | _ + 1, _, [] => []
  | fuel + 1, seen, id :: queue =>
    if seen.contains id then lineageFrom fuel seen queue
    else id :: lineageFrom fuel (id :: seen) (queue ++ lex.projectSupertypes id)

/-- Enough steps for any walk along supertypes. -/
def lineageFuel : Nat := lex.supertypes.foldl (fun n t => n + t.2.length + 1) 2

/-- The type and the supertypes of it that the project declares, nearest first, each once. -/
def lineage (id : String) : List String := lex.lineageFrom lex.lineageFuel [] [id]

/-- The members of a type, in the order of the declarations. -/
def membersOf (id : String) : List Declaration :=
  lex.declarations.filter fun d => !d.element.kind.isType && d.element.declaringType == some id

def isField (name : String) (d : Declaration) : Bool :=
  d.element.kind.isField && d.element.name == name

/-- Whether a call with that many arguments, or any call, may mean the method. -/
def isMethod (name : String) (arity : Option Nat) (d : Declaration) : Bool :=
  d.element.kind == .method && d.element.name == name && arity.all d.acceptsArity

def isConstructor (arity : Option Nat) (d : Declaration) : Bool :=
  d.element.kind == .constructor && arity.all d.acceptsArity

/-- The nearest field of that name. -/
def findField? (id name : String) : Option Declaration :=
  (lex.lineage id).findSome? fun type => (lex.membersOf type).find? (isField name)

/-- The members of a type that satisfy a test. -/
def membersWhere (test : Declaration → Bool) (id : String) : List Declaration :=
  (lex.membersOf id).filter test

/-- The first list that is not empty. -/
def firstNonempty? {α β : Type} (f : α → List β) (xs : List α) : Option (List β) :=
  (xs.map f).find? (!·.isEmpty)

/-- The fitting methods of the nearest type that has any. -/
def findMethods (name : String) (arity : Option Nat) (id : String) : List Declaration :=
  (firstNonempty? (lex.membersWhere (isMethod name arity)) (lex.lineage id)).getD []

/-- The nearest field of that name, from the innermost type outwards. -/
def fieldInChain? (name : String) (chain : List String) : Option Declaration :=
  chain.reverse.findSome? fun id => lex.findField? id name

/-- The type of a field, as the file that declares it means it. -/
def fieldType? (d : Declaration) : Option TypeRef :=
  d.typeText.map fun written => lex.resolve written d.unit d.chain

/-- The types in which to look for a member of a receiver, or nothing if its type is not known. -/
def receiverTypes? (receiver : Receiver) (unit : Nat) (chain : List String) :
    Option (List String) :=
  match receiver with
  | .implicit => some chain.reverse
  | .this => chain.getLast?.map ([·])
  | .super => chain.getLast?.map fun id => (lex.supertypesOf id).map (·.id)
  | .type written => (lex.resolve written unit chain).known?.map ([·])
  | .name name =>
    match lex.fieldInChain? name chain with
    | some field => ((lex.fieldType? field).bind (·.known?)).map ([·])
    | none => (lex.resolve name unit chain).known?.map ([·])
  | .unknown => none

/-- The only declaration that satisfies a test, if there is just one. -/
def unique? (test : Declaration → Bool) : Option Declaration :=
  match lex.declarations.filter test with
  | [d] => some d
  | _ => none

/-- What a mention was found to mean: members of one family, or a type. -/
inductive Meaning where
  | type (ref : TypeRef)
  | members (family : ElementFamily) (members : List Declaration) (accurate : Bool)
  deriving Repr

/-- The members that a mention means, where only a choice of one counts as accurate. -/
def Meaning.methods (members : List Declaration) : Meaning :=
  .members .method members (members.length == 1)

/-- The meaning of a method or constructor named in the types of a receiver; when the types are not
known, the only such method of the project. -/
def methodMeaning? (types : Option (List String)) (candidates : String → List Declaration)
    (anywhere : Declaration → Bool) : Option Meaning :=
  match types with
  | some types => (firstNonempty? candidates types).map Meaning.methods
  | none => (lex.unique? anywhere).map fun d => .members .method [d] false

/-- The meaning of a mention in a file. -/
def meaning? (unit : Nat) (chain : List String) : Target → Option Meaning
  | .type name => some (.type (lex.resolve name unit chain))
  | .name name =>
    match lex.fieldInChain? name chain with
    | some field => some (.members .field [field] true)
    | none =>
      match lex.resolve name unit chain with
      | .unresolved _ => none
      | ref => some (.type ref)
  | .field name receiver =>
    match lex.receiverTypes? receiver unit chain with
    | some types =>
      (types.findSome? (lex.findField? · name)).map fun d => .members .field [d] true
    | none => (lex.unique? (isField name)).map fun d => .members .field [d] false
  | .method name arity receiver =>
    lex.methodMeaning? (lex.receiverTypes? receiver unit chain)
      (lex.findMethods name (some arity)) (isMethod name (some arity))
  | .constructor typeName arity =>
    match lex.resolve typeName unit chain with
    | .project id =>
      match lex.membersWhere (isConstructor (some arity)) id with
      | [] => none
      | found => some (Meaning.methods found)
    | _ => none
  | .methodRef name receiver =>
    let candidates := if name = "new" then lex.membersWhere (isConstructor none)
      else lex.findMethods name none
    lex.methodMeaning? (lex.receiverTypes? receiver unit chain) candidates (isMethod name none)

/-- Binds a mention of a file whose declarations begin at position `offset` of all declarations. A
plain name that means a type is a reference to it. -/
def bind? (m : Mention) (unit offset : Nat) : Option Use :=
  (lex.meaning? unit m.chain m.target).map fun meaning =>
    let enclosing := m.enclosing.map (· + offset)
    let enclosingType := m.chain.getLast?
    match meaning with
    | .type ref => {
        unit, offset := m.offset, length := m.length
        role := match m.target with
          | .name _ => .reference
          | _ => m.role
        targets := [ref.id]
        targetName := afterLast '.' ref.id
        family := .type
        enclosing, enclosingType
        accurate := ref.known?.isSome }
    | .members family members accurate => {
        unit, offset := m.offset, length := m.length, role := m.role
        targets := members.map (·.id)
        targetName := (members.head?.map (·.element.name)).getD ""
        family, enclosing, enclosingType, accurate }

end Lexicon

end JavaAtlas.Binding
