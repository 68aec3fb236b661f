import JavaAtlas.Outline.Basic
import JavaAtlas.Outline.TypeText
import JavaAtlas.Syntax.Tree

/-!
Reading the outline of a source file off its syntax tree. The walk carries the place it has come to
(the types, the declaration and the nodes around it) and gathers declarations and mentions; the
names of local variables and type parameters live in scopes that end with the node that opens them.
-/

namespace JavaAtlas.Outline

open Syntax Text

/-- A name that is bound inside the file and hides fields and types of that name. A variable keeps
its declared type, if one is written. -/
inductive Local where
  | variable (written : Option String)
  | typeParameter
  deriving Repr, DecidableEq

abbrev Scope := List (String × Local)

/-- What the walk has gathered so far. The scopes are listed innermost first. -/
structure Gathered where
  package : String
  imports : Array Import
  declarations : Array Declaration
  mentions : Array Mention
  scopes : List Scope

/-- Where the walk stands. `trail` are the nodes around, nearest first. -/
structure Place where
  source : List Char
  unit : UnitRef
  unitIndex : Nat
  chain : List String
  owner : Option Nat
  anonymous : Nat
  trail : List Node

/-- The kind of the first node. -/
def headKind? (ns : List Node) : Option Kind := ns.head?.map Node.kind

/-- What to do at a node. -/
abbrev Visitor := Place → Node → Gathered → Gathered

namespace Place

def inside (p : Place) (n : Node) : Place := { p with trail := n :: p.trail }

def text (p : Place) (n : Node) : String := slice p.source n.start n.stop

def typeId? (p : Place) : Option String := p.chain.getLast?

def withOwner (p : Place) (index : Nat) : Place := { p with owner := some index }

def parentKind? (p : Place) : Option Kind := headKind? p.trail

end Place

namespace Gathered

def empty : Gathered where
  package := ""
  imports := #[]
  declarations := #[]
  mentions := #[]
  scopes := [[]]

/-- Binds a name in the innermost scope. -/
def bind (g : Gathered) (name : String) (l : Local) : Gathered :=
  match g.scopes with
  | scope :: outer => { g with scopes := ((name, l) :: scope) :: outer }
  | [] => g

/-- The innermost binding of a name. -/
def local? (g : Gathered) (name : String) : Option Local :=
  g.scopes.findSome? (·.lookup name)

/-- Runs a walk in a scope of its own. -/
def inScope (walk : Gathered → Gathered) (g : Gathered) : Gathered :=
  { walk { g with scopes := [] :: g.scopes } with scopes := g.scopes }

def record (g : Gathered) (p : Place) (anchor : Node) (role : Role) (target : Target) : Gathered :=
  { g with mentions := g.mentions.push {
      offset := anchor.start
      length := anchor.length
      role
      target
      enclosing := p.owner
      chain := p.chain } }

def declare (g : Gathered) (d : Declaration) : Gathered :=
  { g with declarations := g.declarations.push d }

end Gathered

/-- A declaration of the given kind at a node, with nothing known yet but its name. -/
def declarationAt (p : Place) (n nameNode : Node) (id : String) (kind : ElementKind) :
    Declaration where
  element := {
    id
    name := p.text nameNode
    kind
    declaringType := p.typeId?
    unit := some p.unit
    nameOffset := some nameNode.start
    nameLength := nameNode.length
    binary := false }
  start := n.start
  stop := n.stop
  arity := 0
  varargs := false
  typeText := none
  superTexts := []
  chain := p.chain
  unit := p.unitIndex

/-- Nodes under which an identifier gives a name instead of using one. -/
def namingParents : List Kind :=
  [.classDeclaration, .interfaceDeclaration, .enumDeclaration, .recordDeclaration,
   .annotationDeclaration, .methodDeclaration, .constructorDeclaration, .compactConstructor,
   .annotationElement, .enumConstant, .formalParameter, .catchParameter, .spreadParameter,
   .receiverParameter, .inferredParameters, .labeledStatement, .breakStatement,
   .continueStatement, .scopedIdentifier, .packageDeclaration, .importDeclaration, .markerUse,
   .annotationUse, .typeParameter, .moduleDeclaration]

/-- Whether the identifier gives a name to what its parent declares. -/
def isNaming (p : Place) (n : Node) : Bool :=
  match p.parentKind? with
  | none => true
  | some kind =>
    namingParents.contains kind ||
      ([Kind.variableDeclarator, .enhancedForStatement, .resource, .instanceTest].contains kind &&
        n.slot? == some .name) ||
      (kind == .lambda && n.slot? == some .parameters) ||
      (kind == .elementPair && n.slot? == some .key)

/-- The token that names a type: `Foo` in `Foo`, `a.b.Foo`, `Foo<T>` and `Foo[]`. -/
def typeAnchor : Nat → Node → Node
  | 0, n => n
  | fuel + 1, n =>
    match n.kind with
    | .genericType | .arrayType | .annotatedType =>
      match n.named.find? fun c =>
          [Kind.typeIdentifier, .scopedType, .genericType].contains c.kind with
      | some c => typeAnchor fuel c
      | none => n
    | .scopedType => (n.named.reverse.find? (·.kind == .typeIdentifier)).getD n
    | _ => n

def anchorOf (n : Node) : Node := typeAnchor n.height n

/-- The role of a type by the part it plays in the nodes around it. -/
def typeRole : Node → List Node → Role
  | _, [] => .reference
  | n, parent :: trail =>
    match parent.kind with
    | .scopedType | .arrayType | .annotatedType => typeRole parent trail
    | .genericType => if n.kind == .typeArguments then .reference else typeRole parent trail
    | .objectCreation => if n.slot? == some .type then .instantiation else .reference
    | .cast => if n.slot? == some .type then .cast else .reference
    | .instanceTest => if n.slot? == some .right then .instanceTest else .reference
    | .recordPattern | .typePattern => .instanceTest
    | .throwsClause => .throwsClause
    | .catchType => .catchClause
    | .typeArguments | .wildcard => .typeArgument
    | .superclass => .implementation
    | .typeList =>
      match headKind? trail with
      | some .superInterfaces | some .extendsInterfaces => .implementation
      | _ => .reference
    | _ => .reference

/-- Whether a variable or field is read, written or both. -/
def accessRole (p : Place) (n : Node) : Role :=
  match p.trail with
  | [] => .read
  | parent :: _ =>
    match parent.kind with
    | .assignment =>
      if n.slot? == some .left then
        match parent.child? .operator with
        | some op => if p.text op == "=" then .write else .readWrite
        | none => .write
      else .read
    | .update => .readWrite
    | _ => .read

/-- The type of a parameter of variable arity: its first part that is neither a modifier nor the
declarator. -/
def spreadType? (n : Node) : Option Node :=
  n.named.find? fun c =>
    !([Kind.modifiers, .variableDeclarator, .markerUse, .annotationUse].contains c.kind)

/-- Number of arguments, comments not counted. -/
def argumentCount (arguments : Option Node) : Nat :=
  match arguments with
  | some n => (n.named.filter (·.kind != .comment)).length
  | none => 0

/-- How the object of a member access is written. -/
def receiverOf (p : Place) (g : Gathered) : Option Node → Receiver
  | none => .implicit
  | some object =>
    match object.kind with
    | .thisName => .this
    | .superName => .super
    | .identifier =>
      let name := p.text object
      match g.local? name with
      | some (.variable (some written)) => .type (eraseType written)
      | some _ => .unknown
      | none => .name name
    | .fieldAccess =>
      match headKind? (object.child? .object).toList, object.child? .field with
      | some .thisName, some field => .name (p.text field)
      | _, _ => .unknown
    | .typeIdentifier | .scopedType | .genericType => .type (eraseType (p.text object))
    | .objectCreation =>
      match object.child? .type with
      | some type => .type (eraseType (p.text type))
      | none => .unknown
    | .parenthesized =>
      match object.named.head? with
      | some inner =>
        if inner.kind == .cast then
          match inner.child? .type with
          | some type => .type (eraseType (p.text type))
          | none => .unknown
        else .unknown
      | none => .unknown
    | _ => .unknown

section Walk

variable (go : Visitor)

/-- Visits nodes one after the other. -/
def visitAll (p : Place) (ns : List Node) (g : Gathered) : Gathered :=
  ns.foldl (fun g n => go p n g) g

def visitChildren : Visitor := fun p n g => visitAll go (p.inside n) n.named g

/-- Visits the children that are not of the given kind. -/
def visitExcept (kind : Kind) : Visitor := fun p n g =>
  visitAll go (p.inside n) (n.named.filter (·.kind != kind)) g

def visitSlot (s : Slot) : Visitor := fun p n g =>
  match n.child? s with
  | some c => go (p.inside n) c g
  | none => g

/-- The body of a class without a name: its members are no declarations. -/
def visitAnonymousBody : Visitor := fun p n g =>
  g.inScope (visitChildren go { p with anonymous := p.anonymous + 1 } n)

def visitPackage : Visitor := fun p n g =>
  match n.named.find? fun c => [Kind.scopedIdentifier, .identifier].contains c.kind with
  | some name => { g with package := p.text name }
  | none => g

def visitImport : Visitor := fun p n g =>
  let found := n.children.foldl (fun (i : Import) c =>
    match c.kind with
    | .mark => if p.text c == "static" then { i with isStatic := true } else i
    | .asterisk => { i with onDemand := true }
    | .scopedIdentifier | .identifier => { i with path := p.text c }
    | _ => i) ⟨"", false, false⟩
  if found.path.isEmpty then g else { g with imports := g.imports.push found }

def typeKind : Kind → ElementKind
  | .interfaceDeclaration => .interfaceType
  | .enumDeclaration => .enumType
  | .recordDeclaration => .recordType
  | .annotationDeclaration => .annotationType
  | _ => .classType

/-- The supertypes as written: the superclass, then the interfaces. -/
def writtenSupers (p : Place) (n : Node) : List String :=
  n.named.flatMap fun c =>
    match c.kind with
    | .superclass => c.named.map p.text
    | .superInterfaces | .extendsInterfaces => c.named.flatMap fun list => list.named.map p.text
    | _ => []

/-- The supertype that a type has without writing it. -/
def implicitSuper? (n : Node) : Option String :=
  match typeKind n.kind with
  | .classType => if n.named.any (·.kind == .superclass) then none else some "java.lang.Object"
  | .enumType => some "java.lang.Enum"
  | .recordType => some "java.lang.Record"
  | .annotationType => some "java.lang.annotation.Annotation"
  | _ => none

/-- The components of a record are its fields. -/
def visitComponents (p : Place) (typeId : String) (parameters : Node) (g : Gathered) : Gathered :=
  parameters.named.foldl (fun g parameter =>
    match parameter.kind, parameter.child? .name, parameter.child? .type with
    | .formalParameter, some name, some type =>
      let d := declarationAt p parameter name (typeId ++ "#" ++ p.text name) .field
      let inner := ((p.inside parameters).inside parameter).withOwner g.declarations.size
      go inner type (g.declare { d with typeText := some (p.text type) })
    | _, _, _ => g) g

/-- The identifier of a type: its name after the type around it, or else after the package. -/
def typeIdIn (p : Place) (package name : String) : String :=
  match p.typeId? with
  | some outer => outer ++ "." ++ name
  | none => if package.isEmpty then name else package ++ "." ++ name

def visitType : Visitor := fun p n g =>
  match n.child? .name with
  | none => visitChildren go p n g
  | some nameNode =>
    let id := typeIdIn p g.package (p.text nameNode)
    let kind := typeKind n.kind
    let d := declarationAt p n nameNode id kind
    let supers := (implicitSuper? n).toList ++ writtenSupers p n
    let inner := { p.inside n with chain := p.chain ++ [id], owner := some g.declarations.size }
    (g.declare { d with superTexts := supers }).inScope fun g =>
      n.named.foldl (fun g c =>
        match c.kind with
        | .identifier => g
        | .formalParameters =>
          if kind == .recordType then visitComponents go inner id c g else go inner c g
        | _ => go inner c g) g

/-- The parameter types of a method, and whether the last takes any number of arguments. -/
def signatureOf (p : Place) (n : Node) : List String × Bool :=
  match n.child? .parameters with
  | none => ([], false)
  | some parameters =>
    (parameters.named.flatMap fun c =>
      match c.kind with
      | .formalParameter =>
        match c.child? .type with
        | some type =>
          let brackets := ((c.child? .dimensions).map p.text).getD ""
          [signatureType (p.text type ++ brackets) false]
        | none => []
      | .spreadParameter => ((spreadType? c).map fun t => signatureType (p.text t) true).toList
      | _ => [],
     parameters.named.any (·.kind == .spreadParameter))

def visitMethod : Visitor := fun p n g =>
  match p.typeId?, n.child? .name, p.anonymous with
  | some typeId, some nameNode, 0 =>
    let (signature, varargs) := signatureOf p n
    let kind := if n.kind == .constructorDeclaration then .constructor else .method
    let id := typeId ++ "#" ++ p.text nameNode ++ "(" ++ joinWith "," signature ++ ")"
    let d := declarationAt p n nameNode id kind
    let inner := p.withOwner g.declarations.size
    (g.declare { d with
      arity := signature.length
      varargs
      typeText := (n.child? .type).map p.text }).inScope (visitExcept go .identifier inner n)
  | _, _, _ => g.inScope (visitExcept go .identifier p n)

def visitField : Visitor := fun p n g =>
  let written := (n.child? .type).map p.text
  let declarators := n.named.filter (·.kind == .variableDeclarator)
  let first := g.declarations.size
  let declared := declarators.foldl (fun g d =>
    match d.child? .name with
    | none => g
    | some name =>
      match p.typeId?, p.anonymous with
      | some typeId, 0 =>
        let decl := declarationAt p n name (typeId ++ "#" ++ p.text name) .field
        g.declare { decl with typeText := written }
      | _, _ => g.bind (p.text name) (.variable written)) g
  let inner := if first < declared.declarations.size then p.withOwner first else p
  let around := visitExcept go .variableDeclarator inner n declared
  declarators.foldl (fun g d => visitSlot go .value (inner.inside n) d g) around

def visitEnumConstant : Visitor := fun p n g =>
  match p.typeId?, n.child? .name with
  | some typeId, some name =>
    let d := declarationAt p n name (typeId ++ "#" ++ p.text name) .enumConstant
    let inner := p.withOwner g.declarations.size
    n.named.foldl (fun g c =>
      match c.kind with
      | .identifier => g
      | .classBody => visitAnonymousBody go (inner.inside n) c g
      | _ => go (inner.inside n) c g) (g.declare { d with typeText := some (afterLast '.' typeId) })
  | _, _ => g

/-- A local variable is bound after its value was visited. The type of `var x = new Foo()` is that of
the created object. -/
def visitLocal : Visitor := fun p n g =>
  let step := fun (state : Gathered × Option String) (c : Node) =>
    let (g, written) := state
    if c.kind == .variableDeclarator then
      let g := visitSlot go .value (p.inside n) c g
      let written :=
        if written == some "var" then
          match c.child? .value with
          | some value =>
            if value.kind == .objectCreation then (value.child? .type).map p.text else none
          | none => none
        else written
      match c.child? .name with
      | some name => (g.bind (p.text name) (.variable written), written)
      | none => (g, written)
    else (go (p.inside n) c g, written)
  (n.named.foldl step (g, (n.child? .type).map p.text)).1

def visitParameter : Visitor := fun p n g =>
  let type := match n.kind with
    | .catchParameter => (n.firstOf? .catchType).bind (·.named.head?)
    | .spreadParameter => spreadType? n
    | _ => n.child? .type
  let name := match n.kind with
    | .spreadParameter => (n.firstOf? .variableDeclarator).bind (·.child? .name)
    | _ => n.child? .name
  let visited := visitAll go (p.inside n) (n.named.filter fun c =>
    c.kind != .identifier && c.kind != .variableDeclarator) g
  match name with
  | some name => visited.bind (p.text name) (.variable (type.map p.text))
  | none => visited

def visitResource : Visitor := fun p n g =>
  match n.child? .name with
  | none => visitChildren go p n g
  | some name =>
    let visited := visitSlot go .value p n (visitSlot go .type p n g)
    visited.bind (p.text name) (.variable ((n.child? .type).map p.text))

def visitLambda : Visitor := fun p n g => g.inScope fun g =>
  let bound := match n.child? .parameters with
    | none => g
    | some parameters =>
      match parameters.kind with
      | .identifier => g.bind (p.text parameters) (.variable none)
      | .inferredParameters =>
        parameters.named.foldl (fun g c => g.bind (p.text c) (.variable none)) g
      | _ => go (p.inside n) parameters g
  visitSlot go .body p n bound

def visitEnhancedFor : Visitor := fun p n g => g.inScope fun g =>
  let visited := visitSlot go .value p n (visitSlot go .type p n g)
  let bound := match n.child? .name with
    | some name => visited.bind (p.text name) (.variable ((n.child? .type).map p.text))
    | none => visited
  visitSlot go .body p n bound

def visitInstanceTest : Visitor := fun p n g =>
  let visited := visitSlot go .pattern p n (visitSlot go .right p n (visitSlot go .left p n g))
  match n.child? .name, n.child? .right with
  | some name, some type => visited.bind (p.text name) (.variable (some (p.text type)))
  | _, _ => visited

def visitTypeParameter : Visitor := fun p n g =>
  let bound := match n.firstOf? .typeIdentifier with
    | some name => g.bind (p.text name) .typeParameter
    | none => g
  visitAll go (p.inside n) (n.named.filter (·.kind == .typeBound)) bound

def visitObjectCreation : Visitor := fun p n g =>
  let recorded := match n.child? .type with
    | some type => g.record p (anchorOf type) .reference
        (.constructor (eraseType (p.text type)) (argumentCount (n.child? .arguments)))
    | none => g
  n.named.foldl (fun g c =>
    if c.kind == .classBody then visitAnonymousBody go (p.inside n) c g
    else go (p.inside n) c g) recorded

def visitConstructorCall : Visitor := fun p n g =>
  let recorded := match n.child? .constructor, p.typeId? with
    | some constructor, some typeId =>
      if constructor.kind == .thisName then
        g.record p constructor .reference
          (.constructor (afterLast '.' typeId) (argumentCount (n.child? .arguments)))
      else g
    | _, _ => g
  visitSlot go .arguments p n (visitSlot go .object p n recorded)

def visitInvocation : Visitor := fun p n g =>
  let recorded := match n.child? .name with
    | some name => g.record p name .reference (.method (p.text name)
        (argumentCount (n.child? .arguments)) (receiverOf p g (n.child? .object)))
    | none => g
  visitSlot go .arguments p n (visitSlot go .typeArguments p n (visitSlot go .object p n recorded))

def visitMethodReference : Visitor := fun p n g =>
  match n.children with
  | [] => g
  | qualifier :: rest =>
    let member := (rest.dropWhile fun c => !(c.kind == .mark && p.text c == "::")).tail.find?
      fun c => c.kind == .identifier || (c.kind == .mark && p.text c == "new")
    let recorded := match member with
      | none => g
      | some member =>
        let receiver := match qualifier.kind with
          | .typeIdentifier | .scopedType | .genericType | .arrayType =>
            .type (eraseType (p.text qualifier))
          | _ => receiverOf p g (some qualifier)
        g.record p member .methodReference (.methodRef (p.text member) receiver)
    visitAll go (p.inside n) (qualifier :: rest.filter (·.kind == .typeArguments)) recorded

def visitFieldAccess : Visitor := fun p n g =>
  let recorded := match n.child? .field with
    | some field => g.record p field (accessRole p n)
        (.field (p.text field) (receiverOf p g (n.child? .object)))
    | none => g
  visitSlot go .object p n recorded

def visitAnnotationUse : Visitor := fun p n g =>
  let recorded := match n.child? .name with
    | some name =>
      let anchor := if name.kind == .scopedIdentifier then (name.child? .name).getD name else name
      g.record p anchor .annotationUse (.type (p.text name))
    | none => g
  visitSlot go .arguments p n recorded

def visitIdentifier : Visitor := fun p n g =>
  if isNaming p n then g
  else
    let name := p.text n
    if (g.local? name).isSome then g else g.record p n (accessRole p n) (.name name)

def visitTypeIdentifier : Visitor := fun p n g =>
  if p.parentKind? == some .scopedType then g
  else
    let name := p.text n
    if name == "var" || g.local? name == some .typeParameter then g
    else g.record p n (typeRole n p.trail) (.type name)

/-- A qualified type is one mention; the arguments of a generic qualifier are visited. -/
def visitScopedType : Visitor := fun p n g =>
  if p.parentKind? == some .scopedType then g
  else
    let recorded := g.record p (anchorOf n) (typeRole n p.trail) (.type (eraseType (p.text n)))
    n.named.foldl (fun g c =>
      if c.kind == .genericType then
        visitAll go ((p.inside n).inside c) (c.named.filter (·.kind == .typeArguments)) g
      else g) recorded

/-- What to do at a node, given what to do at the nodes below it. -/
def visitNode : Visitor := fun p n g =>
  match n.kind with
  | .comment => g
  | .packageDeclaration => visitPackage p n g
  | .importDeclaration => visitImport p n g
  | .classDeclaration | .interfaceDeclaration | .enumDeclaration | .recordDeclaration
  | .annotationDeclaration => visitType go p n g
  | .methodDeclaration | .constructorDeclaration | .annotationElement => visitMethod go p n g
  | .fieldDeclaration | .constantDeclaration => visitField go p n g
  | .enumConstant => visitEnumConstant go p n g
  | .compactConstructor | .block | .constructorBody | .forStatement | .catchClause
  | .resourceTryStatement | .switchBlock => g.inScope (visitChildren go p n)
  | .lambda => visitLambda go p n g
  | .enhancedForStatement => visitEnhancedFor go p n g
  | .localVariable => visitLocal go p n g
  | .formalParameter | .catchParameter | .spreadParameter => visitParameter go p n g
  | .resource => visitResource go p n g
  | .instanceTest => visitInstanceTest go p n g
  | .typeParameter => visitTypeParameter go p n g
  | .objectCreation => visitObjectCreation go p n g
  | .constructorCall => visitConstructorCall go p n g
  | .methodInvocation => visitInvocation go p n g
  | .methodReference => visitMethodReference go p n g
  | .fieldAccess => visitFieldAccess go p n g
  | .markerUse | .annotationUse => visitAnnotationUse go p n g
  | .elementPair => visitSlot go .value p n g
  | .labeledStatement => visitExcept go .identifier p n g
  | .breakStatement | .continueStatement | .scopedIdentifier => g
  | .identifier => visitIdentifier p n g
  | .typeIdentifier => visitTypeIdentifier p n g
  | .scopedType => visitScopedType go p n g
  | _ => visitChildren go p n g

end Walk

/-- Visits a tree of at most the given height. -/
def visit : Nat → Visitor
  | 0 => fun _ _ g => g
  | height + 1 => fun p n g => visitNode (visit height) p n g

end JavaAtlas.Outline

namespace JavaAtlas

open Outline

/-- The outline of a syntax tree over its source. -/
def Outline.ofTree (unit : UnitRef) (unitIndex : Nat) (source : String) (tree : Syntax.Node) :
    Outline :=
  let place : Place := {
    source := source.toList
    unit
    unitIndex
    chain := []
    owner := none
    anonymous := 0
    trail := [] }
  let g := visit tree.height place tree .empty
  { unit
    source
    package := g.package
    imports := g.imports.toList
    declarations := g.declarations.toList
    mentions := g.mentions.toList }

/-- The outline of a source file, which is the `unitIndex`-th of its project. -/
def Outline.ofSource (unit : UnitRef) (unitIndex : Nat) (source : String) : Outline :=
  ofTree unit unitIndex source (Syntax.parse source.toList)

end JavaAtlas
