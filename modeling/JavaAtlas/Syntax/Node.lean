/-!
Syntax trees of source files. A node spans from its first token to its last; a comment is a node of
the innermost tree that has a token on either side of it.
-/

namespace JavaAtlas.Syntax

/-- What a node is. A `mark` is a keyword, an operator or a bracket. -/
inductive Kind where
  | mark
  | comment
  | program
  | identifier
  | typeIdentifier
  | scopedIdentifier
  | thisName
  | superName
  | asterisk
  | underscore
  | literal
  | stringLiteral
  | packageDeclaration
  | importDeclaration
  | moduleDeclaration
  | moduleBody
  | moduleDirective
  | classDeclaration
  | interfaceDeclaration
  | enumDeclaration
  | recordDeclaration
  | annotationDeclaration
  | modifiers
  | typeParameters
  | typeParameter
  | typeBound
  | superclass
  | superInterfaces
  | extendsInterfaces
  | permitsClause
  | typeList
  | classBody
  | interfaceBody
  | annotationBody
  | enumBody
  | enumBodyDeclarations
  | enumConstant
  | methodDeclaration
  | constructorDeclaration
  | compactConstructor
  | annotationElement
  | fieldDeclaration
  | constantDeclaration
  | staticInitializer
  | constructorBody
  | constructorCall
  | formalParameters
  | formalParameter
  | spreadParameter
  | receiverParameter
  | inferredParameters
  | variableDeclarator
  | dimensions
  | dimensionsExpr
  | throwsClause
  | arrayInitializer
  | markerUse
  | annotationUse
  | annotationArguments
  | elementPair
  | elementArray
  | primitiveType
  | annotatedType
  | scopedType
  | genericType
  | arrayType
  | typeArguments
  | wildcard
  | assignment
  | binary
  | instanceTest
  | lambda
  | ternary
  | update
  | unary
  | cast
  | classLiteral
  | parenthesized
  | objectCreation
  | arrayCreation
  | fieldAccess
  | arrayAccess
  | methodInvocation
  | methodReference
  | template
  | argumentList
  | switchExpression
  | switchBlock
  | switchGroup
  | switchRule
  | switchLabel
  | pattern
  | typePattern
  | recordPattern
  | recordPatternBody
  | recordPatternComponent
  | guard
  | block
  | expressionStatement
  | labeledStatement
  | assertStatement
  | doStatement
  | breakStatement
  | continueStatement
  | returnStatement
  | yieldStatement
  | synchronizedStatement
  | throwStatement
  | tryStatement
  | resourceTryStatement
  | resourceSpecification
  | resource
  | catchClause
  | catchParameter
  | catchType
  | finallyClause
  | ifStatement
  | whileStatement
  | forStatement
  | enhancedForStatement
  | localVariable
  deriving Repr, DecidableEq, Inhabited

/-- The part that a node plays in its parent. -/
inductive Slot where
  | name
  | type
  | value
  | object
  | field
  | arguments
  | typeArguments
  | parameters
  | body
  | left
  | right
  | operator
  | pattern
  | constructor
  | dimensions
  | key
  deriving Repr, DecidableEq, Inhabited

/-- A syntax tree: what it is, its part in the parent, the bytes from `start` up to `stop`, and its
children in order. -/
inductive Node where
  | mk (kind : Kind) (slot : Option Slot) (start stop : Nat) (children : List Node)
  deriving Repr, Inhabited

namespace Node

def kind : Node → Kind
  | mk k _ _ _ _ => k

def slot? : Node → Option Slot
  | mk _ s _ _ _ => s

def start : Node → Nat
  | mk _ _ a _ _ => a

def stop : Node → Nat
  | mk _ _ _ b _ => b

def children : Node → List Node
  | mk _ _ _ _ cs => cs

def length (n : Node) : Nat := n.stop - n.start

def withSlot (s : Option Slot) : Node → Node
  | mk k _ a b cs => mk k s a b cs

/-- The children that are more than marks. -/
def named (n : Node) : List Node := n.children.filter (·.kind != .mark)

/-- The first child that plays the given part. -/
def child? (n : Node) (s : Slot) : Option Node := n.children.find? (·.slot? == some s)

/-- The first child of the given kind. -/
def firstOf? (n : Node) (k : Kind) : Option Node := n.children.find? (·.kind == k)

mutual

/-- Number of levels below and including the node. -/
def height : Node → Nat
  | mk _ _ _ _ cs => heightList cs + 1

/-- The greatest height in a list of trees. -/
def heightList : List Node → Nat
  | [] => 0
  | n :: ns => max (height n) (heightList ns)

end

mutual

/-- Whether a node of one of the kinds stands in the tree. -/
def holds (ks : List Kind) : Node → Bool
  | mk k _ _ _ cs => ks.contains k || holdsList ks cs

def holdsList (ks : List Kind) : List Node → Bool
  | [] => false
  | n :: ns => holds ks n || holdsList ks ns

end

/-- A node over the children given from last to first, beginning at `origin` when there are none. -/
def ofReversed (kind : Kind) (origin : Nat) (children : List Node) : Node :=
  let ordered := children.reverse
  mk kind none ((ordered.head?.map start).getD origin) ((children.head?.map stop).getD origin) ordered

end Node

end JavaAtlas.Syntax
