import JavaAtlas.Syntax.Form

/-!
The grammar of Java source files. Where two readings of the same tokens are possible the order of
the alternatives decides: a lambda before a cast before a parenthesis, a declaration before an
expression, a pattern before an expression in a `case`.
-/

namespace JavaAtlas.Syntax

/-- The rules of the grammar. An expression that stands in a `case` label has no lambda of its own,
because the arrow belongs to the label; `arrow` says whether one may stand. -/
inductive Rule where
  | program
  | topLevel
  | statement
  | declaration
  | block
  | localVariable
  | forStatement
  | tryTail
  | catchClause
  | resource
  | switchExpression
  | switchLabel
  | pattern
  | recordPattern
  | expression (arrow : Bool)
  | level (n : Nat) (arrow : Bool)
  | operand (arrow : Bool)
  | operandCore (arrow : Bool)
  | lambda
  | cast (arrow : Bool)
  | primary
  | primaryBase
  | primaryTail
  | creation
  | arrayCreation
  | argumentList
  | parenthesized
  | stringLiteral
  | type
  | unannotatedType
  | simpleType
  | typeArguments
  | dimensions
  | annotationUse
  | elementValue
  | qualifiedName
  | modifiers
  | moduleDeclaration
  | moduleDirective
  | typeDeclaration
  | typeParameters
  | superInterfaces
  | permitsClause
  | typeList
  | classBody
  | classMember
  | interfaceMember
  | annotationMember
  | enumBody
  | methodDeclaration
  | constructorDeclaration
  | constructorCall
  | formalParameters
  | throwsClause
  | variableDeclarators
  | variableDeclarator
  | variableName
  | initializer
  deriving Repr, DecidableEq, Inhabited

namespace Rule

open Form

abbrev GForm := Form Rule

def ident : GForm := leaf .identifier .name

def typeName : GForm := leaf .typeIdentifier .name

def thisLeaf : GForm := leaf .thisName (.spelled "this")

def superLeaf : GForm := leaf .superName (.spelled "super")

def expr : GForm := rule (.expression true)

def annotations : GForm := many (rule .annotationUse)

def optModifiers : GForm := opt (rule .modifiers)

def semicolon : GForm := word ";"

/-- A form between brackets. -/
def inParens (a : GForm) : GForm := seqs [word "(", a, word ")"]

def inBraces (a : GForm) : GForm := seqs [word "\x7b", a, word "\x7d"]

/-- A comma-separated list between braces, which may end with a comma. -/
def braceList (a : GForm) : GForm := inBraces (seq (sepBy "," a) (opt (word ",")))

/-- The operators of each level, loosest first. -/
def operatorLevels : List (List String) :=
  [["||"], ["&&"], ["|"], ["^"], ["&"], ["==", "!="], ["<", ">", "<=", ">="],
   ["<<", ">>", ">>>"], ["+", "-"], ["*", "/", "%"]]

/-- The level at which `instanceof` stands. -/
def instanceLevel : Nat := 6

def assignmentOperators : List String :=
  ["=", "+=", "-=", "*=", "/=", "&=", "|=", "^=", "%=", "<<=", ">>=", ">>>="]

def modifierWords : List String :=
  ["public", "protected", "private", "abstract", "static", "final", "strictfp", "default",
   "synchronized", "native", "transient", "volatile", "sealed"]

def primitiveNames : List String :=
  ["void", "byte", "short", "int", "long", "char", "float", "double", "boolean"]

/-- What may follow an operand of a relation to make an `instanceof` of it. -/
def instanceTail : GForm :=
  wrap .instanceTest (some .left) (seqs [word "instanceof", opt (word "final"),
    alt (slot .pattern (rule .recordPattern))
      (seq (slot .right (rule .type)) (opt (slot .name ident)))])

/-- What may follow an operand of level `n`. -/
def levelTail (n : Nat) (arrow : Bool) : GForm :=
  let tails := ((operatorLevels[n]?).getD []).map fun op =>
    wrap .binary (some .left) (seq (slot .operator (operator op))
      (slot .right (rule (.level (n + 1) arrow))))
  alts (if n = instanceLevel then tails ++ [instanceTail] else tails)

def assignmentTail (arrow : Bool) : GForm :=
  seq (lastIs [.identifier, .fieldAccess, .arrayAccess])
    (wrap .assignment (some .left)
      (seq (slot .operator (alts (assignmentOperators.map operator)))
        (slot .right (rule (.expression arrow)))))

/-- The type before a cast or `::` that no expression could be read as. -/
def properType : GForm :=
  seq (rule .type) (lastHolds [.primitiveType, .arrayType, .genericType, .annotatedType])

def memberAfterColons : GForm :=
  seqs [word "::", opt (rule .typeArguments), alt (word "new") ident]

def nodeAfter (kind : Kind) (keyword : String) (rest : List GForm) : GForm :=
  node kind (seqs (word keyword :: rest))

def switchBody (item : GForm) (others : GForm) : GForm :=
  node .switchBlock (inBraces (alt (many1 item) (many others)))

def directive (rest : List GForm) : GForm := node .moduleDirective (seqs (rest ++ [semicolon]))

def toClause : GForm := opt (seq (word "to") (sepBy1 "," (rule .qualifiedName)))

def typeHead (keyword : String) : List GForm :=
  [optModifiers, word keyword, slot .name ident]

def arrayInitializer : GForm := node .arrayInitializer (braceList (rule .initializer))

def optSuperclass : GForm := opt (nodeAfter .superclass "extends" [rule .type])

def body : Rule → GForm
  | program => node .program (many (rule topLevel))
  | topLevel => alts [rule declaration, rule methodDeclaration, rule statement]
  | statement => alts [
      rule block,
      semicolon,
      nodeAfter .ifStatement "if" [rule parenthesized, rule statement,
        opt (seq (word "else") (rule statement))],
      nodeAfter .whileStatement "while" [rule parenthesized, rule statement],
      rule forStatement,
      nodeAfter .doStatement "do" [rule statement, word "while", rule parenthesized, semicolon],
      nodeAfter .assertStatement "assert" [expr, opt (seq (word ":") expr), semicolon],
      nodeAfter .breakStatement "break" [opt ident, semicolon],
      nodeAfter .continueStatement "continue" [opt ident, semicolon],
      nodeAfter .returnStatement "return" [opt expr, semicolon],
      nodeAfter .throwStatement "throw" [expr, semicolon],
      nodeAfter .yieldStatement "yield" [expr, semicolon],
      nodeAfter .synchronizedStatement "synchronized" [rule parenthesized, rule block],
      nodeAfter .tryStatement "try" [rule block, rule tryTail],
      nodeAfter .resourceTryStatement "try" [
        node .resourceSpecification (inParens
          (seq (sepBy1 ";" (rule resource)) (opt semicolon))), rule block, rule tryTail],
      node .labeledStatement (seqs [ident, word ":", rule statement]),
      rule declaration,
      rule switchExpression,
      rule localVariable,
      node .expressionStatement (seq expr semicolon)]
  | declaration => alts [
      node .packageDeclaration (seqs [annotations, word "package", rule qualifiedName, semicolon]),
      nodeAfter .importDeclaration "import" [opt (word "static"), rule qualifiedName,
        opt (seq (word ".") (leaf .asterisk (.spelled "*"))), semicolon],
      rule typeDeclaration,
      rule moduleDeclaration]
  | block => node .block (inBraces (many (rule statement)))
  | localVariable => node .localVariable (seqs [optModifiers,
      slot .type (rule unannotatedType), rule variableDeclarators, semicolon])
  | forStatement => alt
      (node .enhancedForStatement (seqs [word "for", word "(", optModifiers,
        slot .type (rule unannotatedType), rule variableName, word ":", slot .value expr, word ")",
        slot .body (rule statement)]))
      (node .forStatement (seqs [word "for", word "(",
        alt (rule localVariable) (seq (sepBy "," expr) semicolon),
        opt expr, semicolon, sepBy "," expr, word ")", rule statement]))
  | tryTail => seq (many (rule catchClause))
      (opt (nodeAfter .finallyClause "finally" [rule block]))
  | catchClause => nodeAfter .catchClause "catch" [
      inParens (node .catchParameter (seqs [optModifiers,
        node .catchType (sepBy1 "|" (rule unannotatedType)), rule variableName])),
      rule block]
  | resource => node .resource (alt
      (seqs [optModifiers, slot .type (rule unannotatedType), rule variableName, word "=",
        slot .value expr])
      (seq (rule primary) (lastIs [.identifier, .fieldAccess])))
  | switchExpression => nodeAfter .switchExpression "switch" [rule parenthesized,
      switchBody
        (node .switchRule (seqs [rule switchLabel, word "->",
          alts [rule block, nodeAfter .throwStatement "throw" [expr, semicolon],
            node .expressionStatement (seq expr semicolon)]]))
        (node .switchGroup (seqs [rule switchLabel, word ":", many (rule statement)]))]
  | switchLabel => node .switchLabel (alt
      (seqs [word "case",
        alt (seq (rule pattern) (ahead (alts [word "->", word ":", word "when"])))
          (sepBy1 "," (alt (rule (expression false)) (leaf .identifier (.spelled "default")))),
        opt (nodeAfter .guard "when" [rule (expression false)])])
      (word "default"))
  | pattern => node .pattern (alt (rule recordPattern)
      (node .typePattern (seq (rule unannotatedType) ident)))
  | recordPattern => node .recordPattern (seq
      (alt (seq (rule simpleType) (lastIs [.genericType])) ident)
      (node .recordPatternBody (inParens (sepBy "," (alt (rule recordPattern)
        (node .recordPatternComponent (alt (seq (rule unannotatedType) ident)
          (leaf .underscore (.spelled "_")))))))))
  | expression arrow => seq (rule (level 0 arrow))
      (opt (wrap .ternary none (seqs [word "?", expr, word ":", rule (expression arrow)])))
  | level n arrow =>
      if n < operatorLevels.length then
        seq (rule (level (n + 1) arrow)) (many (levelTail n arrow))
      else rule (operand arrow)
  | operand arrow => seq (rule (operandCore arrow))
      (many (wrap .update none (alt (word "++") (word "--"))))
  | operandCore arrow => alts [
      if arrow then rule lambda else notAhead done,
      rule (cast arrow),
      rule switchExpression,
      node .unary (seq (alts [word "+", word "-", word "!", word "~"])
        (rule (operandCore arrow))),
      node .update (seq (alt (word "++") (word "--")) (rule (operandCore arrow))),
      seq (rule primary) (opt (assignmentTail arrow))]
  | lambda => node .lambda (seqs [
      slot .parameters (alts [ident,
        node .inferredParameters (inParens (sepBy1 "," ident)), rule formalParameters]),
      word "->", slot .body (alt (rule block) expr)])
  | cast arrow => alts [
      node .cast (seqs [word "(", slot .type (rule type), many1 (seq (word "&") (rule type)),
        word ")", slot .value (alt (rule lambda) (rule primary))]),
      node .cast (seqs [word "(", slot .type properType, word ")",
        slot .value (rule (operand arrow))]),
      node .cast (seqs [word "(", slot .type (rule unannotatedType), word ")",
        notAhead (alt (word "+") (word "-")), slot .value (rule (operand arrow))])]
  | primary => seq (rule primaryBase) (many (rule primaryTail))
  | primaryBase => alts [
      leaf .literal (.ofClass .number),
      leaf .literal (.ofClass .character),
      alts (["true", "false", "null"].map fun w => leaf .literal (.spelled w)),
      rule stringLiteral,
      node .classLiteral (seqs [rule unannotatedType, word ".", word "class"]),
      node .methodReference (seq properType memberAfterColons),
      node .objectCreation (rule creation),
      rule arrayCreation,
      node .methodInvocation (seq (slot .name ident) (slot .arguments (rule argumentList))),
      ident,
      thisLeaf,
      seq superLeaf (ahead (alt (word ".") (word "::"))),
      rule parenthesized]
  | primaryTail => alts [
      wrap .objectCreation none (seq (word ".") (rule creation)),
      wrap .template none (seq (word ".") (rule stringLiteral)),
      wrap .methodInvocation (some .object) (seqs [word ".", opt (seq superLeaf (word ".")),
        opt (slot .typeArguments (rule typeArguments)), slot .name ident,
        slot .arguments (rule argumentList)]),
      wrap .fieldAccess (some .object) (seqs [opt (seqs [word ".", superLeaf, ahead (word ".")]),
        word ".", slot .field (alt ident thisLeaf)]),
      wrap .arrayAccess none (seqs [word "[", expr, word "]"]),
      wrap .methodReference none memberAfterColons]
  | creation => seqs [word "new",
      alt (seqs [annotations, slot .typeArguments (rule typeArguments), annotations]) annotations,
      slot .type (rule simpleType), slot .arguments (rule argumentList), opt (rule classBody)]
  | arrayCreation => node .arrayCreation (seqs [word "new", annotations,
      slot .type (rule simpleType),
      alt (seq (rule dimensions) (slot .value arrayInitializer))
        (seq (many1 (node .dimensionsExpr (seqs [annotations, word "[", expr, word "]"])))
          (opt (rule dimensions)))])
  | argumentList => node .argumentList (inParens (sepBy "," expr))
  | parenthesized => node .parenthesized (inParens expr)
  | stringLiteral => node .stringLiteral (alt (leaf .literal (.ofClass .text))
      (seqs [leaf .literal (.ofClass .textHead), expr,
        many (seq (leaf .literal (.ofClass .textMiddle)) expr),
        leaf .literal (.ofClass .textTail)]))
  | type => alt
      (node .annotatedType (seq (many1 (rule annotationUse)) (rule unannotatedType)))
      (rule unannotatedType)
  | unannotatedType => seq (rule simpleType) (opt (wrap .arrayType none (rule dimensions)))
  | simpleType => alt
      (alts (primitiveNames.map fun w => leaf .primitiveType (.spelled w)))
      (seq typeName (many (alt
        (seq (lastIs [.typeIdentifier, .scopedType]) (wrap .genericType none (rule typeArguments)))
        (wrap .scopedType none (seqs [word ".", annotations, typeName])))))
  | typeArguments => node .typeArguments (seqs [word "<",
      sepBy "," (alt
        (node .wildcard (seqs [annotations, word "?",
          opt (seq (alt (word "extends") superLeaf) (rule type))]))
        (rule type)),
      word ">"])
  | dimensions => node .dimensions (many1 (seqs [annotations, word "[", word "]"]))
  | annotationUse => alt
      (node .annotationUse (seqs [word "@", slot .name (rule qualifiedName),
        slot .arguments (node .annotationArguments (inParens (alt
          (sepBy1 "," (node .elementPair (seqs [slot .key ident, word "=",
            slot .value (rule elementValue)])))
          (opt (rule elementValue)))))]))
      (node .markerUse (seq (word "@") (slot .name (rule qualifiedName))))
  | elementValue => alts [rule annotationUse,
      node .elementArray (braceList (rule elementValue)), expr]
  | qualifiedName => seq ident (many (wrap .scopedIdentifier none (seq (word ".")
      (slot .name ident))))
  | modifiers => node .modifiers (many1 (alts [rule annotationUse,
      adjoined ["non", "-", "sealed"], alts (modifierWords.map word)]))
  | moduleDeclaration => node .moduleDeclaration (seqs [annotations, opt (word "open"),
      word "module", slot .name (rule qualifiedName),
      node .moduleBody (inBraces (many (rule moduleDirective)))])
  | moduleDirective => alts [
      directive [word "requires", many (alt (seq (word "transitive") (notAhead semicolon))
        (word "static")), rule qualifiedName],
      directive [word "exports", rule qualifiedName, toClause],
      directive [word "opens", rule qualifiedName, toClause],
      directive [word "uses", rule qualifiedName],
      directive [word "provides", rule qualifiedName, word "with",
        sepBy1 "," (rule qualifiedName)]]
  | typeDeclaration => alts [
      node .classDeclaration (seqs (typeHead "class" ++ [opt (rule typeParameters), optSuperclass,
        opt (rule superInterfaces), opt (rule permitsClause), rule classBody])),
      node .interfaceDeclaration (seqs (typeHead "interface" ++ [opt (rule typeParameters),
        opt (nodeAfter .extendsInterfaces "extends" [rule typeList]), opt (rule permitsClause),
        node .interfaceBody (inBraces (many (rule interfaceMember)))])),
      node .enumDeclaration (seqs (typeHead "enum" ++ [opt (rule superInterfaces),
        rule enumBody])),
      node .recordDeclaration (seqs (typeHead "record" ++ [opt (rule typeParameters),
        slot .parameters (rule formalParameters), opt (rule superInterfaces), rule classBody])),
      node .annotationDeclaration (seqs (typeHead "@interface" ++ [
        node .annotationBody (inBraces (many (rule annotationMember)))]))]
  | typeParameters => node .typeParameters (seqs [word "<",
      sepBy1 "," (node .typeParameter (seqs [annotations, typeName,
        opt (nodeAfter .typeBound "extends" [sepBy1 "&" (rule type)])])),
      word ">"])
  | superInterfaces => nodeAfter .superInterfaces "implements" [rule typeList]
  | permitsClause => nodeAfter .permitsClause "permits" [rule typeList]
  | typeList => node .typeList (sepBy1 "," (rule type))
  | classBody => node .classBody (inBraces (many (rule classMember)))
  | classMember => alts [
      semicolon,
      rule block,
      nodeAfter .staticInitializer "static" [rule block],
      rule typeDeclaration,
      rule constructorDeclaration,
      rule methodDeclaration,
      node .fieldDeclaration (seqs [optModifiers, slot .type (rule unannotatedType),
        rule variableDeclarators, semicolon])]
  | interfaceMember => alts [
      semicolon,
      rule typeDeclaration,
      rule methodDeclaration,
      node .constantDeclaration (seqs [optModifiers, slot .type (rule unannotatedType),
        rule variableDeclarators, semicolon])]
  | annotationMember => alts [
      semicolon,
      rule typeDeclaration,
      node .annotationElement (seqs [optModifiers, slot .type (rule unannotatedType),
        slot .name ident, word "(", word ")", opt (slot .dimensions (rule dimensions)),
        opt (seq (word "default") (slot .value (rule elementValue))), semicolon]),
      node .constantDeclaration (seqs [optModifiers, slot .type (rule unannotatedType),
        rule variableDeclarators, semicolon])]
  | enumBody => node .enumBody (inBraces (seqs [
      sepBy "," (node .enumConstant (seqs [optModifiers, slot .name ident,
        opt (slot .arguments (rule argumentList)), opt (slot .body (rule classBody))])),
      opt (word ","),
      opt (node .enumBodyDeclarations (seq semicolon (many (rule classMember))))]))
  | methodDeclaration => node .methodDeclaration (seqs [optModifiers,
      opt (seq (rule typeParameters) annotations), slot .type (rule unannotatedType),
      slot .name ident, slot .parameters (rule formalParameters),
      opt (slot .dimensions (rule dimensions)), opt (rule throwsClause),
      alt (slot .body (rule block)) semicolon])
  | constructorDeclaration => alt
      (node .constructorDeclaration (seqs [optModifiers, opt (rule typeParameters),
        slot .name ident, slot .parameters (rule formalParameters), opt (rule throwsClause),
        slot .body (node .constructorBody (inBraces
          (seq (opt (rule constructorCall)) (many (rule statement)))))]))
      (node .compactConstructor (seqs [optModifiers, slot .name ident, slot .body (rule block)]))
  | constructorCall => node .constructorCall (seqs [
      alt
        (seq (opt (slot .typeArguments (rule typeArguments)))
          (slot .constructor (alt thisLeaf superLeaf)))
        (seqs [slot .object (rule primary), word ".",
          opt (slot .typeArguments (rule typeArguments)), slot .constructor superLeaf]),
      slot .arguments (rule argumentList), semicolon])
  | formalParameters => node .formalParameters (inParens (sepBy "," (alts [
      node .receiverParameter (seqs [annotations, rule unannotatedType,
        many (seq ident (word ".")), thisLeaf]),
      node .spreadParameter (seqs [optModifiers, rule unannotatedType, word "...", annotations,
        rule variableDeclarator]),
      node .formalParameter (seqs [optModifiers, slot .type (rule unannotatedType),
        rule variableName])])))
  | throwsClause => nodeAfter .throwsClause "throws" [sepBy1 "," (rule type)]
  | variableDeclarators => sepBy1 "," (rule variableDeclarator)
  | variableDeclarator => node .variableDeclarator (seq (rule variableName)
      (opt (seq (word "=") (slot .value (rule initializer)))))
  | variableName => seq (slot .name (alt (leaf .underscore (.spelled "_")) ident))
      (opt (slot .dimensions (rule dimensions)))
  | initializer => alt arrayInitializer expr

end Rule

end JavaAtlas.Syntax
