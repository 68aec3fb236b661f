import JavaAtlas.Proofs.DeclarationVisits

/-! The walk as lists of moves. What is done at a node is a list that is fixed by the node, the place
and the state in which the walk comes to it, so a fact about every walk needs one look at each kind of
node and one at each kind of move. -/

namespace JavaAtlas.Outline

open Syntax Text

/-- One thing done at a node. A `body` is that of a class without a name; a `component` is a
declaration that owns what its type mentions. -/
inductive Move where
  | visit (q : Place) (c : Node)
  | body (q : Place) (c : Node)
  | bind (name : String) (l : Local)
  | mention (p : Place) (a : Node) (role : Role) (target : Gathered → Option Target)
  | declare (d : Declaration)
  | component (d : Declaration) (q : Place) (type : Node)
  | package (name : String)
  | imported (i : Import)

def Move.perform (go : Visitor) (g : Gathered) : Move → Gathered
  | visit q c => go q c g
  | body q c => g.inScope (visitAll go q c.named)
  | bind name l => g.bind name l
  | mention p a role target =>
    match target g with
    | some t => g.record p a role t
    | none => g
  | declare d => g.declare d
  | component d q type => go (q.withOwner g.declarations.size) type (g.declare d)
  | package name => { g with package := name }
  | imported i => { g with imports := g.imports.push i }

def perform (go : Visitor) (moves : List Move) (g : Gathered) : Gathered :=
  moves.foldl (Move.perform go) g

@[simp] lemma Gathered.bind_declarations (g : Gathered) (name : String) (l : Local) :
    (g.bind name l).declarations = g.declarations := by
  rw [Gathered.bind]
  split <;> rfl

section Lists

variable {go : Visitor} {g : Gathered} {ms ms' : List Move}

@[simp] lemma perform_nil : perform go [] g = g := rfl

@[simp] lemma perform_cons {m : Move} : perform go (m :: ms) g = perform go ms (m.perform go g) := rfl

@[simp] lemma perform_append : perform go (ms ++ ms') g = perform go ms' (perform go ms g) :=
  List.foldl_append

lemma perform_flatMap {cs : List Node} (f : Node → List Move) :
    perform go (cs.flatMap f) g = cs.foldl (fun g c => perform go (f c) g) g := by
  induction cs generalizing g with
  | nil => rfl
  | cons c cs ih => rw [List.flatMap_cons, perform_append, ih, List.foldl_cons]

end Lists

def visits (q : Place) (ns : List Node) : List Move := ns.map (.visit q)

lemma perform_visits (go : Visitor) (q : Place) (ns : List Node) (g : Gathered) :
    perform go (visits q ns) g = visitAll go q ns g := List.foldl_map

def slotMoves (s : Slot) (p : Place) (n : Node) : List Move :=
  visits (p.inside n) (n.child? s).toList

lemma perform_slotMoves (go : Visitor) (s : Slot) (p : Place) (n : Node) (g : Gathered) :
    perform go (slotMoves s p n) g = visitSlot go s p n g := by
  rw [slotMoves, perform_visits, visitSlot]
  cases n.child? s <;> rfl

/-- The place in the body of a class without a name. -/
def Place.inBody (q : Place) (c : Node) : Place :=
  Place.inside { q with anonymous := q.anonymous + 1 } c

section Headers

variable (p : Place) (n : Node)

def packageMoves : List Move :=
  ((n.named.find? fun c => [Kind.scopedIdentifier, .identifier].contains c.kind).map fun c =>
    Move.package (p.text c)).toList

def readImport (i : Import) (c : Node) : Import :=
  match c.kind with
  | .mark => if p.text c == "static" then { i with isStatic := true } else i
  | .asterisk => { i with onDemand := true }
  | .scopedIdentifier | .identifier => { i with path := p.text c }
  | _ => i

def importMoves : List Move :=
  let found := n.children.foldl (readImport p) ⟨"", false, false⟩
  if found.path.isEmpty then [] else [.imported found]

end Headers

section Declarations

variable (p : Place) (n : Node)

def componentPart (typeId : String) (c : Node) : List Move :=
  match c.kind, c.child? .name, c.child? .type with
  | .formalParameter, some name, some type =>
    [.component { declarationAt p c name (typeId ++ "#" ++ p.text name) .field with
      typeText := some (p.text type) } ((p.inside n).inside c) type]
  | _, _, _ => []

def componentMoves (typeId : String) : List Move := n.named.flatMap (componentPart p n typeId)

def typeDeclaration (id : String) (name : Node) : Declaration :=
  { declarationAt p n name id (typeKind n.kind) with
    superTexts := (implicitSuper? n).toList ++ writtenSupers p n }

/-- The place inside a type whose declaration has the given position. -/
def Place.inType (id : String) (first : Nat) : Place :=
  { p.inside n with chain := p.chain ++ [id], owner := some first }

def typePart (q : Place) (id : String) (c : Node) : List Move :=
  match c.kind with
  | .identifier => []
  | .formalParameters =>
    if typeKind n.kind == .recordType then componentMoves q c id else [.visit q c]
  | _ => [.visit q c]

def typeMoves (first : Nat) (package : String) : List Move :=
  match n.child? .name with
  | none => visits (p.inside n) n.named
  | some name =>
    let id := typeIdIn p package (p.text name)
    .declare (typeDeclaration p n id name) ::
      n.named.flatMap (typePart n (p.inType n id first) id)

def methodKind : ElementKind := if n.kind == .constructorDeclaration then .constructor else .method

def methodDeclaration (typeId : String) (name : Node) : Declaration :=
  { declarationAt p n name
      (typeId ++ "#" ++ p.text name ++ "(" ++ joinWith "," (signatureOf p n).1 ++ ")") (methodKind n)
    with
    arity := (signatureOf p n).1.length
    varargs := (signatureOf p n).2
    typeText := (n.child? .type).map p.text }

def beyondName : List Node := n.named.filter (·.kind != .identifier)

def methodMoves (first : Nat) : List Move :=
  match p.typeId?, n.child? .name, p.anonymous with
  | some typeId, some name, 0 => .declare (methodDeclaration p n typeId name) ::
      visits ((p.withOwner first).inside n) (beyondName n)
  | _, _, _ => visits (p.inside n) (beyondName n)

def fieldDeclaration (typeId : String) (name : Node) : Declaration :=
  { declarationAt p n name (typeId ++ "#" ++ p.text name) .field with
    typeText := (n.child? .type).map p.text }

def declaredNames : List Node := (declarators n).filterMap (·.child? .name)

/-- A field is declared where its type has a name and no body around it lacks one. -/
def fieldHead (name : Node) : Move :=
  match p.typeId?, p.anonymous with
  | some typeId, 0 => .declare (fieldDeclaration p n typeId name)
  | _, _ => .bind (p.text name) (.variable ((n.child? .type).map p.text))

/-- The first of the fields owns what else stands in the node. -/
def fieldPlace (first : Nat) : Place :=
  if p.typeId?.isSome && p.anonymous == 0 && !(declaredNames n).isEmpty then p.withOwner first else p

def fieldMoves (first : Nat) : List Move :=
  let q := (fieldPlace p n first).inside n
  (declaredNames n).map (fieldHead p n) ++ visits q (n.named.filter (·.kind != .variableDeclarator)) ++
    (declarators n).flatMap (slotMoves .value q)

def constantDeclaration (typeId : String) (name : Node) : Declaration :=
  { declarationAt p n name (typeId ++ "#" ++ p.text name) .enumConstant with
    typeText := some (afterLast '.' typeId) }

def constantPart (q : Place) (c : Node) : List Move :=
  match c.kind with
  | .identifier => []
  | .classBody => [.body (q.inBody c) c]
  | _ => [.visit q c]

def constantMoves (first : Nat) : List Move :=
  match p.typeId?, n.child? .name with
  | some typeId, some name => .declare (constantDeclaration p n typeId name) ::
      n.named.flatMap (constantPart ((p.withOwner first).inside n))
  | _, _ => []

end Declarations

section Locals

variable (p : Place) (n : Node)

def createdType? (c : Node) : Option String :=
  match c.child? .value with
  | some value => if value.kind == .objectCreation then (value.child? .type).map p.text else none
  | none => none

/-- The type of a local variable after the given one was read for those before it. -/
def localType (c : Node) (written : Option String) : Option String :=
  if written == some "var" then createdType? p c else written

def variableMoves (c : Node) (written : Option String) : List Move :=
  slotMoves .value (p.inside n) c ++
    ((c.child? .name).map fun name => Move.bind (p.text name) (.variable written)).toList

def localParts : Option String → List Node → List Move
  | _, [] => []
  | written, c :: cs =>
    if c.kind == .variableDeclarator then
      variableMoves p n c (localType p c written) ++ localParts (localType p c written) cs
    else .visit (p.inside n) c :: localParts written cs

def localMoves : List Move := localParts p n ((n.child? .type).map p.text) n.named

def parameterType? : Option Node :=
  match n.kind with
  | .catchParameter => (n.firstOf? .catchType).bind (·.named.head?)
  | .spreadParameter => spreadType? n
  | _ => n.child? .type

def parameterName? : Option Node :=
  match n.kind with
  | .spreadParameter => (n.firstOf? .variableDeclarator).bind (·.child? .name)
  | _ => n.child? .name

def bindMoves (name : Option Node) (written : Option String) : List Move :=
  (name.map fun name => Move.bind (p.text name) (.variable written)).toList

def parameterMoves : List Move :=
  visits (p.inside n) (n.named.filter fun c =>
    c.kind != .identifier && c.kind != .variableDeclarator) ++
    bindMoves p (parameterName? n) ((parameterType? n).map p.text)

def resourceMoves : List Move :=
  match n.child? .name with
  | none => visits (p.inside n) n.named
  | some name => slotMoves .type p n ++ slotMoves .value p n ++
      [.bind (p.text name) (.variable ((n.child? .type).map p.text))]

def lambdaHeads : List Move :=
  match n.child? .parameters with
  | none => []
  | some parameters =>
    match parameters.kind with
    | .identifier => [.bind (p.text parameters) (.variable none)]
    | .inferredParameters => parameters.named.map fun c => .bind (p.text c) (.variable none)
    | _ => [.visit (p.inside n) parameters]

def lambdaMoves : List Move := lambdaHeads p n ++ slotMoves .body p n

def enhancedForMoves : List Move :=
  slotMoves .type p n ++ slotMoves .value p n ++
    bindMoves p (n.child? .name) ((n.child? .type).map p.text) ++ slotMoves .body p n

def testedName : List Move :=
  match n.child? .name, n.child? .right with
  | some name, some type => [.bind (p.text name) (.variable (some (p.text type)))]
  | _, _ => []

def instanceTestMoves : List Move :=
  slotMoves .left p n ++ slotMoves .right p n ++ slotMoves .pattern p n ++ testedName p n

def typeParameterMoves : List Move :=
  ((n.firstOf? .typeIdentifier).map fun name => Move.bind (p.text name) .typeParameter).toList ++
    visits (p.inside n) (n.named.filter (·.kind == .typeBound))

end Locals

section Mentions

variable (p : Place) (n : Node)

def creationPart (q : Place) (c : Node) : Move :=
  if c.kind == .classBody then .body (q.inBody c) c else .visit q c

def creationMoves : List Move :=
  ((n.child? .type).map fun type => Move.mention p (anchorOf type) .reference fun _ =>
    some (.constructor (eraseType (p.text type)) (argumentCount (n.child? .arguments)))).toList ++
    n.named.map (creationPart (p.inside n))

def calledConstructor : List Move :=
  match n.child? .constructor, p.typeId? with
  | some c, some typeId =>
    if c.kind == .thisName then
      [.mention p c .reference fun _ =>
        some (.constructor (afterLast '.' typeId) (argumentCount (n.child? .arguments)))]
    else []
  | _, _ => []

def constructorCallMoves : List Move :=
  calledConstructor p n ++ slotMoves .object p n ++ slotMoves .arguments p n

def invocationMoves : List Move :=
  ((n.child? .name).map fun name => Move.mention p name .reference fun g =>
    some (.method (p.text name) (argumentCount (n.child? .arguments))
      (receiverOf p g (n.child? .object)))).toList ++
    slotMoves .object p n ++ slotMoves .typeArguments p n ++ slotMoves .arguments p n

def isMark (text : String) (c : Node) : Bool := c.kind == .mark && p.text c == text

def isMember (c : Node) : Bool := c.kind == .identifier || isMark p "new" c

/-- The member that a method reference names after its colons. -/
def referred? (rest : List Node) : Option Node :=
  (rest.dropWhile fun c => !isMark p "::" c).tail.find? (isMember p)

def qualifierOf (g : Gathered) (q : Node) : Receiver :=
  match q.kind with
  | .typeIdentifier | .scopedType | .genericType | .arrayType => .type (eraseType (p.text q))
  | _ => receiverOf p g (some q)

def methodReferenceMoves : List Move :=
  match n.children with
  | [] => []
  | q :: rest =>
    ((referred? p rest).map fun m => Move.mention p m .methodReference fun g =>
      some (.methodRef (p.text m) (qualifierOf p g q))).toList ++
      visits (p.inside n) (q :: rest.filter (·.kind == .typeArguments))

def fieldAccessMoves : List Move :=
  ((n.child? .field).map fun field => Move.mention p field (accessRole p n) fun g =>
    some (.field (p.text field) (receiverOf p g (n.child? .object)))).toList ++
    slotMoves .object p n

def annotationAnchor (name : Node) : Node :=
  if name.kind == .scopedIdentifier then (name.child? .name).getD name else name

def annotationMoves : List Move :=
  ((n.child? .name).map fun name => Move.mention p (annotationAnchor name) .annotationUse fun _ =>
    some (.type (p.text name))).toList ++ slotMoves .arguments p n

def identifierMoves : List Move :=
  if isNaming p n then []
  else [.mention p n (accessRole p n) fun g =>
    if (g.local? (p.text n)).isSome then none else some (.name (p.text n))]

def typeIdentifierMoves : List Move :=
  if p.parentKind? == some .scopedType then []
  else [.mention p n (typeRole n p.trail) fun g =>
    if p.text n == "var" || g.local? (p.text n) == some .typeParameter then none
    else some (.type (p.text n))]

def qualifierPart (q : Place) (c : Node) : List Move :=
  if c.kind == .genericType then
    visits (q.inside c) (c.named.filter (·.kind == .typeArguments))
  else []

def scopedTypeMoves : List Move :=
  if p.parentKind? == some .scopedType then []
  else .mention p (anchorOf n) (typeRole n p.trail) (fun _ => some (.type (eraseType (p.text n)))) ::
    n.named.flatMap (qualifierPart (p.inside n))

end Mentions

/-- What is done at a node. -/
def moves (p : Place) (n : Node) (first : Nat) (package : String) : List Move :=
  match n.kind with
  | .comment => []
  | .packageDeclaration => packageMoves p n
  | .importDeclaration => importMoves p n
  | .classDeclaration | .interfaceDeclaration | .enumDeclaration | .recordDeclaration
  | .annotationDeclaration => typeMoves p n first package
  | .methodDeclaration | .constructorDeclaration | .annotationElement => methodMoves p n first
  | .fieldDeclaration | .constantDeclaration => fieldMoves p n first
  | .enumConstant => constantMoves p n first
  | .lambda => lambdaMoves p n
  | .enhancedForStatement => enhancedForMoves p n
  | .localVariable => localMoves p n
  | .formalParameter | .catchParameter | .spreadParameter => parameterMoves p n
  | .resource => resourceMoves p n
  | .instanceTest => instanceTestMoves p n
  | .typeParameter => typeParameterMoves p n
  | .objectCreation => creationMoves p n
  | .constructorCall => constructorCallMoves p n
  | .methodInvocation => invocationMoves p n
  | .methodReference => methodReferenceMoves p n
  | .fieldAccess => fieldAccessMoves p n
  | .markerUse | .annotationUse => annotationMoves p n
  | .elementPair => slotMoves .value p n
  | .labeledStatement => visits (p.inside n) (beyondName n)
  | .breakStatement | .continueStatement | .scopedIdentifier => []
  | .identifier => identifierMoves p n
  | .typeIdentifier => typeIdentifierMoves p n
  | .scopedType => scopedTypeMoves p n
  | _ => visits (p.inside n) n.named

def typeKinds : List Kind :=
  [.classDeclaration, .interfaceDeclaration, .enumDeclaration, .recordDeclaration,
   .annotationDeclaration]

def isTypeDeclaration (n : Node) : Bool := typeKinds.contains n.kind

/-- Whether the names bound below the node end with it. -/
def opensScope (n : Node) : Bool :=
  isTypeDeclaration n && (n.child? .name).isSome ||
    [Kind.methodDeclaration, .constructorDeclaration, .annotationElement, .compactConstructor, .block,
      .constructorBody, .forStatement, .catchClause, .resourceTryStatement, .switchBlock, .lambda,
      .enhancedForStatement].contains n.kind

section Visitors

variable (go : Visitor) (p : Place) (n : Node) (g : Gathered)

lemma perform_packageMoves : perform go (packageMoves p n) g = visitPackage p n g := by
  rw [packageMoves, visitPackage]
  cases n.named.find? fun c => [Kind.scopedIdentifier, .identifier].contains c.kind <;> rfl

lemma perform_importMoves : perform go (importMoves p n) g = visitImport p n g := by
  have hfound : visitImport p n g = let found := n.children.foldl (readImport p) ⟨"", false, false⟩
      if found.path.isEmpty then g else { g with imports := g.imports.push found } := rfl
  rw [hfound, importMoves]
  dsimp only
  split <;> rfl

lemma perform_componentMoves (typeId : String) :
    perform go (componentMoves p n typeId) g = visitComponents go p typeId n g := by
  rw [componentMoves, perform_flatMap, visitComponents]
  congr 1
  funext g c
  rw [componentPart]
  by_cases hk : c.kind = .formalParameter
  · rw [hk]
    rcases c.child? .name with _ | name
    · rfl
    · rcases c.child? .type with _ | type <;> rfl
  · generalize c.kind = k at hk
    cases k <;> first | rfl | exact absurd rfl hk

lemma perform_typePart (q : Place) (id : String) (c : Node) :
    perform go (typePart n q id c) g = match c.kind with
      | .identifier => g
      | .formalParameters =>
        if typeKind n.kind == .recordType then visitComponents go q id c g else go q c g
      | _ => go q c g := by
  rw [typePart, ← perform_componentMoves]
  cases typeKind n.kind == .recordType <;> cases c.kind <;> rfl

/-- Declaring something and opening a scope may be done in either order. -/
lemma visitType_eq {name : Node} (hname : n.child? .name = some name) :
    visitType go p n g = g.inScope (perform go (typeMoves p n g.declarations.size g.package)) := by
  rw [visitType, typeMoves, hname]
  dsimp only
  rw [Gathered.inScope, Gathered.inScope, perform_cons, perform_flatMap]
  simp only [perform_typePart]
  rfl

lemma visitMethod_eq :
    visitMethod go p n g = g.inScope (perform go (methodMoves p n g.declarations.size)) := by
  have hvisits (q : Place) : visitExcept go .identifier q n =
      perform go (visits (q.inside n) (beyondName n)) := by
    funext g
    rw [perform_visits]
    rfl
  have hother := congrArg (Gathered.inScope · g) (hvisits p)
  rw [visitMethod, methodMoves]
  rcases p.typeId? with _ | typeId
  · exact hother
  · rcases n.child? .name with _ | name
    · exact hother
    · rcases p.anonymous with _ | k
      · simp only [hvisits]
        rfl
      · exact hother

lemma visitConstant_eq :
    visitEnumConstant go p n g = perform go (constantMoves p n g.declarations.size) g := by
  have hpart (q : Place) (g : Gathered) (c : Node) : perform go (constantPart q c) g =
      match c.kind with
      | .identifier => g
      | .classBody => visitAnonymousBody go q c g
      | _ => go q c g := by
    rw [constantPart]
    cases c.kind <;> rfl
  rw [visitEnumConstant, constantMoves]
  rcases p.typeId? with _ | typeId
  · rfl
  · rcases n.child? .name with _ | name
    · rfl
    · dsimp only
      rw [perform_cons, perform_flatMap]
      simp only [hpart]
      rfl

lemma perform_fieldHeads :
    perform go ((declaredNames n).map (fieldHead p n)) g = declareFields p n g := by
  have hone (c : Node) (g : Gathered) : declareField p n g c =
      perform go ((c.child? .name).map (fieldHead p n)).toList g := by
    rw [declareField]
    cases c.child? .name with
    | none => rfl
    | some name =>
      simp only [Option.map_some, Option.toList_some, perform_cons, perform_nil, fieldHead]
      rcases p.typeId? with _ | typeId
      · rfl
      · rcases p.anonymous with _ | k <;> rfl
  rw [declaredNames, declareFields]
  induction declarators n generalizing g with
  | nil => rfl
  | cons c cs ih =>
    rw [List.foldl_cons, ← ih, hone, List.filterMap_cons]
    cases c.child? .name <;> rfl

lemma perform_fieldHeads_size (names : List Node) :
    (perform go (names.map (fieldHead p n)) g).declarations.size = g.declarations.size +
      if p.typeId?.isSome && p.anonymous == 0 then names.length else 0 := by
  induction names generalizing g with
  | nil => simp
  | cons name names ih =>
    rw [List.map_cons, perform_cons, ih, fieldHead, List.length_cons]
    rcases p.typeId? with _ | typeId
    · simp [Move.perform]
    · rcases p.anonymous with _ | k
      · simp [Move.perform, Gathered.declare]
        omega
      · simp [Move.perform]

lemma visitField_eq_moves :
    visitField go p n g = perform go (fieldMoves p n g.declarations.size) g := by
  have hplace : (if g.declarations.size < (declareFields p n g).declarations.size then
      p.withOwner g.declarations.size else p) = fieldPlace p n g.declarations.size := by
    rw [← perform_fieldHeads go, perform_fieldHeads_size, fieldPlace]
    cases p.typeId?.isSome && p.anonymous == 0
    · simp
    · cases declaredNames n <;> simp
  rw [visitField_eq, hplace, fieldMoves, perform_append, perform_append, perform_fieldHeads,
    perform_visits, perform_flatMap]
  simp only [perform_slotMoves]
  rfl

lemma perform_localParts (written : Option String) (cs : List Node) :
    perform go (localParts p n written cs) g = (cs.foldl (fun (s : Gathered × Option String) c =>
      if c.kind == .variableDeclarator then
        (perform go (variableMoves p n c (localType p c s.2)) s.1, localType p c s.2)
      else (go (p.inside n) c s.1, s.2)) (g, written)).1 := by
  induction cs generalizing g written with
  | nil => rfl
  | cons c cs ih =>
    rw [localParts, List.foldl_cons]
    split
    · rw [perform_append, ih]
    · rw [perform_cons, ih]
      rfl

lemma visitLocal_eq_moves : visitLocal go p n g = perform go (localMoves p n) g := by
  rw [localMoves, perform_localParts, visitLocal]
  congr 2
  funext s c
  dsimp only
  split
  · rw [variableMoves, perform_append, perform_slotMoves]
    cases c.child? .name <;> rfl
  · rfl

lemma perform_bindMoves (name : Option Node) (written : Option String) :
    perform go (bindMoves p name written) g = match name with
      | some name => g.bind (p.text name) (.variable written)
      | none => g := by
  cases name <;> rfl

lemma visitParameter_eq_moves : visitParameter go p n g = perform go (parameterMoves p n) g := by
  rw [parameterMoves, perform_append, perform_visits, perform_bindMoves]
  rfl

lemma visitResource_eq_moves : visitResource go p n g = perform go (resourceMoves p n) g := by
  rw [visitResource, resourceMoves]
  cases n.child? .name with
  | none =>
    rw [perform_visits]
    rfl
  | some name =>
    dsimp only
    rw [perform_append, perform_append, perform_slotMoves, perform_slotMoves]
    rfl

lemma perform_lambdaHeads : perform go (lambdaHeads p n) g = match n.child? .parameters with
    | none => g
    | some parameters =>
      match parameters.kind with
      | .identifier => g.bind (p.text parameters) (.variable none)
      | .inferredParameters =>
        parameters.named.foldl (fun g c => g.bind (p.text c) (.variable none)) g
      | _ => go (p.inside n) parameters g := by
  rw [lambdaHeads]
  cases n.child? .parameters with
  | none => rfl
  | some parameters =>
    have hbinds : perform go (parameters.named.map fun c =>
        Move.bind (p.text c) (.variable none)) g =
        parameters.named.foldl (fun g c => g.bind (p.text c) (.variable none)) g := List.foldl_map
    dsimp only
    rw [← hbinds]
    cases parameters.kind <;> rfl

lemma visitLambda_eq : visitLambda go p n g = g.inScope (perform go (lambdaMoves p n)) := by
  have hwalk : perform go (lambdaMoves p n) = fun g =>
      visitSlot go .body p n (perform go (lambdaHeads p n) g) := by
    funext g
    rw [lambdaMoves, perform_append, perform_slotMoves]
  simp only [hwalk, perform_lambdaHeads]
  rfl

lemma visitEnhancedFor_eq :
    visitEnhancedFor go p n g = g.inScope (perform go (enhancedForMoves p n)) := by
  have hwalk : perform go (enhancedForMoves p n) = fun g =>
      visitSlot go .body p n (perform go (bindMoves p (n.child? .name) ((n.child? .type).map p.text))
        (visitSlot go .value p n (visitSlot go .type p n g))) := by
    funext g
    rw [enhancedForMoves, perform_append, perform_append, perform_append, perform_slotMoves,
      perform_slotMoves, perform_slotMoves]
  simp only [hwalk, perform_bindMoves]
  rfl

lemma visitInstanceTest_eq_moves :
    visitInstanceTest go p n g = perform go (instanceTestMoves p n) g := by
  rw [visitInstanceTest, instanceTestMoves, testedName, perform_append, perform_append, perform_append,
    perform_slotMoves, perform_slotMoves, perform_slotMoves]
  rcases n.child? .name with _ | name
  · rfl
  · rcases n.child? .right with _ | type <;> rfl

lemma visitTypeParameter_eq_moves :
    visitTypeParameter go p n g = perform go (typeParameterMoves p n) g := by
  rw [visitTypeParameter, typeParameterMoves, perform_append, perform_visits]
  cases n.firstOf? .typeIdentifier <;> rfl

lemma visitObjectCreation_eq_moves :
    visitObjectCreation go p n g = perform go (creationMoves p n) g := by
  have hpart (q : Place) (g : Gathered) (c : Node) : (creationPart q c).perform go g =
      if c.kind == .classBody then visitAnonymousBody go q c g else go q c g := by
    rw [creationPart]
    split <;> rfl
  have hparts (g : Gathered) : perform go (n.named.map (creationPart (p.inside n))) g =
      n.named.foldl (fun g c => if c.kind == .classBody then visitAnonymousBody go (p.inside n) c g
        else go (p.inside n) c g) g := by
    rw [perform, List.foldl_map]
    simp only [hpart]
  rw [visitObjectCreation, creationMoves, perform_append, hparts]
  cases n.child? .type <;> rfl

lemma visitConstructorCall_eq_moves :
    visitConstructorCall go p n g = perform go (constructorCallMoves p n) g := by
  rw [visitConstructorCall, constructorCallMoves, calledConstructor, perform_append, perform_append, perform_slotMoves,
    perform_slotMoves]
  rcases n.child? .constructor with _ | c
  · rfl
  · rcases p.typeId? with _ | typeId
    · rfl
    · dsimp only
      cases c.kind == .thisName <;> rfl

lemma visitInvocation_eq_moves :
    visitInvocation go p n g = perform go (invocationMoves p n) g := by
  rw [visitInvocation, invocationMoves, perform_append, perform_append, perform_append,
    perform_slotMoves, perform_slotMoves, perform_slotMoves]
  cases n.child? .name <;> rfl

lemma visitMethodReference_eq_moves :
    visitMethodReference go p n g = perform go (methodReferenceMoves p n) g := by
  have hrefer (rest : List Node) : referred? p rest =
      (rest.dropWhile fun c => !(c.kind == .mark && p.text c == "::")).tail.find?
        fun c => c.kind == .identifier || (c.kind == .mark && p.text c == "new") := rfl
  rw [visitMethodReference, methodReferenceMoves]
  cases n.children with
  | nil => rfl
  | cons q rest =>
    dsimp only
    rw [perform_append, perform_visits, ← hrefer]
    cases referred? p rest <;> rfl

lemma visitFieldAccess_eq_moves :
    visitFieldAccess go p n g = perform go (fieldAccessMoves p n) g := by
  rw [visitFieldAccess, fieldAccessMoves, perform_append, perform_slotMoves]
  cases n.child? .field <;> rfl

lemma visitAnnotationUse_eq_moves :
    visitAnnotationUse go p n g = perform go (annotationMoves p n) g := by
  rw [visitAnnotationUse, annotationMoves, perform_append, perform_slotMoves]
  cases n.child? .name <;> rfl

lemma visitIdentifier_eq_moves : visitIdentifier p n g = perform go (identifierMoves p n) g := by
  rw [visitIdentifier, identifierMoves]
  split
  · rfl
  · dsimp only
    rw [perform_cons, perform_nil, Move.perform]
    cases (g.local? (p.text n)).isSome <;> rfl

lemma visitTypeIdentifier_eq_moves :
    visitTypeIdentifier p n g = perform go (typeIdentifierMoves p n) g := by
  rw [visitTypeIdentifier, typeIdentifierMoves]
  split
  · rfl
  · dsimp only
    rw [perform_cons, perform_nil, Move.perform]
    cases p.text n == "var" || g.local? (p.text n) == some .typeParameter <;> rfl

lemma visitScopedType_eq_moves :
    visitScopedType go p n g = perform go (scopedTypeMoves p n) g := by
  have hpart (q : Place) (g : Gathered) (c : Node) : perform go (qualifierPart q c) g =
      if c.kind == .genericType then
        visitAll go (q.inside c) (c.named.filter (·.kind == .typeArguments)) g
      else g := by
    rw [qualifierPart]
    split
    · rw [perform_visits]
    · rfl
  rw [visitScopedType, scopedTypeMoves]
  split
  · rfl
  · rw [perform_cons, perform_flatMap]
    simp only [hpart]
    rfl

lemma visitType_eq_moves (ht : isTypeDeclaration n = true) : visitType go p n g =
    if opensScope n then g.inScope (perform go (typeMoves p n g.declarations.size g.package))
    else perform go (typeMoves p n g.declarations.size g.package) g := by
  cases hname : n.child? .name with
  | none =>
    have hopens : opensScope n = false := by
      simp only [isTypeDeclaration, typeKinds, List.contains_eq_mem, List.mem_cons, List.not_mem_nil, or_false,
        decide_eq_true_eq] at ht
      rcases ht with ht | ht | ht | ht | ht <;> simp [opensScope, isTypeDeclaration, typeKinds, hname, ht]
    rw [hopens, if_neg (by decide), visitType, typeMoves, hname]
    dsimp only
    rw [perform_visits]
    rfl
  | some name =>
    rw [if_pos (by simp [opensScope, ht, hname])]
    exact visitType_eq go p n g hname

/-- The walk does at a node what its list of moves says, in a scope of its own where the node opens
one. -/
lemma visitNode_eq : visitNode go p n g =
    if opensScope n then g.inScope (perform go (moves p n g.declarations.size g.package))
    else perform go (moves p n g.declarations.size g.package) g := by
  have hopen (hs : opensScope n = true) (a b : Gathered) : (if opensScope n then a else b) = a :=
    if_pos hs
  have hplain (hs : opensScope n = false) (a b : Gathered) : (if opensScope n then a else b) = b :=
    if_neg (by simp [hs])
  have hscoped : g.inScope (visitChildren go p n) =
      g.inScope (perform go (visits (p.inside n) n.named)) := by
    congr 1
    funext g
    rw [perform_visits]
    rfl
  cases hk : n.kind
  all_goals simp only [visitNode, moves, hk]
  case classDeclaration | interfaceDeclaration | enumDeclaration | recordDeclaration |
      annotationDeclaration =>
    exact visitType_eq_moves go p n g (by simp [isTypeDeclaration, typeKinds, hk])
  case methodDeclaration | constructorDeclaration | annotationElement =>
    rw [hopen (by simp [opensScope, hk]), visitMethod_eq]
  case compactConstructor | block | constructorBody | forStatement | catchClause |
      resourceTryStatement | switchBlock =>
    rw [hopen (by simp [opensScope, hk]), hscoped]
  case lambda => rw [hopen (by simp [opensScope, hk]), visitLambda_eq]
  case enhancedForStatement => rw [hopen (by simp [opensScope, hk]), visitEnhancedFor_eq]
  all_goals rw [hplain (by rw [opensScope, isTypeDeclaration, hk]; rfl)]
  case packageDeclaration => rw [perform_packageMoves]
  case importDeclaration => rw [perform_importMoves]
  case fieldDeclaration | constantDeclaration => rw [visitField_eq_moves]
  case enumConstant => rw [visitConstant_eq]
  case localVariable => rw [visitLocal_eq_moves]
  case formalParameter | catchParameter | spreadParameter => rw [visitParameter_eq_moves]
  case resource => rw [visitResource_eq_moves]
  case instanceTest => rw [visitInstanceTest_eq_moves]
  case typeParameter => rw [visitTypeParameter_eq_moves]
  case objectCreation => rw [visitObjectCreation_eq_moves]
  case constructorCall => rw [visitConstructorCall_eq_moves]
  case methodInvocation => rw [visitInvocation_eq_moves]
  case methodReference => rw [visitMethodReference_eq_moves]
  case fieldAccess => rw [visitFieldAccess_eq_moves]
  case markerUse | annotationUse => rw [visitAnnotationUse_eq_moves]
  case elementPair => rw [perform_slotMoves]
  case identifier => rw [← visitIdentifier_eq_moves]
  case typeIdentifier => rw [← visitTypeIdentifier_eq_moves]
  case scopedType => rw [visitScopedType_eq_moves]
  case comment | breakStatement | continueStatement | scopedIdentifier => rfl
  all_goals
    rw [perform_visits]
    rfl

end Visitors

end JavaAtlas.Outline
