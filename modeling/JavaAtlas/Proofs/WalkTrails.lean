import JavaAtlas.Proofs.WalkTraces

/-! The trail of a walk. At every node to which the walk comes, the nodes of the trail are those around
it in the tree, nearest first: a move that leaves nodes out puts them on the trail all the same. -/

namespace JavaAtlas.Outline

open Syntax Text

variable {go : Visitor} {p q : Place} {root n c : Node} {trail ns : List Node} {g g' : Gathered} {k : Nat}

/-- The node stands in the tree, inside the nodes of the trail, nearest first. -/
inductive Around (root : Node) : List Node → Node → Prop
  | root : Around root [] root
  | child {trail : List Node} {n c : Node} : Around root trail n → c ∈ n.children →
      Around root (n :: trail) c

namespace Around

lemma named (h : Around root trail n) (hc : c ∈ n.named) : Around root (n :: trail) c :=
  h.child (Node.mem_children_of_mem_named hc)

lemma slot {s : Slot} (h : Around root trail n) (hc : c ∈ n.child? s) : Around root (n :: trail) c :=
  h.child (Node.mem_children_of_child? hc)

end Around

/-- The move sends the walk to nodes of the tree, with their trails. -/
def Move.Keeps (root : Node) : Move → Prop
  | .visit q c => Around root q.trail c
  | .body q c => ∃ trail, q.trail = c :: trail ∧ Around root trail c
  | .component _ q c => Around root q.trail c
  | _ => True

section Moves

variable (h : Around root p.trail n)

lemma keeps_visits (hns : ∀ c ∈ ns, Around root q.trail c) : ∀ m ∈ visits q ns, m.Keeps root := by
  intro m hm
  obtain ⟨c, hc, rfl⟩ := List.mem_map.mp hm
  exact hns c hc

lemma keeps_option {o : Option Node} {f : Node → Move} (hf : ∀ c ∈ o, (f c).Keeps root) :
    ∀ m ∈ (o.map f).toList, m.Keeps root := by
  intro m hm
  obtain ⟨c, hc, rfl⟩ := Option.map_eq_some_iff.mp (Option.mem_toList.mp hm)
  exact hf c hc

lemma keeps_flatMap {f : Node → List Move} (hf : ∀ c ∈ ns, ∀ m ∈ f c, m.Keeps root) :
    ∀ m ∈ ns.flatMap f, m.Keeps root := fun m hm =>
  have ⟨c, hc, hm⟩ := List.mem_flatMap.mp hm
  hf c hc m hm

lemma keeps_bindMoves (name : Option Node) (written : Option String) :
    ∀ m ∈ bindMoves p name written, m.Keeps root := keeps_option fun _ _ => trivial

lemma keeps_identifier : ∀ m ∈ identifierMoves p n, m.Keeps root := by
  rw [identifierMoves]
  split
  · simp
  · exact List.forall_mem_singleton.mpr trivial

lemma keeps_typeIdentifier : ∀ m ∈ typeIdentifierMoves p n, m.Keeps root := by
  rw [typeIdentifierMoves]
  split
  · simp
  · exact List.forall_mem_singleton.mpr trivial

include h

lemma keeps_children : ∀ m ∈ visits (p.inside n) n.named, m.Keeps root :=
  keeps_visits fun _ hc => h.named hc

lemma keeps_filter (test : Node → Bool) :
    ∀ m ∈ visits (p.inside n) (n.named.filter test), m.Keeps root :=
  keeps_visits fun _ hc => h.named (List.mem_filter.mp hc).1

lemma keeps_slot (s : Slot) : ∀ m ∈ slotMoves s p n, m.Keeps root :=
  keeps_visits fun _ hc => h.slot (Option.mem_toList.mp hc)

lemma keeps_component (typeId : String) : ∀ m ∈ componentMoves p n typeId, m.Keeps root := by
  refine keeps_flatMap fun c hc m hm => ?_
  rw [componentPart] at hm
  split at hm
  · next htype =>
    obtain rfl := List.mem_singleton.mp hm
    exact (h.named hc).slot htype
  · cases hm

lemma keeps_type (first : Nat) (package : String) : ∀ m ∈ typeMoves p n first package, m.Keeps root := by
  rw [typeMoves]
  split
  · exact keeps_children h
  · refine List.forall_mem_cons.mpr ⟨trivial, keeps_flatMap fun c hc m hm => ?_⟩
    have hvisit {id : String} (hm : m ∈ [Move.visit (p.inType n id first) c]) : m.Keeps root := by
      obtain rfl := List.mem_singleton.mp hm
      exact h.named hc
    rw [typePart] at hm
    split at hm
    · cases hm
    · split at hm
      · exact keeps_component (p := p.inType n _ first) (h.named hc) _ m hm
      · exact hvisit hm
    · exact hvisit hm

lemma keeps_method (first : Nat) : ∀ m ∈ methodMoves p n first, m.Keeps root := by
  rw [methodMoves]
  split
  · exact List.forall_mem_cons.mpr ⟨trivial, keeps_filter (p := p.withOwner first) h _⟩
  · exact keeps_filter h _

lemma keeps_field (first : Nat) : ∀ m ∈ fieldMoves p n first, m.Keeps root := by
  have hplace : Around root (fieldPlace p n first).trail n := by
    rw [fieldPlace]
    split <;> exact h
  refine List.forall_mem_append.mpr ⟨List.forall_mem_append.mpr ⟨fun m hm => ?_,
    keeps_filter hplace _⟩, keeps_flatMap fun c hc => ?_⟩
  · obtain ⟨x, -, rfl⟩ := List.mem_map.mp hm
    rw [fieldHead]
    split <;> trivial
  · exact keeps_slot (p := (fieldPlace p n first).inside n) (hplace.child (mem_children_of_declarators hc)) _

lemma keeps_constant (first : Nat) : ∀ m ∈ constantMoves p n first, m.Keeps root := by
  rw [constantMoves]
  split
  · refine List.forall_mem_cons.mpr ⟨trivial, keeps_flatMap fun c hc m hm => ?_⟩
    rw [constantPart] at hm
    split at hm
    · cases hm
    · obtain rfl := List.mem_singleton.mp hm
      exact ⟨_, rfl, h.named hc⟩
    · obtain rfl := List.mem_singleton.mp hm
      exact h.named hc
  · simp

lemma keeps_local : ∀ m ∈ localMoves p n, m.Keeps root := by
  suffices hparts : ∀ (cs : List Node) (written : Option String), cs ⊆ n.named →
      ∀ m ∈ localParts p n written cs, m.Keeps root from hparts n.named _ (List.Subset.refl _)
  intro cs
  induction cs with
  | nil => simp [localParts]
  | cons c cs ih =>
    intro written hcs
    obtain ⟨hc, hcs⟩ := List.cons_subset.mp hcs
    rw [localParts]
    split
    · exact List.forall_mem_append.mpr ⟨List.forall_mem_append.mpr
        ⟨keeps_slot (p := p.inside n) (h.named hc) _, keeps_option fun _ _ => trivial⟩, ih _ hcs⟩
    · exact List.forall_mem_cons.mpr ⟨h.named hc, ih _ hcs⟩

lemma keeps_resource : ∀ m ∈ resourceMoves p n, m.Keeps root := by
  rw [resourceMoves]
  split
  · exact keeps_children h
  · simp only [List.forall_mem_append, List.forall_mem_singleton]
    exact ⟨⟨keeps_slot h _, keeps_slot h _⟩, trivial⟩

lemma keeps_lambda : ∀ m ∈ lambdaMoves p n, m.Keeps root := by
  refine List.forall_mem_append.mpr ⟨?_, keeps_slot h _⟩
  rw [lambdaHeads]
  split
  · simp
  · next hps =>
    split
    · exact List.forall_mem_singleton.mpr trivial
    · exact List.forall_mem_map.mpr fun _ _ => trivial
    · exact List.forall_mem_singleton.mpr (h.slot hps)

lemma keeps_instanceTest : ∀ m ∈ instanceTestMoves p n, m.Keeps root := by
  simp only [instanceTestMoves, List.forall_mem_append]
  refine ⟨⟨⟨keeps_slot h _, keeps_slot h _⟩, keeps_slot h _⟩, ?_⟩
  rw [testedName]
  split
  · exact List.forall_mem_singleton.mpr trivial
  · simp

lemma keeps_creation : ∀ m ∈ creationMoves p n, m.Keeps root := by
  refine List.forall_mem_append.mpr ⟨keeps_option fun _ _ => trivial,
    List.forall_mem_map.mpr fun c hc => ?_⟩
  rw [creationPart]
  split
  · exact ⟨_, rfl, h.named hc⟩
  · exact h.named hc

lemma keeps_constructorCall : ∀ m ∈ constructorCallMoves p n, m.Keeps root := by
  refine List.forall_mem_append.mpr ⟨List.forall_mem_append.mpr ⟨?_, keeps_slot h _⟩, keeps_slot h _⟩
  rw [calledConstructor]
  split
  · split
    · exact List.forall_mem_singleton.mpr trivial
    · simp
  · simp

lemma keeps_methodReference : ∀ m ∈ methodReferenceMoves p n, m.Keeps root := by
  rw [methodReferenceMoves]
  split
  · simp
  · next qualifier rest hch =>
    refine List.forall_mem_append.mpr ⟨keeps_option fun _ _ => trivial, keeps_visits fun c hc => ?_⟩
    refine h.child (hch ▸ ?_)
    exact List.cons_subset_cons qualifier (List.filter_sublist.subset) hc

lemma keeps_scopedType : ∀ m ∈ scopedTypeMoves p n, m.Keeps root := by
  rw [scopedTypeMoves]
  split
  · simp
  · refine List.forall_mem_cons.mpr ⟨trivial, keeps_flatMap fun c hc m hm => ?_⟩
    rw [qualifierPart] at hm
    split at hm
    · exact keeps_filter (p := p.inside n) (h.named hc) _ m hm
    · cases hm

lemma keeps_moves (first : Nat) (package : String) : ∀ m ∈ moves p n first package, m.Keeps root := by
  rw [moves]
  cases hk : n.kind
  all_goals dsimp only
  case comment | breakStatement | continueStatement | scopedIdentifier => simp
  case packageDeclaration => exact keeps_option fun _ _ => trivial
  case importDeclaration =>
    rw [importMoves]
    split
    · simp
    · exact List.forall_mem_singleton.mpr trivial
  case classDeclaration | interfaceDeclaration | enumDeclaration | recordDeclaration |
      annotationDeclaration => exact keeps_type h first package
  case methodDeclaration | constructorDeclaration | annotationElement => exact keeps_method h first
  case fieldDeclaration | constantDeclaration => exact keeps_field h first
  case enumConstant => exact keeps_constant h first
  case lambda => exact keeps_lambda h
  case enhancedForStatement =>
    simp only [enhancedForMoves, List.forall_mem_append]
    exact ⟨⟨⟨keeps_slot h _, keeps_slot h _⟩, keeps_bindMoves _ _⟩, keeps_slot h _⟩
  case localVariable => exact keeps_local h
  case formalParameter | catchParameter | spreadParameter =>
    exact List.forall_mem_append.mpr ⟨keeps_filter h _, keeps_bindMoves _ _⟩
  case resource => exact keeps_resource h
  case instanceTest => exact keeps_instanceTest h
  case typeParameter =>
    exact List.forall_mem_append.mpr ⟨keeps_option fun _ _ => trivial, keeps_filter h _⟩
  case objectCreation => exact keeps_creation h
  case constructorCall => exact keeps_constructorCall h
  case methodInvocation =>
    simp only [invocationMoves, List.forall_mem_append]
    exact ⟨⟨⟨keeps_option fun _ _ => trivial, keeps_slot h _⟩, keeps_slot h _⟩, keeps_slot h _⟩
  case methodReference => exact keeps_methodReference h
  case fieldAccess | markerUse | annotationUse =>
    exact List.forall_mem_append.mpr ⟨keeps_option fun _ _ => trivial, keeps_slot h _⟩
  case elementPair => exact keeps_slot h _
  case labeledStatement => exact keeps_filter h _
  case identifier => exact keeps_identifier
  case typeIdentifier => exact keeps_typeIdentifier
  case scopedType => exact keeps_scopedType h
  all_goals exact keeps_children h

end Moves

/-- A walk that stands at a node of the tree with its trail is sent to such nodes only. -/
lemma Sends.around {m : Move} (hs : Sends go g m q c g') (hm : m.Keeps root) :
    Around root q.trail c := by
  cases hs with
  | visit => exact hm
  | component => exact hm
  | body hb =>
    obtain ⟨trail, heq, h⟩ := hm
    rw [heq]
    exact h.named (hb ▸ by simp)

end JavaAtlas.Outline
