import JavaAtlas.Proofs.TiledTrees
import JavaAtlas.Proofs.WalkParts
import Mathlib.Data.List.Nodup
import Mathlib.Data.List.Perm.Basic

/-! The annotations that the walk over a tree reaches. Of some nodes it takes some parts only and passes
over the others with all that stands in them. The nodes to which the moves of a node send the walk hold
just the annotations below it around which nothing is passed over, each of them once. -/

namespace JavaAtlas.Outline

open Syntax Text

variable {p q : Place} {n c b : Node} {trail : List Node}

mutual

/-- The annotations in a tree, each with the nodes around it, nearest first. -/
def annotationsIn (trail : List Node) : Node → List (List Node × Node)
  | .mk kind slot start stop children =>
    (if annotationKinds.contains kind then [(trail, .mk kind slot start stop children)] else []) ++
      annotationsInList (.mk kind slot start stop children :: trail) children

def annotationsInList (trail : List Node) : List Node → List (List Node × Node)
  | [] => []
  | n :: ns => annotationsIn trail n ++ annotationsInList trail ns

end

/-- Whether the child is what the node has in one of the slots. -/
def standsIn (n : Node) (slots : List Slot) (c : Node) : Bool :=
  slots.any fun s => (n.child? s).any (·.start == c.start)

def isNamedType (n : Node) : Bool := isTypeDeclaration n && (n.child? .name).isSome

/-- Whether the parameters below the node are the components of a record. -/
def isRecordHead (n : Node) : Bool := n.kind == .recordDeclaration && (n.child? .name).isSome

def variableKinds : List Kind := [.fieldDeclaration, .constantDeclaration, .localVariable]

/-- Nodes that are not visited although parts of them are: the variables of a declaration, the
components of a record, and what stands with arguments before a point in the name of a type. -/
def bypassed : List Node → Node → Bool
  | [], _ => false
  | parent :: trail, n =>
    match n.kind with
    | .variableDeclarator => variableKinds.contains parent.kind
    | .formalParameters => isRecordHead parent
    | .formalParameter => parent.kind == .formalParameters && trail.head?.any isRecordHead
    | .genericType => parent.kind == .scopedType
    | _ => false

/-- Whether the walk at a node inside those of the trail passes over the child. Annotations can stand
in a package declaration, before a type parameter, a component of a record or the variable of a loop or a
resource, on the brackets behind a variable and the points of a variable arity, after a point in the name
of a type and in the type arguments of a constructor call. What else is passed over are names, labels,
operators and comments. -/
def passesOver (trail : List Node) (n c : Node) : Bool :=
  match n.kind with
  | .comment | .packageDeclaration | .importDeclaration | .breakStatement | .continueStatement
  | .scopedIdentifier => true
  | .formalParameters => bypassed trail n &&
      !(c.kind == .formalParameter && (c.child? .name).isSome && (c.child? .type).isSome)
  | .formalParameter =>
    if bypassed trail n then !standsIn n [.type] c else c.kind == .variableDeclarator
  | .catchParameter | .spreadParameter => c.kind == .variableDeclarator
  | .variableDeclarator => bypassed trail n && !standsIn n [.value] c
  | .enumConstant => !((n.child? .name).isSome && trail.any isNamedType)
  | .lambda => !standsIn n [.parameters, .body] c ||
      c.kind == .inferredParameters && c.slot? == some .parameters
  | .enhancedForStatement => !standsIn n [.type, .value, .body] c
  | .resource => (n.child? .name).isSome && !standsIn n [.type, .value] c
  | .instanceTest => !standsIn n [.left, .right, .pattern] c
  | .typeParameter => c.kind != .typeBound
  | .constructorCall => !standsIn n [.object, .arguments] c
  | .methodInvocation => !standsIn n [.object, .typeArguments, .arguments] c
  | .methodReference => c.kind != .typeArguments && n.children.head?.all (·.start != c.start)
  | .fieldAccess => !standsIn n [.object] c
  | .markerUse | .annotationUse => !standsIn n [.arguments] c
  | .elementPair => !standsIn n [.value] c
  | .scopedType => c.kind != .genericType
  | .genericType => bypassed trail n && c.kind != .typeArguments
  | _ => false

/-- Whether the node, or one around it, is passed over. -/
def passedOver : List Node → Node → Bool
  | [], _ => false
  | n :: trail, c => passesOver trail n c || passedOver trail n

/-- The annotations in a tree around which nothing is passed over. -/
def reachedIn (trail : List Node) (n : Node) : List (List Node × Node) :=
  (annotationsIn trail n).filter fun x => !passedOver x.1 x.2

def reachedBelow (trail : List Node) (n : Node) : List (List Node × Node) :=
  n.children.flatMap (reachedIn (n :: trail))

section Trees

lemma annotationsIn_eq (trail : List Node) (n : Node) : annotationsIn trail n =
    (if annotationKinds.contains n.kind then [(trail, n)] else []) ++
      n.children.flatMap (annotationsIn (n :: trail)) := by
  have hlist (trail ns : List Node) :
      annotationsInList trail ns = ns.flatMap (annotationsIn trail) := by
    induction ns with
    | nil => rfl
    | cons n ns ih => rw [annotationsInList, ih, List.flatMap_cons]
  cases n
  rw [annotationsIn, hlist]
  rfl

lemma reachedIn_eq_append (trail : List Node) (n : Node) : reachedIn trail n =
    (if annotationKinds.contains n.kind && !passedOver trail n then [(trail, n)] else []) ++
      reachedBelow trail n := by
  rw [reachedIn, annotationsIn_eq, List.filter_append, List.filter_flatMap]
  congr 1
  cases annotationKinds.contains n.kind <;> cases h : passedOver trail n <;> simp [h]

lemma reachedIn_of_passedOver (h : passedOver trail n = true) : reachedIn trail n = [] := by
  induction n using Node.induct generalizing trail with
  | _ n ih =>
    rw [reachedIn_eq_append, h, Bool.not_true, Bool.and_false, if_neg (by decide), List.nil_append]
    refine List.flatMap_eq_nil_iff.mpr fun c hc => ih c hc ?_
    rw [passedOver, h, Bool.or_true]

lemma reachedIn_of_passesOver (h : passesOver trail n c = true) : reachedIn (n :: trail) c = [] :=
  reachedIn_of_passedOver (by rw [passedOver, h, Bool.true_or])

lemma reachedIn_eq (h : passedOver trail n = false) : reachedIn trail n =
    (if annotationKinds.contains n.kind then [(trail, n)] else []) ++ reachedBelow trail n := by
  rw [reachedIn_eq_append, h, Bool.not_false, Bool.and_true]

lemma reachedIn_of_kind (h : annotationKinds.contains n.kind = false) :
    reachedIn trail n = reachedBelow trail n := by
  rw [reachedIn_eq_append, h, Bool.false_and, if_neg (by decide), List.nil_append]

lemma reachedBelow_of_leaf (h : n.children = []) : reachedBelow trail n = [] := by
  rw [reachedBelow, h, List.flatMap_nil]

lemma reachedIn_word (hp : Plain n) (hk : n.kind ∈ wordKinds) : reachedIn trail n = [] := by
  rw [reachedIn_of_kind, reachedBelow_of_leaf (hp.leaf hk)]
  exact (by decide : ∀ k ∈ wordKinds, annotationKinds.contains k = false) _ hk

/-- Parts that hold nothing need not be taken. -/
lemma flatMap_filter_of_nil {α β : Type} {l : List α} {test : α → Bool} {f : α → List β}
    (h : ∀ a ∈ l, test a = false → f a = []) : (l.filter test).flatMap f = l.flatMap f := by
  induction l with
  | nil => rfl
  | cons a l ih =>
    have hl := ih fun b hb => h b (List.mem_cons_of_mem a hb)
    rw [List.filter_cons, List.flatMap_cons]
    split
    · rw [List.flatMap_cons, hl]
    · next ht => rw [hl, h a List.mem_cons_self (Bool.not_eq_true _ ▸ ht), List.nil_append]

lemma flatMap_named (hp : Plain n) : n.named.flatMap (reachedIn (n :: trail)) = reachedBelow trail n :=
  flatMap_filter_of_nil fun c hc hk =>
    reachedIn_word (hp.child hc) (by simp only [bne_eq_false_iff_eq] at hk; rw [hk]; decide)

lemma flatMap_named_filter (hp : Plain n) {test : Node → Bool}
    (h : ∀ c ∈ n.children, test c = false → c.kind ∈ wordKinds ∨ passesOver trail n c = true) :
    (n.named.filter test).flatMap (reachedIn (n :: trail)) = reachedBelow trail n := by
  rw [← flatMap_named hp]
  refine flatMap_filter_of_nil fun c hc ht => ?_
  have hm := Node.mem_children_of_mem_named hc
  rcases h c hm ht with hw | hpass
  · exact reachedIn_word (hp.child hm) hw
  · exact reachedIn_of_passesOver hpass

/-- The variables of a declaration may be taken after its other parts. -/
lemma variables_last (hp : Plain n) (trail : List Node) :
    ((n.named.filter (·.kind != .variableDeclarator)).flatMap (reachedIn (n :: trail)) ++
      (declarators n).flatMap (reachedIn (n :: trail))).Perm (reachedBelow trail n) := by
  have hnot : declarators n = n.named.filter fun c => !(c.kind != .variableDeclarator) := by
    simp only [bne, Bool.not_not]
    rfl
  rw [← List.flatMap_append, ← flatMap_named hp, hnot]
  exact (List.filter_append_perm _ _).flatMap_right _

lemma children_nodup (hg : n.Grammatical) : n.children.Nodup := by
  refine hg.wellFormed.orderly.2.2.imp_of_mem fun {a b} ha _ hle heq => ?_
  have hne := hg.nonempty_child ha
  rw [← heq] at hle
  exact absurd (hne.trans_le hle) (Nat.lt_irrefl _)

lemma eq_of_start_eq (hg : n.Grammatical) (hc : c ∈ n.children) (hb : b ∈ n.children)
    (h : b.start = c.start) : b = c :=
  child_unique hg.wellFormed hb hc ⟨Nat.le_refl _, hg.nonempty_child hb⟩
    ⟨Nat.le_of_eq h.symm, h ▸ hg.nonempty_child hc⟩

lemma standsIn_of_child? {slots : List Slot} {s : Slot} (hs : s ∈ slots) (hc : n.child? s = some c) :
    standsIn n slots c = true :=
  List.any_eq_true.mpr ⟨s, hs, by rw [hc, Option.any_some, beq_self_eq_true]⟩

/-- What a node has in different slots are different children. -/
lemma slots_perm (hg : n.Grammatical) {slots : List Slot} (hd : slots.Nodup) :
    (slots.flatMap fun s => (n.child? s).toList).Perm (n.children.filter (standsIn n slots)) := by
  have hnodup : (slots.flatMap fun s => (n.child? s).toList).Nodup := by
    refine List.nodup_flatMap.mpr ⟨fun s _ => ?_, hd.imp fun {s t} hst => ?_⟩
    · cases n.child? s <;> simp
    · refine List.disjoint_left.mpr fun c hs ht => ?_
      exact Node.ne_of_child? (Option.mem_toList.mp hs) (Option.mem_toList.mp ht) hst rfl
  refine (List.perm_ext_iff_of_nodup hnodup ((children_nodup hg).filter _)).mpr fun c => ?_
  rw [List.mem_flatMap, List.mem_filter]
  constructor
  · rintro ⟨s, hs, hc⟩
    have hc := Option.mem_toList.mp hc
    exact ⟨Node.mem_children_of_child? hc, standsIn_of_child? hs hc⟩
  · rintro ⟨hc, hin⟩
    obtain ⟨s, hs, hany⟩ := List.any_eq_true.mp hin
    obtain ⟨b, hb, heq⟩ := (Option.any_eq_true _ _).mp hany
    obtain rfl := eq_of_start_eq hg hc (Node.mem_children_of_child? hb) (eq_of_beq heq)
    exact ⟨s, hs, Option.mem_toList.mpr hb⟩

lemma slots_reached (hg : n.Grammatical) {slots : List Slot} (hd : slots.Nodup)
    (h : ∀ c ∈ n.children, standsIn n slots c = false → passesOver trail n c = true) :
    (slots.flatMap fun s => (n.child? s).toList.flatMap (reachedIn (n :: trail))).Perm
      (reachedBelow trail n) := by
  have hpass : (n.children.filter (standsIn n slots)).flatMap (reachedIn (n :: trail)) =
      reachedBelow trail n :=
    flatMap_filter_of_nil fun c hc ht => reachedIn_of_passesOver (h c hc ht)
  rw [← hpass, ← List.flatMap_assoc]
  exact (slots_perm hg hd).flatMap_right _

end Trees

/-- The nodes to which a move sends the walk, with their places. -/
def Move.spots : Move → List (Place × Node)
  | .visit q c => [(q, c)]
  | .body q c => c.named.map (q, ·)
  | .component _ q c => [(q, c)]
  | _ => []

def spotsOf (ms : List Move) : List (Place × Node) := ms.flatMap Move.spots

/-- Nothing around the node is passed over, and its place tells whether a type is around it. -/
structure Cleared (p : Place) (n : Node) : Prop where
  typed : p.typeId?.isSome = p.trail.any isNamedType
  clear : passedOver p.trail n = false

structure Visited (p : Place) (n : Node) : Prop extends Cleared p n where
  direct : bypassed p.trail n = false

/-- The nodes are visited, and the annotations reached in them are the given ones. -/
structure Yields (spots : List (Place × Node)) (found : List (List Node × Node)) : Prop where
  visited : ∀ s ∈ spots, Visited s.1 s.2
  reached : (spots.flatMap fun s => reachedIn s.1.trail s.2).Perm found

namespace Yields

variable {spots spots' : List (Place × Node)} {found found' : List (List Node × Node)}

lemma nil : Yields [] [] := ⟨by simp, .refl _⟩

lemma single (h : Visited q c) : Yields [(q, c)] (reachedIn q.trail c) :=
  ⟨List.forall_mem_singleton.mpr h, by rw [List.flatMap_singleton]⟩

lemma word (hp : Plain c) (hk : c.kind ∈ wordKinds) : Yields [] (reachedIn trail c) := by
  rw [reachedIn_word hp hk]
  exact nil

lemma passed (h : passesOver trail n c = true) : Yields [] (reachedIn (n :: trail) c) := by
  rw [reachedIn_of_passesOver h]
  exact nil

lemma all_passed (h : ∀ c, passesOver trail n c = true) : Yields [] (reachedBelow trail n) := by
  rw [reachedBelow, List.flatMap_eq_nil_iff.mpr fun c _ => reachedIn_of_passesOver (h c)]
  exact nil

lemma append (h : Yields spots found) (h' : Yields spots' found') :
    Yields (spots ++ spots') (found ++ found') where
  visited := List.forall_mem_append.mpr ⟨h.visited, h'.visited⟩
  reached := by
    rw [List.flatMap_append]
    exact h.reached.append h'.reached

lemma flatMap {α : Type} {l : List α} {f : α → List (Place × Node)} {r : α → List (List Node × Node)}
    (h : ∀ a ∈ l, Yields (f a) (r a)) : Yields (l.flatMap f) (l.flatMap r) where
  visited s hs := by
    obtain ⟨a, ha, hs⟩ := List.mem_flatMap.mp hs
    exact (h a ha).visited s hs
  reached := by
    rw [List.flatMap_assoc]
    exact List.Perm.flatMap_left l fun a ha => (h a ha).reached

lemma perm (h : Yields spots found) (hp : found.Perm found') : Yields spots found' :=
  ⟨h.visited, h.reached.trans hp⟩

lemma visits {ns : List Node} (h : ∀ c ∈ ns, Visited q c) :
    Yields (spotsOf (visits q ns)) (ns.flatMap (reachedIn q.trail)) := by
  rw [spotsOf, Outline.visits, List.flatMap_map]
  exact flatMap fun c hc => single (h c hc)

end Yields

section Spots

variable {ms ms' : List Move}

@[simp] lemma spotsOf_nil : spotsOf [] = [] := rfl

@[simp] lemma spotsOf_cons {m : Move} : spotsOf (m :: ms) = m.spots ++ spotsOf ms := rfl

@[simp] lemma spotsOf_append : spotsOf (ms ++ ms') = spotsOf ms ++ spotsOf ms' := List.flatMap_append

lemma spotsOf_flatMap {α : Type} {l : List α} {f : α → List Move} :
    spotsOf (l.flatMap f) = l.flatMap fun a => spotsOf (f a) := List.flatMap_assoc

lemma spotsOf_map {α : Type} {l : List α} {f : α → Move} :
    spotsOf (l.map f) = l.flatMap fun a => (f a).spots := List.flatMap_map f Move.spots l

lemma spotsOf_option {o : Option Node} {f : Node → Move} (h : ∀ c, (f c).spots = []) :
    spotsOf (o.map f).toList = [] := by
  cases o with
  | none => rfl
  | some c => simp [h]

@[simp] lemma spotsOf_bindMoves {name : Option Node} {written : Option String} :
    spotsOf (bindMoves p name written) = [] := spotsOf_option fun _ => rfl

end Spots

/-- Kinds of nodes some parts of which are bypassed. -/
def bypassingKinds : List Kind := variableKinds ++ [.recordDeclaration, .formalParameters, .scopedType]

/-- A node that is no named type and of which no part is bypassed. -/
structure Ordinary (p : Place) (n : Node) : Prop extends Cleared p n where
  unnamed : isNamedType n = false
  parts : ∀ c, bypassed (n :: p.trail) c = false

section Parts

lemma isNamedType_of_kind (hk : n.kind ∉ typeKinds) : isNamedType n = false := by
  rw [isNamedType, isTypeDeclaration, List.contains_eq_mem, decide_eq_false hk, Bool.false_and]

lemma not_bypassed (hk : n.kind ∉ bypassingKinds) (c : Node) : bypassed (n :: trail) c = false := by
  simp only [bypassingKinds, List.mem_append, List.mem_cons, List.not_mem_nil, or_false, not_or] at hk
  rw [bypassed]
  split <;> simp [isRecordHead, hk]

lemma Cleared.withOwner (h : Cleared p n) (first : Nat) : Cleared (p.withOwner first) n :=
  ⟨h.typed, h.clear⟩

lemma Cleared.inside (h : Cleared p n) (hn : isNamedType n = false)
    (hpass : passesOver p.trail n c = false) : Cleared (p.inside n) c where
  typed := by
    rw [Place.inside, List.any_cons, hn, Bool.false_or]
    exact h.typed
  clear := by
    rw [Place.inside, passedOver, hpass, Bool.false_or]
    exact h.clear

lemma Cleared.ordinary (h : Cleared p n) (hk : n.kind ∉ typeKinds ++ bypassingKinds) :
    Ordinary p n := by
  rw [List.mem_append, not_or] at hk
  exact ⟨h, isNamedType_of_kind hk.1, not_bypassed hk.2⟩

namespace Ordinary

variable (h : Ordinary p n)
include h

lemma visited (hpass : passesOver p.trail n c = false) : Visited (p.inside n) c :=
  ⟨h.toCleared.inside h.unnamed hpass, h.parts c⟩

lemma yields_filter (hp : Plain n) {test : Node → Bool}
    (hkeep : ∀ c ∈ n.children, test c = true → passesOver p.trail n c = false)
    (hdrop : ∀ c ∈ n.children, test c = false → c.kind ∈ wordKinds ∨ passesOver p.trail n c = true) :
    Yields (spotsOf (visits (p.inside n) (n.named.filter test))) (reachedBelow p.trail n) := by
  rw [← flatMap_named_filter hp hdrop]
  refine .visits fun c hc => ?_
  obtain ⟨hc, ht⟩ := List.mem_filter.mp hc
  exact h.visited (hkeep c (Node.mem_children_of_mem_named hc) ht)

lemma yields_children (hp : Plain n) (hpass : ∀ c, passesOver p.trail n c = false) :
    Yields (spotsOf (visits (p.inside n) n.named)) (reachedBelow p.trail n) := by
  rw [← flatMap_named hp]
  exact .visits fun c _ => h.visited (hpass c)

lemma yields_slot {s : Slot} (hpass : ∀ c, n.child? s = some c → passesOver p.trail n c = false) :
    Yields (spotsOf (slotMoves s p n)) ((n.child? s).toList.flatMap (reachedIn (n :: p.trail))) :=
  .visits fun c hc => h.visited (hpass c (Option.mem_toList.mp hc))

lemma yields_slots (hg : n.Grammatical) {slots : List Slot} (hd : slots.Nodup)
    (hpass : ∀ c, passesOver p.trail n c = !standsIn n slots c) :
    Yields (slots.flatMap fun s => spotsOf (slotMoves s p n)) (reachedBelow p.trail n) := by
  refine Yields.perm (.flatMap fun s hs => h.yields_slot fun c hc => ?_)
    (slots_reached hg hd fun c _ hc => ?_)
  · rw [hpass, standsIn_of_child? hs hc, Bool.not_true]
  · rw [hpass, hc, Bool.not_false]

end Ordinary

end Parts

def parameterKinds : List Kind := [.formalParameter, .catchParameter, .spreadParameter]

lemma kind_beq_false {ks : List Kind} {k : Kind} (hk : n.kind ∈ ks) (hno : k ∉ ks) :
    (n.kind == k) = false :=
  beq_eq_false_iff_ne.mpr fun heq => hno (heq ▸ hk)

lemma bypassed_in_declaration (hk : n.kind ∈ variableKinds) (trail : List Node) (c : Node) :
    bypassed (n :: trail) c = (c.kind == .variableDeclarator) := by
  rw [bypassed]
  split
  · next hc =>
    rw [hc, List.contains_iff_mem.mpr hk]
    rfl
  · next hc =>
    rw [hc, isRecordHead, kind_beq_false hk (by decide)]
    rfl
  · next hc =>
    rw [hc, kind_beq_false hk (by decide)]
    rfl
  · next hc =>
    rw [hc, kind_beq_false hk (by decide)]
    rfl
  · next hno _ _ _ => rw [beq_eq_false_iff_ne.mpr hno]

lemma bypassed_in_type (hk : n.kind ∈ typeKinds) (trail : List Node) (c : Node) :
    bypassed (n :: trail) c = (c.kind == .formalParameters && isRecordHead n) := by
  rw [bypassed]
  split
  · next hc =>
    rw [hc]
    exact (by decide : ∀ k ∈ typeKinds, variableKinds.contains k = false) _ hk
  · next hc =>
    rw [hc]
    rfl
  · next hc =>
    rw [hc, kind_beq_false hk (by decide)]
    rfl
  · next hc =>
    rw [hc, kind_beq_false hk (by decide)]
    rfl
  · next hno _ _ => rw [beq_eq_false_iff_ne.mpr hno, Bool.false_and]

lemma bypassed_in_parameters (hk : n.kind = .formalParameters) (c : Node) :
    bypassed (n :: trail) c = (c.kind == .formalParameter && bypassed trail n) := by
  have hhead : bypassed trail n = trail.head?.any isRecordHead := by
    cases trail with
    | nil => rfl
    | cons parent trail => rw [bypassed, hk, List.head?_cons, Option.any_some]
  rw [bypassed, hk, hhead]
  split
  · next hc =>
    rw [hc]
    rfl
  · next hc =>
    rw [hc, isRecordHead, hk]
    rfl
  · next hc =>
    rw [hc]
    rfl
  · next hc =>
    rw [hc]
    rfl
  · next _ _ hno _ => rw [beq_eq_false_iff_ne.mpr hno, Bool.false_and]

/-- The walk goes by a variable to its value. -/
lemma yields_variable (hc : Cleared q c) (hgc : c.Grammatical) (hk : c.kind = .variableDeclarator)
    (hby : bypassed q.trail c = true) :
    Yields (spotsOf (slotMoves .value q c)) (reachedIn q.trail c) := by
  have hord := hc.ordinary (by rw [hk]; decide)
  have hslots := hord.yields_slots hgc (List.nodup_singleton Slot.value) fun b => by
    rw [passesOver, hk]
    simp only [hby, Bool.true_and]
  rw [List.flatMap_singleton] at hslots
  rwa [reachedIn_of_kind (by rw [hk]; decide)]

lemma yields_body (hc : Cleared q c) (hpc : Plain c) (hk : c.kind = .classBody) :
    Yields (Move.body (q.inBody c) c).spots (reachedIn q.trail c) := by
  have hin : Cleared { q with anonymous := q.anonymous + 1 } c := ⟨hc.typed, hc.clear⟩
  have hord := hin.ordinary (by rw [hk]; decide)
  have hspots : (Move.body (q.inBody c) c).spots = spotsOf (visits (q.inBody c) c.named) := by
    rw [Move.spots, visits, spotsOf_map, List.map_eq_flatMap]
    rfl
  rw [hspots, reachedIn_of_kind (by rw [hk]; decide)]
  exact hord.yields_children hpc fun b => by rw [passesOver, hk]

lemma yields_component (hq : Cleared q n) (hg : n.Grammatical) (hp : Plain n)
    (hk : n.kind = .formalParameters) (hby : bypassed q.trail n = true) (id : String) :
    Yields (spotsOf (componentMoves q n id)) (reachedBelow q.trail n) := by
  rw [componentMoves, spotsOf_flatMap, ← flatMap_named hp]
  refine .flatMap fun c hc => ?_
  have hm := Node.mem_children_of_mem_named hc
  have hpasses (b : Node) : passesOver q.trail n b =
      !(b.kind == .formalParameter && (b.child? .name).isSome && (b.child? .type).isSome) := by
    rw [passesOver, hk]
    simp only [hby, Bool.true_and]
  rw [componentPart]
  split
  · next name type hkc hname htype =>
    have hclear : Cleared (q.inside n) c := hq.inside (isNamedType_of_kind (by rw [hk]; decide)) (by
      rw [hpasses, hkc, hname, htype]
      rfl)
    have hhead : bypassed (n :: q.trail) c = true := by
      rw [bypassed_in_parameters hk, hkc, hby]
      rfl
    have hslots := (hclear.ordinary (by rw [hkc]; decide)).yields_slots (hg.child hm)
      (List.nodup_singleton Slot.type) fun b => by
        rw [passesOver, hkc]
        exact if_pos hhead
    rw [List.flatMap_singleton, slotMoves, htype] at hslots
    rw [reachedIn_of_kind (by rw [hkc]; decide)]
    exact hslots
  · next hno =>
    refine .passed ?_
    rw [hpasses]
    cases hname : c.child? .name with
    | none => simp
    | some name =>
      cases htype : c.child? .type with
      | none => simp
      | some type => simpa using fun hkc => hno name type hkc hname htype

lemma passesOver_lambda (hk : n.kind = .lambda) (trail : List Node) (c : Node) :
    passesOver trail n c = (!standsIn n [.parameters, .body] c ||
      c.kind == .inferredParameters && c.slot? == some .parameters) := by rw [passesOver, hk]

section Kinds

variable (h : Visited p n)
include h

lemma yields_type (hg : n.Grammatical) (hp : Plain n) (hk : n.kind ∈ typeKinds) (first : Nat)
    (package : String) : Yields (spotsOf (typeMoves p n first package)) (reachedBelow p.trail n) := by
  have hpass (c : Node) : passesOver p.trail n c = false := by
    simp only [typeKinds, List.mem_cons, List.not_mem_nil, or_false] at hk
    rcases hk with hk | hk | hk | hk | hk <;> rw [passesOver, hk]
  have hparts := bypassed_in_type hk p.trail
  rw [typeMoves]
  split
  · next hname =>
    have hord : Ordinary p n := ⟨h.toCleared, by simp [isNamedType, hname], fun c => by
      simp [hparts, isRecordHead, hname]⟩
    exact hord.yields_children hp hpass
  · next name hname =>
    have hrecord : isRecordHead n = (typeKind n.kind == .recordType) := by
      rw [isRecordHead, hname, Option.isSome_some, Bool.and_true]
      exact (by decide : ∀ k ∈ typeKinds, (k == .recordDeclaration) = (typeKind k == .recordType)) _ hk
    change Yields (spotsOf (n.named.flatMap _)) _
    rw [spotsOf_flatMap, ← flatMap_named hp]
    refine .flatMap fun c hc => ?_
    have hm := Node.mem_children_of_mem_named hc
    have hclear {id : String} : Cleared (p.inType n id first) c := by
      refine ⟨?_, ?_⟩
      · simp [Place.inType, Place.inside, Place.typeId?, isNamedType, isTypeDeclaration, hk, hname]
      · change (passesOver p.trail n c || passedOver p.trail n) = false
        rw [hpass, h.clear, Bool.or_self]
    have hvisit {id : String} (hby : (c.kind == .formalParameters && isRecordHead n) = false) :
        Yields (spotsOf [.visit (p.inType n id first) c]) (reachedIn (n :: p.trail) c) :=
      .single ⟨hclear, (hparts c).trans hby⟩
    rw [typePart]
    split
    · next hkc => exact .word (hp.child hm) (by rw [hkc]; decide)
    · next hkc =>
      split
      · next hrec =>
        have hhead : bypassed (n :: p.trail) c = true := by
          rw [hparts, hrecord, hrec, hkc]
          rfl
        rw [reachedIn_of_kind (by rw [hkc]; decide)]
        exact yields_component hclear (hg.child hm) (hp.child hm) hkc hhead _
      · next hrec => exact hvisit (by rw [hrecord, eq_false_of_ne_true hrec, Bool.and_false])
    · next hno =>
      refine hvisit ?_
      rw [beq_eq_false_iff_ne.mpr hno, Bool.false_and]

lemma yields_method (hp : Plain n) (hk : n.kind ∈ methodKinds) (first : Nat) :
    Yields (spotsOf (methodMoves p n first)) (reachedBelow p.trail n) := by
  have hpass (c : Node) : passesOver p.trail n c = false := by
    simp only [methodKinds, List.mem_cons, List.not_mem_nil, or_false] at hk
    rcases hk with hk | hk | hk <;> rw [passesOver, hk]
  have hvisits {q : Place} (hq : Cleared q n) (htrail : q.trail = p.trail) :
      Yields (spotsOf (visits (q.inside n) (beyondName n))) (reachedBelow p.trail n) := by
    have hord := hq.ordinary
      ((by decide : ∀ k ∈ methodKinds, k ∉ typeKinds ++ bypassingKinds) _ hk)
    rw [← htrail] at hpass ⊢
    refine hord.yields_filter hp (fun c _ _ => hpass c) fun c _ hc => .inl ?_
    rw [bne_eq_false_iff_eq.mp hc]
    decide
  rw [methodMoves]
  split
  · exact hvisits (h.toCleared.withOwner first) rfl
  · exact hvisits h.toCleared rfl

lemma yields_field (hg : n.Grammatical) (hp : Plain n) (hk : n.kind ∈ fieldKinds) (first : Nat) :
    Yields (spotsOf (fieldMoves p n first)) (reachedBelow p.trail n) := by
  have hpass (c : Node) : passesOver p.trail n c = false := by
    simp only [fieldKinds, List.mem_cons, List.not_mem_nil, or_false] at hk
    rcases hk with hk | hk <;> rw [passesOver, hk]
  have hun : isNamedType n = false :=
    isNamedType_of_kind ((by decide : ∀ k ∈ fieldKinds, k ∉ typeKinds) _ hk)
  obtain ⟨htrail, hclear⟩ : (fieldPlace p n first).trail = p.trail ∧
      Cleared (fieldPlace p n first) n := by
    rw [fieldPlace]
    split
    · exact ⟨rfl, h.toCleared.withOwner first⟩
    · exact ⟨rfl, h.toCleared⟩
  have hinside (c : Node) : Cleared ((fieldPlace p n first).inside n) c :=
    hclear.inside hun (by rw [htrail]; exact hpass c)
  have hheads : spotsOf ((declaredNames n).map (fieldHead p n)) = [] := by
    rw [spotsOf_map]
    refine List.flatMap_eq_nil_iff.mpr fun name _ => ?_
    rw [fieldHead]
    split <;> rfl
  have hsplit := variables_last hp p.trail
  rw [fieldMoves, spotsOf_append, spotsOf_append, hheads, List.nil_append, spotsOf_flatMap, ← htrail]
  rw [← htrail] at hsplit
  have hvariable := bypassed_in_declaration
    ((by decide : ∀ k ∈ fieldKinds, k ∈ variableKinds) _ hk) (fieldPlace p n first).trail
  refine Yields.perm (.append (.visits fun c hc => ⟨hinside c, ?_⟩) (.flatMap fun c hc => ?_)) hsplit
  · refine (hvariable c).trans ?_
    exact beq_eq_false_iff_ne.mpr (bne_iff_ne.mp (List.mem_filter.mp hc).2)
  · obtain ⟨hc, hkc⟩ := List.mem_filter.mp hc
    have hgc := hg.child (Node.mem_children_of_mem_named hc)
    exact yields_variable (hinside c) hgc (eq_of_beq hkc) ((hvariable c).trans hkc)

lemma yields_constant (hp : Plain n) (hk : n.kind = .enumConstant) (first : Nat) :
    Yields (spotsOf (constantMoves p n first)) (reachedBelow p.trail n) := by
  have hpass (c : Node) : passesOver p.trail n c =
      !((n.child? .name).isSome && p.trail.any isNamedType) := by rw [passesOver, hk]
  -- whether a constant is declared is up to the types of its place, not to those of the trail
  rw [← h.typed] at hpass
  rw [constantMoves]
  split
  · next typeId name hid hname =>
    have hclear := h.toCleared.withOwner first
    have hord : Ordinary (p.withOwner first) n := hclear.ordinary (by rw [hk]; decide)
    have hvisited (c : Node) : Visited ((p.withOwner first).inside n) c :=
      hord.visited ((hpass c).trans (by rw [hid, hname]; rfl))
    change Yields (spotsOf (n.named.flatMap _)) _
    rw [spotsOf_flatMap, ← flatMap_named hp]
    refine .flatMap fun c hc => ?_
    have hm := Node.mem_children_of_mem_named hc
    rw [constantPart]
    split
    · next hkc => exact .word (hp.child hm) (by rw [hkc]; decide)
    · next hkc =>
      rw [spotsOf_cons, spotsOf_nil, List.append_nil]
      exact yields_body (hvisited c).toCleared (hp.child hm) hkc
    · exact .single (hvisited c)
  · next hno =>
    refine .all_passed fun c => ?_
    rw [hpass]
    cases hid : p.typeId? with
    | none => simp
    | some typeId =>
      cases hname : n.child? .name with
      | none => simp
      | some name => exact (hno typeId name hid hname).elim

lemma yields_local (hg : n.Grammatical) (hp : Plain n) (hk : n.kind = .localVariable) :
    Yields (spotsOf (localMoves p n)) (reachedBelow p.trail n) := by
  have hpass (c : Node) : passesOver p.trail n c = false := by rw [passesOver, hk]
  have hinside (c : Node) : Cleared (p.inside n) c :=
    h.toCleared.inside (isNamedType_of_kind (by rw [hk]; decide)) (hpass c)
  have hvariable := bypassed_in_declaration (show n.kind ∈ variableKinds by rw [hk]; decide) p.trail
  suffices hparts : ∀ (cs : List Node) (written : Option String), cs ⊆ n.children →
      Yields (spotsOf (localParts p n written cs)) (cs.flatMap (reachedIn (n :: p.trail))) by
    rw [← flatMap_named hp]
    exact hparts n.named _ fun c hc => Node.mem_children_of_mem_named hc
  intro cs
  induction cs with
  | nil => exact fun _ _ => .nil
  | cons c cs ih =>
    intro written hcs
    obtain ⟨hc, hcs⟩ := List.cons_subset.mp hcs
    rw [localParts, List.flatMap_cons]
    split
    · next hkc =>
      have hbinds (written : Option String) :
          spotsOf (variableMoves p n c written) = spotsOf (slotMoves .value (p.inside n) c) := by
        rw [variableMoves, spotsOf_append, spotsOf_option fun _ => rfl, List.append_nil]
      rw [spotsOf_append, hbinds]
      exact (yields_variable (hinside c) (hg.child hc) (eq_of_beq hkc) ((hvariable c).trans hkc)).append
        (ih _ hcs)
    · next hkc =>
      refine (Yields.single ⟨hinside c, ?_⟩).append (ih _ hcs)
      exact (hvariable c).trans (eq_false_of_ne_true hkc)

lemma yields_parameter (hp : Plain n) (hk : n.kind ∈ parameterKinds) :
    Yields (spotsOf (parameterMoves p n)) (reachedBelow p.trail n) := by
  have hpass (c : Node) : passesOver p.trail n c = (c.kind == .variableDeclarator) := by
    simp only [parameterKinds, List.mem_cons, List.not_mem_nil, or_false] at hk
    have hdirect := h.direct
    rcases hk with hk | hk | hk <;> rw [passesOver, hk]
    rw [hdirect, if_neg (by decide)]
  have hord := h.toCleared.ordinary
    ((by decide : ∀ k ∈ parameterKinds, k ∉ typeKinds ++ bypassingKinds) _ hk)
  rw [parameterMoves, spotsOf_append, spotsOf_bindMoves, List.append_nil]
  refine hord.yields_filter hp (fun c _ hc => ?_) fun c _ hc => ?_
  · rw [hpass]
    exact beq_eq_false_iff_ne.mpr (bne_iff_ne.mp (Bool.and_eq_true_iff.mp hc).2)
  · rcases Bool.and_eq_false_iff.mp hc with hc | hc
    · rw [bne_eq_false_iff_eq.mp hc]
      exact .inl (by decide)
    · rw [hpass, bne_eq_false_iff_eq.mp hc]
      exact .inr rfl

lemma yields_resource (hg : n.Grammatical) (hp : Plain n) (hk : n.kind = .resource) :
    Yields (spotsOf (resourceMoves p n)) (reachedBelow p.trail n) := by
  have hord := h.toCleared.ordinary (by rw [hk]; decide)
  rw [resourceMoves]
  split
  · next hname =>
    refine hord.yields_children hp fun c => ?_
    rw [passesOver, hk]
    simp only [hname, Option.isSome_none, Bool.false_and]
  · next name hname =>
    have hslots := hord.yields_slots hg (show [Slot.type, .value].Nodup by decide) fun c => by
      rw [passesOver, hk]
      simp only [hname, Option.isSome_some, Bool.true_and]
    simpa [Move.spots] using hslots

lemma yields_lambdaHeads (hp : Plain n) (hk : n.kind = .lambda) :
    Yields (spotsOf (lambdaHeads p n))
      ((n.child? .parameters).toList.flatMap (reachedIn (n :: p.trail))) := by
  have hord := h.toCleared.ordinary (by rw [hk]; decide)
  have hpass := passesOver_lambda hk p.trail
  rw [lambdaHeads]
  split
  · next hno =>
    rw [hno]
    exact .nil
  · next parameters hps =>
    have hm := Node.mem_children_of_child? hps
    rw [hps, Option.toList_some, List.flatMap_singleton]
    split
    · next hkp => exact .word (hp.child hm) (by rw [hkp]; decide)
    · next hkp =>
      have hbinds : spotsOf (parameters.named.map fun c =>
          Move.bind (p.text c) (.variable none)) = [] := by
        rw [spotsOf_map]
        exact List.flatMap_eq_nil_iff.mpr fun _ _ => rfl
      rw [hbinds]
      refine .passed ?_
      rw [hpass, hkp, Node.slot?_of_child? hps, Bool.or_eq_true]
      exact .inr rfl
    · next hki hkn =>
      refine .single (hord.visited ?_)
      rw [hpass, standsIn_of_child? List.mem_cons_self hps, beq_eq_false_iff_ne.mpr hkn]
      rfl

lemma yields_lambda (hg : n.Grammatical) (hp : Plain n) (hk : n.kind = .lambda) :
    Yields (spotsOf (lambdaMoves p n)) (reachedBelow p.trail n) := by
  have hord := h.toCleared.ordinary (by rw [hk]; decide)
  have hpass := passesOver_lambda hk p.trail
  have hslots := slots_reached hg (show [Slot.parameters, .body].Nodup by decide) fun c _ hc =>
    show passesOver p.trail n c = true by rw [hpass, hc, Bool.not_false, Bool.true_or]
  rw [List.flatMap_cons, List.flatMap_singleton] at hslots
  rw [lambdaMoves, spotsOf_append]
  refine ((yields_lambdaHeads h hp hk).append (hord.yields_slot fun c hc => ?_)).perm hslots
  rw [hpass, standsIn_of_child? (List.mem_cons_of_mem _ List.mem_cons_self) hc,
    Node.slot?_of_child? hc]
  exact Bool.and_false _

lemma yields_enhancedFor (hg : n.Grammatical) (hk : n.kind = .enhancedForStatement) :
    Yields (spotsOf (enhancedForMoves p n)) (reachedBelow p.trail n) := by
  have hslots := (h.toCleared.ordinary (by rw [hk]; decide)).yields_slots hg
    (show [Slot.type, .value, .body].Nodup by decide) fun c => by rw [passesOver, hk]
  simpa [enhancedForMoves] using hslots

lemma yields_instanceTest (hg : n.Grammatical) (hk : n.kind = .instanceTest) :
    Yields (spotsOf (instanceTestMoves p n)) (reachedBelow p.trail n) := by
  have hslots := (h.toCleared.ordinary (by rw [hk]; decide)).yields_slots hg
    (show [Slot.left, .right, .pattern].Nodup by decide) fun c => by rw [passesOver, hk]
  have hname : spotsOf (testedName p n) = [] := by
    rw [testedName]
    split <;> rfl
  simpa [instanceTestMoves, hname] using hslots

lemma yields_typeParameter (hp : Plain n) (hk : n.kind = .typeParameter) :
    Yields (spotsOf (typeParameterMoves p n)) (reachedBelow p.trail n) := by
  have hpass (c : Node) : passesOver p.trail n c = (c.kind != .typeBound) := by rw [passesOver, hk]
  rw [typeParameterMoves, spotsOf_append, spotsOf_option fun _ => rfl, List.nil_append]
  have hord := h.toCleared.ordinary (by rw [hk]; decide)
  refine hord.yields_filter hp (fun c _ hc => ?_) fun c _ hc => ?_
  · rw [hpass, bne, hc, Bool.not_true]
  · rw [hpass, bne, hc, Bool.not_false]
    exact .inr rfl

lemma yields_creation (hp : Plain n) (hk : n.kind = .objectCreation) :
    Yields (spotsOf (creationMoves p n)) (reachedBelow p.trail n) := by
  have hpass (c : Node) : passesOver p.trail n c = false := by rw [passesOver, hk]
  have hord := h.toCleared.ordinary (by rw [hk]; decide)
  rw [creationMoves, spotsOf_append, spotsOf_option fun _ => rfl, List.nil_append, spotsOf_map,
    ← flatMap_named hp]
  refine .flatMap fun c hc => ?_
  have hvisited := hord.visited (hpass c)
  rw [creationPart]
  split
  · next hkc =>
    exact yields_body hvisited.toCleared (hp.child (Node.mem_children_of_mem_named hc)) (eq_of_beq hkc)
  · exact .single hvisited

lemma yields_constructorCall (hg : n.Grammatical) (hk : n.kind = .constructorCall) :
    Yields (spotsOf (constructorCallMoves p n)) (reachedBelow p.trail n) := by
  have hslots := (h.toCleared.ordinary (by rw [hk]; decide)).yields_slots hg
    (show [Slot.object, .arguments].Nodup by decide) fun c => by rw [passesOver, hk]
  have hcalled : spotsOf (calledConstructor p n) = [] := by
    rw [calledConstructor]
    split
    · split <;> rfl
    · rfl
  simpa [constructorCallMoves, hcalled] using hslots

lemma yields_invocation (hg : n.Grammatical) (hk : n.kind = .methodInvocation) :
    Yields (spotsOf (invocationMoves p n)) (reachedBelow p.trail n) := by
  have hslots := (h.toCleared.ordinary (by rw [hk]; decide)).yields_slots hg
    (show [Slot.object, .typeArguments, .arguments].Nodup by decide) fun c => by rw [passesOver, hk]
  rw [invocationMoves, spotsOf_append, spotsOf_append, spotsOf_append, spotsOf_option fun _ => rfl]
  simpa using hslots

lemma yields_methodReference (hg : n.Grammatical) (hk : n.kind = .methodReference) :
    Yields (spotsOf (methodReferenceMoves p n)) (reachedBelow p.trail n) := by
  have hpass (c : Node) : passesOver p.trail n c =
      (c.kind != .typeArguments && n.children.head?.all (·.start != c.start)) := by rw [passesOver, hk]
  have hord := h.toCleared.ordinary (by rw [hk]; decide)
  rw [methodReferenceMoves]
  split
  · next hnone =>
    rw [reachedBelow_of_leaf hnone]
    exact .nil
  · next qualifier rest hch =>
    simp only [hch, List.head?_cons, Option.all_some] at hpass
    have hrest : (rest.filter (·.kind == .typeArguments)).flatMap (reachedIn (n :: p.trail)) =
        rest.flatMap (reachedIn (n :: p.trail)) := by
      refine flatMap_filter_of_nil fun c hc hkc => reachedIn_of_passesOver ?_
      have hne : qualifier.start ≠ c.start := by
        intro heq
        have hnodup := children_nodup hg
        rw [hch] at hnodup
        have hin : c ∈ n.children := hch ▸ List.mem_cons_of_mem _ hc
        obtain rfl := eq_of_start_eq hg hin (hch ▸ List.mem_cons_self) heq
        exact (List.nodup_cons.mp hnodup).1 hc
      rw [hpass, bne, hkc, bne_iff_ne.mpr hne]
      rfl
    have hfound : reachedBelow p.trail n =
        (qualifier :: rest.filter (·.kind == .typeArguments)).flatMap (reachedIn (n :: p.trail)) := by
      rw [reachedBelow, hch, List.flatMap_cons, List.flatMap_cons, hrest]
    rw [spotsOf_append, spotsOf_option fun _ => rfl, List.nil_append, hfound]
    refine .visits fun c hc => hord.visited ?_
    rw [hpass]
    rcases List.mem_cons.mp hc with rfl | hc
    · rw [bne_self_eq_false, Bool.and_false]
    · rw [bne, (List.mem_filter.mp hc).2]
      rfl

lemma yields_fieldAccess (hg : n.Grammatical) (hk : n.kind = .fieldAccess) :
    Yields (spotsOf (fieldAccessMoves p n)) (reachedBelow p.trail n) := by
  have hslots := (h.toCleared.ordinary (by rw [hk]; decide)).yields_slots hg
    (show [Slot.object].Nodup by decide) fun c => by rw [passesOver, hk]
  rw [fieldAccessMoves, spotsOf_append, spotsOf_option fun _ => rfl]
  simpa using hslots

lemma yields_annotation (hg : n.Grammatical) (hk : n.kind ∈ annotationKinds) :
    Yields (spotsOf (annotationMoves p n)) (reachedBelow p.trail n) := by
  have hpass (c : Node) : passesOver p.trail n c = !standsIn n [.arguments] c := by
    simp only [annotationKinds, List.mem_cons, List.not_mem_nil, or_false] at hk
    rcases hk with hk | hk <;> rw [passesOver, hk]
  have hslots := (h.toCleared.ordinary
    ((by decide : ∀ k ∈ annotationKinds, k ∉ typeKinds ++ bypassingKinds) _ hk)).yields_slots hg
    (show [Slot.arguments].Nodup by decide) hpass
  rw [annotationMoves, spotsOf_append, spotsOf_option fun _ => rfl]
  simpa using hslots

lemma yields_elementPair (hg : n.Grammatical) (hk : n.kind = .elementPair) :
    Yields (spotsOf (slotMoves .value p n)) (reachedBelow p.trail n) := by
  have hslots := (h.toCleared.ordinary (by rw [hk]; decide)).yields_slots hg
    (show [Slot.value].Nodup by decide) fun c => by rw [passesOver, hk]
  simpa using hslots

lemma yields_scopedType (hp : Plain n) (hk : n.kind = .scopedType) :
    Yields (spotsOf (scopedTypeMoves p n)) (reachedBelow p.trail n) := by
  have hpass (c : Node) : passesOver p.trail n c = (c.kind != .genericType) := by rw [passesOver, hk]
  rw [scopedTypeMoves]
  split
  · next hparent =>
    -- a qualified name before the point of another is passed over, so the walk does not come to it
    exfalso
    have hclear := h.clear
    rw [Place.parentKind?, headKind?] at hparent
    cases htrail : p.trail with
    | nil => simp [htrail] at hparent
    | cons parent trail =>
      have hkp : parent.kind = .scopedType := by simpa [htrail] using hparent
      rw [htrail, passedOver, passesOver, hkp, hk] at hclear
      cases hclear
  · change Yields (spotsOf (n.named.flatMap _)) _
    rw [spotsOf_flatMap, ← flatMap_named hp]
    refine .flatMap fun c hc => ?_
    have hm := Node.mem_children_of_mem_named hc
    rw [qualifierPart]
    split
    · next hkc =>
      have hkc := eq_of_beq hkc
      have hclear : Cleared (p.inside n) c :=
        h.toCleared.inside (isNamedType_of_kind (by rw [hk]; decide)) (by rw [hpass, hkc]; rfl)
      have hpass' (b : Node) : passesOver (n :: p.trail) c b = (b.kind != .typeArguments) := by
        rw [passesOver, hkc]
        simp only [bypassed, hkc, hk, beq_self_eq_true, Bool.true_and]
      rw [reachedIn_of_kind (by rw [hkc]; decide)]
      refine (hclear.ordinary (by rw [hkc]; decide)).yields_filter (hp.child hm)
        (fun b _ hb => ?_) fun b _ hb => .inr ?_
      · exact (hpass' b).trans (by rw [bne, hb, Bool.not_true])
      · exact (hpass' b).trans (by rw [bne, hb, Bool.not_false])
    · next hkc => exact .passed (by rw [hpass, bne, eq_false_of_ne_true hkc, Bool.not_false])

lemma yields_moves (hg : n.Grammatical) (hp : Plain n) (first : Nat) (package : String) :
    Yields (spotsOf (moves p n first package)) (reachedBelow p.trail n) := by
  have hword (hw : n.kind ∈ wordKinds) : Yields [] (reachedBelow p.trail n) := by
    rw [reachedBelow_of_leaf (hp.leaf hw)]
    exact .nil
  rw [moves]
  cases hk : n.kind
  all_goals dsimp only
  case comment | breakStatement | continueStatement | scopedIdentifier =>
    exact .all_passed fun c => by rw [passesOver, hk]
  case packageDeclaration =>
    rw [packageMoves, spotsOf_option fun _ => rfl]
    exact .all_passed fun c => by rw [passesOver, hk]
  case importDeclaration =>
    have himports : spotsOf (importMoves p n) = [] := by
      rw [importMoves]
      split <;> rfl
    rw [himports]
    exact .all_passed fun c => by rw [passesOver, hk]
  case classDeclaration | interfaceDeclaration | enumDeclaration | recordDeclaration |
      annotationDeclaration => exact yields_type h hg hp (by rw [hk]; decide) first package
  case methodDeclaration | constructorDeclaration | annotationElement =>
    exact yields_method h hp (by rw [hk]; decide) first
  case fieldDeclaration | constantDeclaration => exact yields_field h hg hp (by rw [hk]; decide) first
  case enumConstant => exact yields_constant h hp hk first
  case lambda => exact yields_lambda h hg hp hk
  case enhancedForStatement => exact yields_enhancedFor h hg hk
  case localVariable => exact yields_local h hg hp hk
  case formalParameter | catchParameter | spreadParameter =>
    exact yields_parameter h hp (by rw [hk]; decide)
  case resource => exact yields_resource h hg hp hk
  case instanceTest => exact yields_instanceTest h hg hk
  case typeParameter => exact yields_typeParameter h hp hk
  case objectCreation => exact yields_creation h hp hk
  case constructorCall => exact yields_constructorCall h hg hk
  case methodInvocation => exact yields_invocation h hg hk
  case methodReference => exact yields_methodReference h hg hk
  case fieldAccess => exact yields_fieldAccess h hg hk
  case markerUse | annotationUse => exact yields_annotation h hg (by rw [hk]; decide)
  case elementPair => exact yields_elementPair h hg hk
  case labeledStatement =>
    have hpass (c : Node) : passesOver p.trail n c = false := by rw [passesOver, hk]
    refine (h.toCleared.ordinary (by rw [hk]; decide)).yields_filter hp (fun c _ _ => hpass c)
      fun c _ hc => .inl ?_
    rw [bne_eq_false_iff_eq.mp hc]
    decide
  case identifier =>
    have hspots : spotsOf (identifierMoves p n) = [] := by
      rw [identifierMoves]
      split <;> rfl
    rw [hspots]
    exact hword (by rw [hk]; decide)
  case typeIdentifier =>
    have hspots : spotsOf (typeIdentifierMoves p n) = [] := by
      rw [typeIdentifierMoves]
      split <;> rfl
    rw [hspots]
    exact hword (by rw [hk]; decide)
  case scopedType => exact yields_scopedType h hp hk
  case formalParameters =>
    have hun : isNamedType n = false := isNamedType_of_kind (by rw [hk]; decide)
    have hord : Ordinary p n := ⟨h.toCleared, hun, fun c => by
      rw [bypassed_in_parameters hk, h.direct, Bool.and_false]⟩
    refine hord.yields_children hp fun c => ?_
    rw [passesOver, hk]
    simp only [h.direct, Bool.false_and]
  case variableDeclarator | genericType =>
    refine (h.toCleared.ordinary (by rw [hk]; decide)).yields_children hp fun c => ?_
    rw [passesOver, hk]
    simp only [h.direct, Bool.false_and]
  all_goals
    refine (h.toCleared.ordinary (by rw [hk]; decide)).yields_children hp fun c => ?_
    rw [passesOver, hk]



end Kinds

end JavaAtlas.Outline
