import JavaAtlas.Proofs.WalkParts
import Mathlib.Data.List.Forall2

/-! Trees that are alike: node by node of one kind and in one slot, remarks apart, with texts that
mean the same wherever the walk reads them. What the walk finds out about a node from its kind, its
parts and the nodes around it is then the same in both trees. A gap is a scope of its own whose
content may be anything. -/

namespace JavaAtlas.Syntax.Node

/-- A comment that plays no part in its parent. -/
def isRemark (n : Node) : Bool := n.kind == .comment && n.slot? == none && n.children.isEmpty

def code (ns : List Node) : List Node := ns.filter (!·.isRemark)

/-- Whether the text of the node is read as a name. -/
def isName (n : Node) : Bool :=
  n.slot? == some .name || [Kind.identifier, .scopedIdentifier].contains n.kind

/-- Whether the text of the node is read as it stands. -/
def isSpelled (n : Node) : Bool :=
  n.isName || [some Slot.field, some .operator].contains n.slot? ||
    [Kind.mark, .typeIdentifier].contains n.kind

def bracketText (text : Node → String) (n : Node) : String :=
  ((n.child? .dimensions).map text).getD ""

end JavaAtlas.Syntax.Node

namespace JavaAtlas.Outline

open Syntax Text List

/-- The supertypes that a clause of a type declaration writes. -/
def heirTexts (text : Node → String) (n : Node) : List String :=
  match n.kind with
  | .superclass => n.named.map text
  | .superInterfaces | .extendsInterfaces => n.named.flatMap fun list => list.named.map text
  | _ => []

/-- Kinds of nodes whose content is walked in a scope of its own. -/
def scopeKinds : List Kind := typeKinds ++
  [.methodDeclaration, .constructorDeclaration, .annotationElement, .compactConstructor, .block,
   .constructorBody, .forStatement, .catchClause, .resourceTryStatement, .switchBlock, .lambda,
   .enhancedForStatement, .classBody]

/-- The parts of a node that are read there, as text or for what stands in them. -/
def textSlots : List Slot :=
  [.name, .type, .field, .operator, .parameters, .arguments, .dimensions]

/-- Parts of two nodes that are walked in a scope of their own and not read otherwise. -/
structure Gap (n c c' : Node) : Prop where
  kind_eq : c.kind = c'.kind
  kind_mem : c.kind ∈ scopeKinds
  slot_eq : c.slot? = c'.slot?
  unread : ∀ s ∈ textSlots, c.slot? ≠ some s
  opens : isBody n c = true ∨ opensScope c = true ∧ opensScope c' = true

lemma Gap.of_false {n c c' : Node} (h : False) : Gap n c c' := h.elim

def Declaration.inUnit (unit : Nat) (d : Declaration) : Declaration := { d with unit }

/-- What the identifier of a member has behind the name: nothing, or the parameters of a method. -/
def IsTail (kind : ElementKind) (tail : String) : Prop :=
  kind.isField = true ∧ tail = "" ∨ kind.isMethod = true ∧ ∃ types, tail = "(" ++ types ++ ")"

lemma IsTail.isType_eq {kind : ElementKind} {tail : String} (h : IsTail kind tail) :
    kind.isType = false := by
  rcases h with ⟨h, -⟩ | ⟨h, -⟩ <;> cases kind <;> first | rfl | cases h

/-- The second outline comes from the first one by gathering what is not seen. -/
structure Unseen (seen : Nat → Bool) (g g' : Gathered) : Prop where
  package_eq : g'.package = g.package
  scopes_eq : g'.scopes = g.scopes
  declarations : ∃ ds, g'.declarations.toList = g.declarations.toList ++ ds ∧
    ∀ d ∈ ds, d.element.nameOffset.all seen = false
  mentions : ∃ ms, g'.mentions.toList = g.mentions.toList ++ ms ∧ ∀ m ∈ ms, seen m.offset = false

/-- Walked in a scope of its own, the node yields nothing that is seen. -/
def Veiled (seen : Nat → Bool) (c : Node) : Prop :=
  (opensScope c = true → ∀ h p g, Unseen seen g (visit h p c g)) ∧
    ∀ h p g, Unseen seen g (g.inScope (visitAll (visit h) p c.named))

lemma veiled_of_false {c c' : Node} (h : False) :
    Veiled (fun _ => true) c ∧ Veiled (fun _ => true) c' := h.elim

/-- Two nodes of files whose texts are read by `text` and `text'`. Their types need only be the same
as far as `written` tells; when `exact` holds they also stand at the same place. -/
structure LikeAt (text text' : Node → String) (exact : Prop) (seen seen' : Nat → Bool)
    (written : String → String → Prop) (part : Node → Node → Prop) (n n' : Node) : Prop where
  kind_eq : n.kind = n'.kind
  slot_eq : n.slot? = n'.slot?
  code_children : Forall₂ part (Node.code n.children) (Node.code n'.children)
  start_eq : exact → n.start = n'.start
  stop_eq : exact → n.stop = n'.stop
  anchor_eq : n.slot? = some .type ∨ n.kind = .scopedType → exact →
    (anchorOf n).start = (anchorOf n').start ∧ (anchorOf n).stop = (anchorOf n').stop
  spelled_eq : n.isSpelled = true → text n = text' n'
  seen_word : n.isSpelled = true ∨ n.kind = .thisName →
    seen n.start = true ∧ seen' n'.start = true
  seen_anchor : n.slot? = some .type ∨ n.kind = .scopedType →
    seen (anchorOf n).start = true ∧ seen' (anchorOf n').start = true
  type_text : ∀ t t', n.child? .type = some t → n'.child? .type = some t' → written (text t) (text' t')
  test_text : n.kind = .instanceTest → ∀ t t', n.child? .right = some t → n'.child? .right = some t' →
    written (text t) (text' t')
  super_texts : Forall₂ written (heirTexts text n) (heirTexts text' n')
  spread_text : n.kind = .spreadParameter →
    Option.Rel written ((spreadType? n).map text) ((spreadType? n').map text')
  caught_text : n.kind = .catchType →
    Option.Rel written (n.named.head?.map text) (n'.named.head?.map text')
  erased_eq : [Kind.typeIdentifier, .scopedType, .genericType, .arrayType].contains n.kind = true →
    eraseType (text n) = eraseType (text' n')
  parameter_eq : n.kind = .formalParameter →
    ∀ t t', n.child? .type = some t → n'.child? .type = some t' →
      signatureType (text t ++ n.bracketText text) false =
        signatureType (text' t' ++ n'.bracketText text') false
  spread_eq : n.kind = .spreadParameter →
    (spreadType? n).map (fun t => signatureType (text t) true) =
      (spreadType? n').map (fun t => signatureType (text' t) true)
  inner_head : n.kind = .parenthesized → Option.Rel part n.named.head? n'.named.head?
  inferred_eq : n.kind = .inferredParameters → n.named.map text = n'.named.map text'
  qualifier : n.kind = .methodReference → n.children = [] ∧ n'.children = [] ∨
    ∃ q q' rest rest', n.children = q :: rest ∧ n'.children = q' :: rest' ∧ part q q' ∧
      Forall₂ part (Node.code rest) (Node.code rest')

lemma heirTexts_congr {text text' : Node → String} {n : Node}
    (ht : ∀ {m : Node} {k : Nat}, Under m k n → text m = text' m) :
    heirTexts text n = heirTexts text' n := by
  have hchild {c : Node} (hc : c ∈ n.named) : text c = text' c :=
    ht (.child (Node.mem_children_of_mem_named hc) .self)
  have hlists : (n.named.flatMap fun list => list.named.map text) =
      n.named.flatMap fun list => list.named.map text' := by
    refine flatMap_congr fun list hl => map_congr_left fun c hc => ?_
    have hc' := Node.mem_children_of_mem_named hc
    exact ht (.child (Node.mem_children_of_mem_named hl) (.child hc' .self))
  rw [heirTexts, heirTexts, hlists, map_congr_left fun c hc => hchild hc]

/-- A node that reads the same in both files is like itself. -/
lemma LikeAt.same {text text' : Node → String} {exact : Prop} {seen seen' : Nat → Bool}
    {written : String → String → Prop} {part : Node → Node → Prop} {n : Node}
    (ht : ∀ {m : Node} {k : Nat}, Under m k n → text m = text' m) (hw : ∀ a, written a a)
    (hp : ∀ c ∈ n.children, part c c)
    (hs : n.isSpelled = true ∨ n.kind = .thisName → seen n.start = true ∧ seen' n.start = true)
    (ha : n.slot? = some .type ∨ n.kind = .scopedType →
      seen (anchorOf n).start = true ∧ seen' (anchorOf n).start = true) :
    LikeAt text text' exact seen seen' written part n n := by
  have hchild {c : Node} (hc : c ∈ n.children) : text c = text' c := ht (.child hc .self)
  have hcode (ns : List Node) (hns : ns ⊆ n.children) : Forall₂ part (Node.code ns) (Node.code ns) :=
    forall₂_same.mpr fun c hc => hp c (hns (mem_of_mem_filter hc))
  have hself {o : Option Node} (ho : ∀ c ∈ o, c ∈ n.children) :
      Option.Rel written (o.map text) (o.map text') := by
    cases o with
    | none => exact .none
    | some c =>
      rw [Option.map_some, Option.map_some, hchild (ho c rfl)]
      exact .some (hw _)
  have hslot {s : Slot} {t t' : Node} (h : n.child? s = some t) (h' : n.child? s = some t') :
      t = t' ∧ text t = text' t :=
    ⟨Option.some.inj (h.symm.trans h'), hchild (Node.mem_children_of_child? h)⟩
  have hspread : ∀ c ∈ spreadType? n, c ∈ n.children := fun c hc =>
    Node.mem_children_of_mem_named (List.mem_of_find?_eq_some hc)
  have hbracket : n.bracketText text = n.bracketText text' := by
    rw [Node.bracketText, Node.bracketText]
    cases hd : n.child? .dimensions with
    | none => rfl
    | some d => rw [Option.map_some, Option.map_some, hchild (Node.mem_children_of_child? hd)]
  have hnamed : n.named.map text = n.named.map text' :=
    map_congr_left fun c hc => hchild (Node.mem_children_of_mem_named hc)
  constructor
  case kind_eq | slot_eq | start_eq | stop_eq => intros; rfl
  case anchor_eq => exact fun _ _ => ⟨rfl, rfl⟩
  case code_children => exact hcode _ fun _ h => h
  case seen_word => exact hs
  case seen_anchor => exact ha
  case spelled_eq => exact fun _ => ht .self
  case erased_eq => exact fun _ => congrArg eraseType (ht .self)
  case inferred_eq => exact fun _ => hnamed
  case spread_text => exact fun _ => hself hspread
  case caught_text =>
    exact fun _ => hself fun c hc => Node.mem_children_of_mem_named (List.mem_of_head? hc)
  case type_text =>
    intro t t' h h'
    obtain ⟨rfl, he⟩ := hslot h h'
    rw [he]
    exact hw _
  case test_text =>
    intro _ t t' h h'
    obtain ⟨rfl, he⟩ := hslot h h'
    rw [he]
    exact hw _
  case parameter_eq =>
    intro _ t t' h h'
    obtain ⟨rfl, he⟩ := hslot h h'
    rw [he, hbracket]
  case spread_eq =>
    intro _
    cases hc : spreadType? n with
    | none => rw [Option.map_none, Option.map_none]
    | some c => rw [Option.map_some, Option.map_some, hchild (hspread c hc)]
  case super_texts =>
    rw [heirTexts_congr ht]
    exact forall₂_same.mpr fun _ _ => hw _
  case inner_head =>
    intro _
    cases hh : n.named.head? with
    | none => exact .none
    | some c => exact .some (hp c (Node.mem_children_of_mem_named (List.mem_of_head? hh)))
  case qualifier =>
    intro _
    cases hcs : n.children with
    | nil => exact .inl ⟨rfl, rfl⟩
    | cons q rest =>
      refine .inr ⟨q, q, rest, rest, rfl, rfl, hp q (by simp [hcs]), hcode rest ?_⟩
      simp [hcs]

/-- A relation of nodes between two files, each seen from its outermost place, and of the gaps that
stand in a node. Of what the files declare and mention only that which is seen is compared. -/
structure Likeness where
  left : Place
  right : Place
  exact : Prop
  seen : Nat → Bool
  seen' : Nat → Bool
  written : String → String → Prop
  legible : String → Prop
  node : Node → Node → Prop
  gap : Node → Node → Node → Prop
  alike : ∀ {n n'}, node n n' → LikeAt left.text right.text exact seen seen' written
    (fun c c' => node c c' ∨ gap n c c') n n'
  gap_at : ∀ {n c c'}, gap n c c' → Gap n c c'
  veiled : ∀ {n c c'}, gap n c c' → Veiled seen c ∧ Veiled seen' c'
  legible_name : ∀ {n n'}, node n n' → n.isName = true → legible (left.text n)
  legible_append : ∀ {a b}, legible a → legible b → legible (a ++ "." ++ b)
  written_refl : ∀ a, written a a
  written_erase : ∀ {a b}, written a b → eraseType a = eraseType b
  written_var : ∀ {a b}, written a b → (a = "var" ↔ b = "var")

namespace Likeness

variable (L : Likeness)

/-- What stands in a node of the one tree and in a node of the other. -/
def Part (n c c' : Node) : Prop := L.node c c' ∨ L.gap n c c'

def Parts (n : Node) (ns ns' : List Node) : Prop := Forall₂ (L.Part n) (Node.code ns) (Node.code ns')

variable {L} {n n' c c' : Node} {ns ns' : List Node}

lemma kind_of_isRemark {c : Node} (hc : c.isRemark = true) : c.kind = .comment := by
  simp only [Node.isRemark, Bool.and_eq_true, beq_iff_eq] at hc
  exact hc.1.1

lemma slot_of_isRemark {c : Node} (hc : c.isRemark = true) : c.slot? = none := by
  simp only [Node.isRemark, Bool.and_eq_true, beq_iff_eq] at hc
  exact hc.1.2

namespace Part

lemma kind_eq (hc : L.Part n c c') : c.kind = c'.kind := by
  rcases hc with hc | hc
  · exact (L.alike hc).kind_eq
  · exact (L.gap_at hc).kind_eq

lemma slot_eq (hc : L.Part n c c') : c.slot? = c'.slot? := by
  rcases hc with hc | hc
  · exact (L.alike hc).slot_eq
  · exact (L.gap_at hc).slot_eq

lemma node_of_kind (hc : L.Part n c c') (hk : c.kind ∉ scopeKinds) : L.node c c' :=
  hc.resolve_right fun h => hk (L.gap_at h).kind_mem

lemma node_of_slot (hc : L.Part n c c') {s : Slot} (hs : c.slot? = some s) (ht : s ∈ textSlots) :
    L.node c c' :=
  hc.resolve_right fun h => (L.gap_at h).unread s ht hs

end Part

namespace Parts

lemma filter (hs : L.Parts n ns ns') (test : Kind → Bool) :
    L.Parts n (ns.filter (test ·.kind)) (ns'.filter (test ·.kind)) := by
  have hcomm (l : List Node) :
      Node.code (l.filter (test ·.kind)) = (Node.code l).filter (test ·.kind) := by
    simp only [Node.code, filter_filter, Bool.and_comm]
  rw [Parts, hcomm, hcomm]
  exact rel_filter (fun _ _ hc => by simp [hc.kind_eq]) hs

lemma children (hn : L.node n n') : L.Parts n n.children n'.children := (L.alike hn).code_children

lemma named (hn : L.node n n') : L.Parts n n.named n'.named := (children hn).filter (· != .mark)

end Parts

section Find

variable {test : Node → Bool}

lemma forall₂_find? {test' : Node → Bool} {R : Node → Node → Prop}
    (ht : ∀ c c', R c c' → test c = test' c') (hs : Forall₂ R ns ns') :
    ns.find? test = none ∧ ns'.find? test' = none ∨
      ∃ c c', ns.find? test = some c ∧ ns'.find? test' = some c' ∧ R c c' := by
  induction hs with
  | nil => exact .inl ⟨rfl, rfl⟩
  | @cons c c' ns ns' hc _ ih =>
    have he := ht c c' hc
    cases htest : test c with
    | true => exact .inr ⟨c, c', by simp [htest], by simp [← he, htest], hc⟩
    | false => simpa [htest, ← he] using ih

lemma find?_code (hr : ∀ c, c.isRemark = true → test c = false) (ns : List Node) :
    (Node.code ns).find? test = ns.find? test := by
  induction ns with
  | nil => rfl
  | cons c ns ih =>
    rw [Node.code] at ih ⊢
    cases hc : c.isRemark with
    | true => rw [filter_cons_of_neg (by simp [hc]), ih, find?_cons_of_neg (by simp [hr c hc])]
    | false => rw [filter_cons_of_pos (by simp [hc]), find?_cons, find?_cons, ih]

lemma Parts.find? (hs : L.Parts n ns ns') (hr : ∀ c, c.isRemark = true → test c = false)
    (ht : ∀ c c', L.Part n c c' → test c = test c') :
    ns.find? test = none ∧ ns'.find? test = none ∨
      ∃ c c', ns.find? test = some c ∧ ns'.find? test = some c' ∧ L.Part n c c' := by
  rw [← find?_code hr ns, ← find?_code hr ns']
  exact forall₂_find? ht hs

lemma Parts.ofKind (hs : L.Parts n ns ns') (test : Kind → Bool) (hc : test .comment = false) :
    ns.find? (test ·.kind) = none ∧ ns'.find? (test ·.kind) = none ∨
      ∃ c c', ns.find? (test ·.kind) = some c ∧ ns'.find? (test ·.kind) = some c' ∧
        L.Part n c c' :=
  hs.find? (fun _ hr => by rw [kind_of_isRemark hr, hc]) fun _ _ h => by rw [h.kind_eq]

lemma slot_part (hn : L.node n n') (s : Slot) :
    n.child? s = none ∧ n'.child? s = none ∨
      ∃ c c', n.child? s = some c ∧ n'.child? s = some c' ∧ L.Part n c c' :=
  (Parts.children hn).find? (fun _ hr => by simp [slot_of_isRemark hr]) fun _ _ h => by rw [h.slot_eq]

/-- A part that is read stands in no gap. -/
lemma child (hn : L.node n n') (s : Slot) (hs : s ∈ textSlots) :
    n.child? s = none ∧ n'.child? s = none ∨
      ∃ c c', n.child? s = some c ∧ n'.child? s = some c' ∧ L.node c c' := by
  rcases slot_part hn s with hc | ⟨c, c', hc, hc', hcc⟩
  · exact .inl hc
  · exact .inr ⟨c, c', hc, hc', hcc.node_of_slot (Node.slot?_of_child? hc) hs⟩

end Find

end Likeness

namespace Likeness

variable (L : Likeness)

inductive LikeLocal : Local → Local → Prop
  | variable {w w' : Option String} (h : Option.Rel L.written w w') :
      LikeLocal (.variable w) (.variable w')
  | typeParameter : LikeLocal .typeParameter .typeParameter

def LikeScope : Scope → Scope → Prop :=
  Forall₂ fun b b' => b.1 = b'.1 ∧ L.LikeLocal b.2 b'.2

/-- Two places of the two files at which the walks stand alike; `own` tells which declarations are
the same. -/
structure Beside (own : Nat → Nat → Prop) (p p' : Place) : Prop where
  source_eq : p.source = L.left.source
  source_eq' : p'.source = L.right.source
  unit_eq : p.unit = L.left.unit
  unit_eq' : p'.unit = L.right.unit
  unitIndex_eq : p.unitIndex = L.left.unitIndex
  unitIndex_eq' : p'.unitIndex = L.right.unitIndex
  chain_eq : p.chain = p'.chain
  owner : Option.Rel own p.owner p'.owner
  anonymous_eq : p.anonymous = p'.anonymous
  trail : Forall₂ L.node p.trail p'.trail
  legible : ∀ t ∈ p.chain, L.legible t

structure Declared (d d' : Declaration) : Prop where
  id_eq : d.id = d'.id
  name_eq : d.element.name = d'.element.name
  kind_eq : d.element.kind = d'.element.kind
  declaringType_eq : d.element.declaringType = d'.element.declaringType
  arity_eq : d.arity = d'.arity
  varargs_eq : d.varargs = d'.varargs
  chain_eq : d.chain = d'.chain
  typeText : Option.Rel L.written d.typeText d'.typeText
  superTexts : Forall₂ L.written d.superTexts d'.superTexts
  binary_eq : d.element.binary = d'.element.binary
  unit_eq : d.element.unit = some L.left.unit ∧ d'.element.unit = some L.right.unit
  unitIndex_eq : d.unit = L.left.unitIndex ∧ d'.unit = L.right.unitIndex
  place_eq : L.exact → d.start = d'.start ∧ d.stop = d'.stop ∧
    d.element.nameOffset = d'.element.nameOffset ∧ d.element.nameLength = d'.element.nameLength
  seen : d.element.nameOffset.all L.seen = true ∧ d'.element.nameOffset.all L.seen' = true
  legible : d.element.kind.isType = true → L.legible d.id
  member : d.element.kind.isType = false → ∃ type tail, d.element.declaringType = some type ∧
    L.legible type ∧ L.legible d.element.name ∧ d.id = type ++ "#" ++ d.element.name ++ tail ∧
    IsTail d.element.kind tail

structure Mentioned (own : Nat → Nat → Prop) (m m' : Mention) : Prop where
  role_eq : m.role = m'.role
  target_eq : m.target = m'.target
  enclosing : Option.Rel own m.enclosing m'.enclosing
  chain_eq : m.chain = m'.chain
  place_eq : L.exact → m.offset = m'.offset ∧ m.length = m'.length
  seen : L.seen m.offset = true ∧ L.seen' m'.offset = true

/-- The texts and places of the two files are the same, so what is alike differs in its position in
the project alone. -/
structure Literal : Prop where
  exact : L.exact
  written_eq : ∀ {a b}, L.written a b → a = b
  unit_eq : L.left.unit = L.right.unit

variable {L} {own own' : Nat → Nat → Prop} {p p' : Place} {g g' : Gathered} {n n' : Node}

lemma Declared.eq {d d' : Declaration} (h : L.Declared d d') (hl : L.Literal) :
    d.inUnit L.right.unitIndex = d' := by
  obtain ⟨hstart, hstop, hoffset, hlength⟩ := h.place_eq hl.exact
  have htype : d.typeText = d'.typeText := by
    have ht := h.typeText
    generalize d.typeText = o, d'.typeText = o' at ht
    cases ht with
    | none => rfl
    | some ht => exact congrArg some (hl.written_eq ht)
  have hsupers : d.superTexts = d'.superTexts := by
    have hs := h.superTexts.imp fun _ _ hw => hl.written_eq hw
    rwa [forall₂_eq_eq_eq] at hs
  have helement : d.element = d'.element := by
    have hunit := h.unit_eq.1.trans ((congrArg some hl.unit_eq).trans h.unit_eq.2.symm)
    have h₁ := h.id_eq
    have h₂ := h.name_eq
    have h₃ := h.kind_eq
    have h₄ := h.declaringType_eq
    have h₅ := h.binary_eq
    cases d with
    | mk e => cases d' with
      | mk e' =>
        cases e
        cases e'
        simp_all [Declaration.id]
  have hunit := h.unitIndex_eq.2
  have h₁ := h.arity_eq
  have h₂ := h.varargs_eq
  have h₃ := h.chain_eq
  cases d
  cases d'
  simp_all [Declaration.inUnit]

lemma Mentioned.eq {m m' : Mention} (h : L.Mentioned own m m') (hl : L.Literal) :
    { m with enclosing := m'.enclosing } = m' := by
  obtain ⟨hoffset, hlength⟩ := h.place_eq hl.exact
  have h₁ := h.role_eq
  have h₂ := h.target_eq
  have h₃ := h.chain_eq
  cases m
  cases m'
  simp_all

lemma rel_mono (h : ∀ i i', own i i' → own' i i') {o o' : Option Nat} (ho : Option.Rel own o o') :
    Option.Rel own' o o' := by
  cases ho with
  | none => exact .none
  | some ho => exact .some (h _ _ ho)

lemma Mentioned.mono {m m' : Mention} (h : ∀ i i', own i i' → own' i i')
    (hm : L.Mentioned own m m') : L.Mentioned own' m m' :=
  { hm with enclosing := rel_mono h hm.enclosing }

namespace Beside

lemma mono (h : ∀ i i', own i i' → own' i i') (hp : L.Beside own p p') : L.Beside own' p p' :=
  { hp with owner := rel_mono h hp.owner }

lemma text_eq (hp : L.Beside own p p') : p.text = L.left.text := by
  funext n
  rw [Place.text, Place.text, hp.source_eq]

lemma text_eq' (hp : L.Beside own p p') : p'.text = L.right.text := by
  funext n
  rw [Place.text, Place.text, hp.source_eq']

lemma typeId?_eq (hp : L.Beside own p p') : p.typeId? = p'.typeId? := by
  rw [Place.typeId?, Place.typeId?, hp.chain_eq]

lemma inside (hp : L.Beside own p p') (hn : L.node n n') : L.Beside own (p.inside n) (p'.inside n') :=
  { hp with trail := .cons hn hp.trail }

lemma inBody (hp : L.Beside own p p') (hn : L.node n n') : L.Beside own (p.inBody n) (p'.inBody n') :=
  { hp with
    trail := .cons hn hp.trail
    anonymous_eq := congrArg (· + 1) hp.anonymous_eq }

lemma withOwner (hp : L.Beside own p p') {i i' : Nat} (hi : own i i') :
    L.Beside own (p.withOwner i) (p'.withOwner i') :=
  { hp with owner := .some hi }

lemma inType (hp : L.Beside own p p') (hn : L.node n n') {id : String} (hid : L.legible id)
    {i i' : Nat} (hi : own i i') : L.Beside own (p.inType n id i) (p'.inType n' id i') :=
  { hp with
    trail := .cons hn hp.trail
    chain_eq := congrArg (· ++ [id]) hp.chain_eq
    owner := .some hi
    legible := by
      intro t ht
      rcases List.mem_append.mp ht with ht | ht
      · exact hp.legible t ht
      · rwa [List.mem_singleton.mp ht] }

lemma headKind?_eq {ns ns' : List Node} (hs : Forall₂ L.node ns ns') :
    headKind? ns = headKind? ns' := by
  cases hs with
  | nil => rfl
  | cons hc _ => exact congrArg some (L.alike hc).kind_eq

lemma parentKind?_eq (hp : L.Beside own p p') : p.parentKind? = p'.parentKind? :=
  headKind?_eq hp.trail

lemma isNaming_eq (hp : L.Beside own p p') (hn : L.node n n') : isNaming p n = isNaming p' n' := by
  rw [isNaming, isNaming, hp.parentKind?_eq, (L.alike hn).slot_eq]

lemma typeRole_eq {trail trail' : List Node} (ht : Forall₂ L.node trail trail')
    (hn : L.node n n') : typeRole n trail = typeRole n' trail' := by
  induction ht generalizing n n' with
  | nil => rfl
  | cons hc ht ih =>
    simp only [typeRole, (L.alike hc).kind_eq, (L.alike hn).kind_eq, (L.alike hn).slot_eq,
      headKind?_eq ht, ih hc]

end Beside

/-- What the two walks have bound so far is alike. -/
def Binds (L : Likeness) (g g' : Gathered) : Prop := Forall₂ L.LikeScope g.scopes g'.scopes

namespace Binds

lemma lookup (name : String) {scope scope' : Scope} (hs : L.LikeScope scope scope') :
    Option.Rel L.LikeLocal (scope.lookup name) (scope'.lookup name) := by
  induction hs with
  | nil => exact .none
  | @cons b b' _ _ hb _ ih =>
    obtain ⟨a, l⟩ := b
    obtain ⟨a', l'⟩ := b'
    obtain ⟨rfl, hl⟩ : a = a' ∧ L.LikeLocal l l' := hb
    rw [List.lookup_cons, List.lookup_cons]
    split
    · exact .some hl
    · exact ih

lemma local? (hg : L.Binds g g') (name : String) :
    Option.Rel L.LikeLocal (g.local? name) (g'.local? name) := by
  rw [Gathered.local?, Gathered.local?]
  have hs : Forall₂ L.LikeScope g.scopes g'.scopes := hg
  generalize g.scopes = scopes, g'.scopes = scopes' at hs
  induction hs with
  | nil => exact .none
  | @cons scope scope' _ _ hc _ ih =>
    rw [findSome?_cons, findSome?_cons]
    have hl := lookup name hc
    generalize scope.lookup name = o, scope'.lookup name = o' at hl
    cases hl with
    | none => exact ih
    | some hl => exact .some hl

lemma local?_isSome_eq (hg : L.Binds g g') (name : String) :
    (g.local? name).isSome = (g'.local? name).isSome := by
  have hl := hg.local? name
  generalize g.local? name = o, g'.local? name = o' at hl
  cases hl <;> rfl

lemma local?_typeParameter (hg : L.Binds g g') (name : String) :
    (g.local? name == some .typeParameter) = (g'.local? name == some .typeParameter) := by
  have hl := hg.local? name
  generalize g.local? name = o, g'.local? name = o' at hl
  cases hl with
  | none => rfl
  | some hl => cases hl <;> rfl

lemma bind (hg : L.Binds g g') (name : String) {l l' : Local} (hl : L.LikeLocal l l') :
    L.Binds (g.bind name l) (g'.bind name l') := by
  have hs : Forall₂ L.LikeScope g.scopes g'.scopes := hg
  rw [Gathered.bind, Gathered.bind]
  split
  · next scope outer he =>
    rw [he] at hs
    obtain ⟨scope', outer', hscope, houter, he'⟩ := forall₂_cons_left_iff.mp hs
    rw [he']
    exact .cons (.cons ⟨rfl, hl⟩ hscope) houter
  · next he =>
    rw [he] at hs
    rw [forall₂_nil_left_iff.mp hs]
    exact hg

end Binds

end Likeness

end JavaAtlas.Outline
