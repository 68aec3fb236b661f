import JavaAtlas.Proofs.TypeVisits
import JavaAtlas.Proofs.WalkMoves

/-! Where the moves of a walk lead. The nodes that are visited from a node stand below it, with no more
than a few nodes of fixed kinds between; what is declared or mentioned stands on a token. So whatever is
gathered from the bytes of a node is gathered when the walk comes to that node. -/

namespace JavaAtlas.Outline

open Syntax Text

/-- Whether the child is the body of a class without a name. -/
def isBody (n c : Node) : Bool :=
  [Kind.objectCreation, .enumConstant].contains n.kind && c.kind == .classBody

def bodies (n c : Node) : Nat := if isBody n c then 1 else 0

/-- The first node stands in the last one, inside so many bodies of classes without a name. -/
inductive Under (t : Node) : Nat → Node → Prop
  | self : Under t 0 t
  | child {k : Nat} {n c : Node} : c ∈ n.children → Under t k c → Under t (bodies n c + k) n

/-- Kinds of nodes that the walk may leave out on its way down. -/
def passedKinds : List Kind :=
  [.variableDeclarator, .formalParameters, .formalParameter, .classBody, .genericType, .scopedType,
   .scopedIdentifier]

inductive Through (n : Node) : Nat → Node → Prop
  | child {c : Node} : c ∈ n.children → Through n (bodies n c) c
  | next {j : Nat} {c b : Node} : Through n j c → c.kind ∈ passedKinds → b ∈ c.children →
      Through n j b

variable {p q : Place} {n c b t x : Node} {j k i : Nat}

lemma bodies_of_passed (h : n.kind ∈ passedKinds) (c : Node) : bodies n c = 0 := by
  refine if_neg fun hb => ?_
  simp only [isBody, Bool.and_eq_true, List.contains_eq_mem, decide_eq_true_eq] at hb
  obtain ⟨hb, -⟩ := hb
  simp only [List.mem_cons, List.not_mem_nil, or_false] at hb
  rcases hb with hb | hb <;> rw [hb] at h <;> exact absurd h (by decide)

namespace Under

lemma trans {s : Node} (h : Under s j n) (h' : Under t k s) : Under t (j + k) n := by
  induction h with
  | self => rwa [Nat.zero_add]
  | child hc _ ih =>
    rw [Nat.add_assoc]
    exact .child hc ih

lemma everywhere {test : Node → Bool} (h : Under t k n) (hn : n.everywhere test = true) :
    t.everywhere test = true := by
  induction h with
  | self => exact hn
  | child hc _ ih => exact ih (((Node.everywhere_iff test _).mp hn).2 _ hc)

lemma within (h : Under t k n) (hn : n.WellFormed) : t.Within n := by
  induction h with
  | self => exact hn.refl
  | child hc _ ih => exact (ih (hn.child hc)).trans (hn.within hc)

end Under

namespace Through

lemma everywhere {test : Node → Bool} (h : Through n j b) (hn : n.everywhere test = true) :
    b.everywhere test = true := by
  induction h with
  | child hc => exact ((Node.everywhere_iff test _).mp hn).2 _ hc
  | next _ _ hb ih => exact ((Node.everywhere_iff test _).mp ih).2 _ hb

lemma within (h : Through n j b) (hn : n.WellFormed) : b.Within n := by
  induction h with
  | child hc => exact hn.within hc
  | next h _ hb ih =>
    have hc : Node.WellFormed _ := h.everywhere hn
    exact (hc.within hb).trans ih

lemma height_lt (h : Through n j b) : b.height < n.height := by
  induction h with
  | child hc => exact Node.height_lt_of_mem hc
  | next _ _ hb ih => exact (Node.height_lt_of_mem hb).trans ih

lemma children_ne (h : Through n j b) : n.children ≠ [] := by
  induction h with
  | child hc => exact List.ne_nil_of_mem hc
  | next _ _ _ ih => exact ih

lemma nonempty (h : Through n j b) (hn : n.Grammatical) : b.start < b.stop := by
  cases h with
  | child hc => exact hn.nonempty_child hc
  | next h _ hb =>
    have hc : Node.Grammatical _ := h.everywhere hn
    exact hc.nonempty_child hb

end Through

lemma Through.isUnder (h : Through n j b) : Under b j n := by
  induction h with
  | child hc => exact .child hc .self
  | @next j c b _ hpass hb ih =>
    have hstep : Under b (bodies c b + 0) c := .child hb .self
    rw [bodies_of_passed hpass] at hstep
    exact ih.trans hstep

lemma child_unique (hn : n.WellFormed) (hc : c ∈ n.children) (hb : b ∈ n.children)
    (hi : i ∈ c.bytes) (hi' : i ∈ b.bytes) : c = b := by
  by_contra hne
  exact Set.disjoint_left.mp (hn.disjoint hc hb hne) hi hi'

/-- Two nodes of a tree that share a byte stand one in the other. -/
lemma Through.under (h : Through n j b) (hn : n.WellFormed) (ht : Under t k n) (hi : i ∈ t.bytes)
    (hi' : i ∈ b.bytes) :
    t = n ∧ k = 0 ∨ t.kind ∈ passedKinds ∨ ∃ l, k = j + l ∧ Under t l b := by
  induction h generalizing k with
  | child hc =>
    cases ht with
    | self => exact .inl ⟨rfl, rfl⟩
    | child hc' ht =>
      have hsub := (ht.within (hn.child hc')).bytes_subset
      obtain rfl := child_unique hn hc hc' hi' (hsub hi)
      exact .inr (.inr ⟨_, rfl, ht⟩)
  | @next j c b h hpass hb ih =>
    have hc : c.WellFormed := h.everywhere hn
    rcases ih ht ((hc.within hb).bytes_subset hi') with hself | hkind | ⟨l, hk, hl⟩
    · exact .inl hself
    · exact .inr (.inl hkind)
    · cases hl with
      | self => exact .inr (.inl hpass)
      | @child l n c' hc' hl =>
        have hsub := (hl.within (hc.child hc')).bytes_subset
        obtain rfl := child_unique hc hb hc' hi' (hsub hi)
        rw [bodies_of_passed hpass, Nat.zero_add] at hk
        exact .inr (.inr ⟨l, hk, hl⟩)

/-- The words of a tree are tokens: they have no parts, and what names a variable or is mentioned by
name is a word. -/
def plain (n : Node) : Bool :=
  match n.kind with
  | .identifier | .typeIdentifier | .primitiveType | .mark | .underscore | .thisName =>
    n.children.isEmpty
  | .variableDeclarator | .formalParameter | .catchParameter | .resource | .instanceTest
  | .enhancedForStatement | .compactConstructor =>
    (n.child? .name).all fun c => [Kind.identifier, .underscore].contains c.kind
  | .methodInvocation => (n.child? .name).all (·.kind == .identifier)
  | .fieldAccess => (n.child? .field).all fun c => [Kind.identifier, .thisName].contains c.kind
  | .markerUse | .annotationUse =>
    (n.child? .name).all fun c => [Kind.identifier, .scopedIdentifier].contains c.kind
  | .scopedIdentifier => (n.child? .name).any (·.kind == .identifier)
  | _ => true

def Plain (n : Node) : Prop := n.everywhere plain = true

instance : DecidablePred Plain := fun _ => inferInstanceAs (Decidable (_ = true))

lemma Plain.here (h : Plain n) : plain n = true := ((Node.everywhere_iff plain n).mp h).1

lemma Plain.child (h : Plain n) (hc : c ∈ n.children) : Plain c :=
  ((Node.everywhere_iff plain n).mp h).2 c hc

def wordKinds : List Kind :=
  [.identifier, .typeIdentifier, .primitiveType, .mark, .underscore, .thisName]

lemma Plain.leaf (h : Plain n) (hk : n.kind ∈ wordKinds) : n.children = [] := by
  have hp := h.here
  simp only [wordKinds, List.mem_cons, List.not_mem_nil, or_false] at hk
  rcases hk with hk | hk | hk | hk | hk | hk <;> simpa [plain, hk] using hp

/-- A word that stands in a node, or is the node. -/
structure TokenOf (n a : Node) : Prop where
  place : a = n ∨ ∃ j, Through n j a
  leaf : a.children = []
  nonempty : a.start < a.stop

namespace TokenOf

lemma of_child (hn : n.Grammatical) (hp : Plain n) (hc : c ∈ n.children)
    (hk : c.kind ∈ wordKinds) : TokenOf n c :=
  ⟨.inr ⟨_, .child hc⟩, (hp.child hc).leaf hk, hn.nonempty_child hc⟩

lemma of_through (hn : n.Grammatical) (hp : Plain n) (h : Through n j b)
    (hk : b.kind ∈ wordKinds) : TokenOf n b := by
  have hb : Plain b := h.everywhere hp
  exact ⟨.inr ⟨_, h⟩, hb.leaf hk, h.nonempty hn⟩

lemma within {a : Node} (h : TokenOf n a) (hn : n.WellFormed) : a.Within n := by
  rcases h.place with rfl | ⟨j, h⟩
  · exact hn.refl
  · exact h.within hn

/-- A word has no bytes in common with another node below the one it is taken from. -/
lemma absurd_under {a : Node} (h : TokenOf n a) (hn : n.WellFormed) (ht : Under t k n)
    (hkids : t.children ≠ []) (hkind : t.kind ∉ passedKinds) (hi : i ∈ t.bytes)
    (hi' : i ∈ a.bytes) : t = n ∧ k = 0 := by
  have hleaf {k : Nat} {a : Node} (ha : a.children = []) (hu : Under t k a) : t = a ∧ k = 0 := by
    cases hu with
    | self => exact ⟨rfl, rfl⟩
    | child hc _ => simp [ha] at hc
  rcases h.place with rfl | ⟨j, hthrough⟩
  · exact hleaf h.leaf ht
  · rcases hthrough.under hn ht hi hi' with hself | hpass | ⟨l, -, hl⟩
    · exact hself
    · exact absurd hpass hkind
    · obtain ⟨rfl, -⟩ := hleaf h.leaf hl
      exact absurd h.leaf hkids

end TokenOf

/-- A place in the same file, inside so many more bodies of classes without a name. -/
structure Deeper (p : Place) (j : Nat) (q : Place) : Prop where
  source_eq : q.source = p.source
  anonymous_eq : q.anonymous = p.anonymous + j

lemma Deeper.trans {r : Place} (h : Deeper p j q) (h' : Deeper q k r) : Deeper p (j + k) r :=
  ⟨h'.source_eq.trans h.source_eq, by rw [h'.anonymous_eq, h.anonymous_eq, Nat.add_assoc]⟩

lemma Deeper.text_eq (h : Deeper p j q) (n : Node) : q.text n = p.text n := by
  rw [Place.text, Place.text, h.source_eq]

def methodKinds : List Kind := [.methodDeclaration, .constructorDeclaration, .annotationElement]

def fieldKinds : List Kind := [.fieldDeclaration, .constantDeclaration]

/-- The node declares something, and the name it gives. -/
inductive DeclaredBy (p : Place) (n : Node) : Node → Declaration → Prop
  | type {x : Node} {id : String} : isTypeDeclaration n = true → n.child? .name = some x →
      DeclaredBy p n x (typeDeclaration p n id x)
  | method {x : Node} {typeId : String} : n.kind ∈ methodKinds → n.child? .name = some x →
      p.typeId? = some typeId → p.anonymous = 0 → DeclaredBy p n x (methodDeclaration p n typeId x)
  | field {x : Node} {typeId : String} : n.kind ∈ fieldKinds → x ∈ declaredNames n →
      p.typeId? = some typeId → p.anonymous = 0 → DeclaredBy p n x (fieldDeclaration p n typeId x)
  | constant {x : Node} {typeId : String} : n.kind = .enumConstant → n.child? .name = some x →
      p.typeId? = some typeId → DeclaredBy p n x (constantDeclaration p n typeId x)
  | component {x ps c : Node} {d : Declaration} : isTypeDeclaration n = true → ps ∈ n.children →
      ps.kind = .formalParameters → c ∈ ps.children → c.kind = .formalParameter →
      c.child? .name = some x → d.element.name = p.text x → d.element.nameOffset = some x.start →
      d.element.nameLength = x.length → DeclaredBy p n x d

/-- Kinds of nodes at which something is mentioned. -/
def usingKinds : List Kind :=
  [.objectCreation, .constructorCall, .methodInvocation, .methodReference, .fieldAccess, .markerUse,
   .annotationUse, .identifier, .typeIdentifier, .scopedType]

/-- A constructor is mentioned at the type of a created object or at the `this` that calls it, and
there nothing else is. -/
def Sited (n a : Node) : Target → Prop
  | .constructor _ _ =>
    (n.kind = .objectCreation ∧ ∃ type, n.child? .type = some type ∧ a = anchorOf type) ∨
      (n.kind = .constructorCall ∧ n.child? .constructor = some a ∧ a.kind = .thisName)
  | _ => n.kind ≠ .objectCreation ∧ n.kind ≠ .constructorCall

/-- What a move of a node can be. -/
inductive Move.Of (p : Place) (n : Node) : Move → Prop
  | visit {q : Place} {c : Node} {j : Nat} : Through n j c → Deeper p j q → Of p n (.visit q c)
  | body {q : Place} {c : Node} : c ∈ n.children → isBody n c = true → Deeper p 1 q →
      Of p n (.body q c)
  | bind {name : String} {l : Local} : Of p n (.bind name l)
  | mention {a : Node} {role : Role} {target : Gathered → Option Target} : n.kind ∈ usingKinds →
      (n.Grammatical → Plain n → TokenOf n a) →
      (∀ g s, target g = some (.name s) →
        n.kind = .identifier ∧ s = p.text n ∧ g.local? s = none) →
      (∀ g t, target g = some t → Sited n a t) → Of p n (.mention p a role target)
  | declare {x : Node} {d : Declaration} : DeclaredBy p n x d → Of p n (.declare d)
  | component {x c : Node} {d : Declaration} {q : Place} : DeclaredBy p n x d → Through n 0 c →
      Deeper p 0 q → Of p n (.component d q c)
  | package {name : String} : n.kind = .packageDeclaration → Of p n (.package name)
  | imported {i : Import} : Of p n (.imported i)

section Anatomy

variable (p : Place) (n : Node)

lemma isBody_of_kind {n : Node} (h : n.kind ≠ .objectCreation) (h' : n.kind ≠ .enumConstant)
    (c : Node) : isBody n c = false := by
  simp [isBody, h, h']

lemma bodies_of_not {n c : Node} (h : isBody n c = false) : bodies n c = 0 := by
  rw [bodies, h, if_neg (by decide)]

variable {p n}

lemma of_visits (hq : Deeper p 0 q) {ns : List Node}
    (hns : ∀ c ∈ ns, c ∈ n.children ∧ isBody n c = false) : ∀ m ∈ visits q ns, m.Of p n := by
  intro m hm
  obtain ⟨c, hc, rfl⟩ := List.mem_map.mp hm
  obtain ⟨hmem, hbody⟩ := hns c hc
  have hthrough := Through.child hmem
  rw [bodies_of_not hbody] at hthrough
  exact .visit hthrough hq

lemma of_named (hq : Deeper p 0 q) (h : n.kind ≠ .objectCreation) (h' : n.kind ≠ .enumConstant)
    (test : Node → Bool) : ∀ m ∈ visits q (n.named.filter test), m.Of p n :=
  of_visits hq fun c hc => ⟨Node.mem_children_of_mem_named ((List.mem_filter.mp hc).1),
    isBody_of_kind h h' c⟩

lemma of_children (hq : Deeper p 0 q) (h : n.kind ≠ .objectCreation) (h' : n.kind ≠ .enumConstant) :
    ∀ m ∈ visits q n.named, m.Of p n :=
  of_visits hq fun c hc => ⟨Node.mem_children_of_mem_named hc, isBody_of_kind h h' c⟩

lemma deeper_self (p : Place) : Deeper p 0 p := ⟨rfl, rfl⟩

lemma deeper_inside (p : Place) (n : Node) : Deeper p 0 (p.inside n) := ⟨rfl, rfl⟩

lemma of_slot (s : Slot) (h : n.kind ≠ .objectCreation) (h' : n.kind ≠ .enumConstant) :
    ∀ m ∈ slotMoves s p n, m.Of p n :=
  of_visits (deeper_inside p n) fun c hc =>
    ⟨Node.mem_children_of_child? (Option.mem_toList.mp hc), isBody_of_kind h h' c⟩

lemma of_append {ms ms' : List Move} (h : ∀ m ∈ ms, m.Of p n) (h' : ∀ m ∈ ms', m.Of p n) :
    ∀ m ∈ ms ++ ms', m.Of p n := fun m hm =>
  (List.mem_append.mp hm).elim (h m) (h' m)

lemma of_cons {first : Move} {ms : List Move} (h : first.Of p n) (h' : ∀ m ∈ ms, m.Of p n) :
    ∀ m ∈ first :: ms, m.Of p n := by
  intro m hm
  rcases List.mem_cons.mp hm with rfl | hm
  · exact h
  · exact h' m hm

lemma of_flatMap {cs : List Node} {f : Node → List Move} (h : ∀ c ∈ cs, ∀ m ∈ f c, m.Of p n) :
    ∀ m ∈ cs.flatMap f, m.Of p n := fun m hm =>
  have ⟨c, hc, hm⟩ := List.mem_flatMap.mp hm
  h c hc m hm

lemma of_option {o : Option Node} {f : Node → Move} (h : ∀ c, o = some c → (f c).Of p n) :
    ∀ m ∈ (o.map f).toList, m.Of p n := by
  intro m hm
  obtain ⟨c, hc, rfl⟩ := Option.map_eq_some_iff.mp (Option.mem_toList.mp hm)
  exact h c hc

lemma of_component {q : Place} {id : String} {ps : Node} (ht : isTypeDeclaration n = true)
    (hps : ps ∈ n.children) (hk : ps.kind = .formalParameters) (hq : Deeper p 0 q) :
    ∀ m ∈ componentMoves q ps id, m.Of p n := by
  refine of_flatMap fun c hc m hm => ?_
  rw [componentPart] at hm
  split at hm
  · next name type hkind hname htype =>
    obtain rfl := List.mem_singleton.mp hm
    have hcs := Node.mem_children_of_mem_named hc
    have hbody : isBody n ps = false := by simp [isBody, hk]
    have hpass := Through.child hps
    rw [bodies_of_not hbody] at hpass
    refine .component (.component ht hps hk hcs hkind hname (hq.text_eq name) rfl rfl) ?_ ⟨hq.1, hq.2⟩
    refine .next (.next hpass ?_ hcs) ?_ (Node.mem_children_of_child? htype)
    · rw [hk]; decide
    · rw [hkind]; decide
  · cases hm

lemma of_type (ht : isTypeDeclaration n = true) (first : Nat) (package : String) :
    ∀ m ∈ typeMoves p n first package, m.Of p n := by
  have hk : n.kind ≠ .objectCreation ∧ n.kind ≠ .enumConstant := by
    refine ⟨fun h => ?_, fun h => ?_⟩ <;> simp [isTypeDeclaration, typeKinds, h] at ht
  rw [typeMoves]
  split
  · exact of_children (deeper_inside p n) hk.1 hk.2
  · next x hx =>
    refine of_cons (.declare (.type ht hx)) (of_flatMap fun c hc => ?_)
    have hmem := Node.mem_children_of_mem_named hc
    have hq : Deeper p 0 (p.inType n (typeIdIn p package (p.text x)) first) := ⟨rfl, rfl⟩
    have hone : ∀ m ∈ visits (p.inType n (typeIdIn p package (p.text x)) first) [c], m.Of p n :=
      of_visits hq fun b hb => by
        rw [List.mem_singleton.mp hb]
        exact ⟨hmem, isBody_of_kind hk.1 hk.2 c⟩
    rw [typePart]
    split
    · simp
    · next hps =>
      split
      · exact of_component ht hmem hps ⟨rfl, rfl⟩
      · exact hone
    · exact hone

lemma of_method (hk : n.kind ∈ methodKinds) (first : Nat) :
    ∀ m ∈ methodMoves p n first, m.Of p n := by
  have hne : n.kind ≠ .objectCreation ∧ n.kind ≠ .enumConstant := by
    refine ⟨fun h => ?_, fun h => ?_⟩ <;> rw [h] at hk <;> exact absurd hk (by decide)
  rw [methodMoves]
  split
  · next typeId x hid hx hz =>
    have hq : Deeper p 0 ((p.withOwner first).inside n) := ⟨rfl, rfl⟩
    exact of_cons (.declare (.method hk hx hid hz)) (of_named hq hne.1 hne.2 _)
  · exact of_named (deeper_inside p n) hne.1 hne.2 _

lemma of_field (hk : n.kind ∈ fieldKinds) (first : Nat) :
    ∀ m ∈ fieldMoves p n first, m.Of p n := by
  have hne : n.kind ≠ .objectCreation ∧ n.kind ≠ .enumConstant := by
    refine ⟨fun h => ?_, fun h => ?_⟩ <;> rw [h] at hk <;> exact absurd hk (by decide)
  have hq : Deeper p 0 ((fieldPlace p n first).inside n) := by
    rw [fieldPlace]
    split <;> exact ⟨rfl, rfl⟩
  refine of_append (of_append (fun m hm => ?_) (of_named hq hne.1 hne.2 _))
    (of_flatMap fun c hc => ?_)
  · obtain ⟨x, hx, rfl⟩ := List.mem_map.mp hm
    rw [fieldHead]
    split
    · next typeId hid hz => exact .declare (.field hk hx hid hz)
    · exact .bind
  · intro m hm
    obtain ⟨b, hb, rfl⟩ := List.mem_map.mp hm
    have hmem := mem_children_of_declarators hc
    have hpass := Through.child hmem
    rw [bodies_of_not (isBody_of_kind hne.1 hne.2 c)] at hpass
    refine .visit (.next hpass ?_ (Node.mem_children_of_child? (Option.mem_toList.mp hb)))
      ⟨hq.1, hq.2⟩
    have hkc := (List.mem_filter.mp hc).2
    rw [eq_of_beq hkc]
    decide

lemma of_constant (hk : n.kind = .enumConstant) (first : Nat) :
    ∀ m ∈ constantMoves p n first, m.Of p n := by
  rw [constantMoves]
  split
  · next typeId x hid hx =>
    refine of_cons (.declare (.constant hk hx hid)) (of_flatMap fun c hc m hm => ?_)
    have hmem := Node.mem_children_of_mem_named hc
    rw [constantPart] at hm
    split at hm
    · cases hm
    · next hb =>
      obtain rfl := List.mem_singleton.mp hm
      exact .body hmem (by simp [isBody, hk, hb]) ⟨rfl, rfl⟩
    · next hb =>
      obtain rfl := List.mem_singleton.mp hm
      have hpass := Through.child hmem
      rw [bodies_of_not (by simpa [isBody, hk] using hb)] at hpass
      exact .visit hpass ⟨rfl, rfl⟩
  · simp

lemma of_bindMoves (name : Option Node) (written : Option String) :
    ∀ m ∈ bindMoves p name written, m.Of p n := of_option fun _ _ => .bind

lemma of_local (hk : n.kind = .localVariable) : ∀ m ∈ localMoves p n, m.Of p n := by
  have hne : n.kind ≠ .objectCreation ∧ n.kind ≠ .enumConstant := by simp [hk]
  suffices h : ∀ (cs : List Node) (written : Option String), (∀ c ∈ cs, c ∈ n.children) →
      ∀ m ∈ localParts p n written cs, m.Of p n from
    h n.named _ fun c hc => Node.mem_children_of_mem_named hc
  intro cs
  induction cs with
  | nil => simp [localParts]
  | cons c cs ih =>
    intro written hcs
    have hmem := hcs c List.mem_cons_self
    have hpass := Through.child hmem
    rw [bodies_of_not (isBody_of_kind hne.1 hne.2 c)] at hpass
    have hrest (written : Option String) := ih written fun b hb => hcs b (List.mem_cons_of_mem c hb)
    rw [localParts]
    split
    · next hkc =>
      refine of_append (of_append (fun m hm => ?_) (of_option fun _ _ => .bind)) (hrest _)
      obtain ⟨b, hb, rfl⟩ := List.mem_map.mp hm
      refine .visit (.next hpass ?_ (Node.mem_children_of_child? (Option.mem_toList.mp hb)))
        ⟨rfl, rfl⟩
      rw [eq_of_beq hkc]
      decide
    · exact of_cons (.visit hpass (deeper_inside p n)) (hrest _)

lemma of_resource (hk : n.kind = .resource) : ∀ m ∈ resourceMoves p n, m.Of p n := by
  have hne : n.kind ≠ .objectCreation ∧ n.kind ≠ .enumConstant := by simp [hk]
  rw [resourceMoves]
  split
  · exact of_children (deeper_inside p n) hne.1 hne.2
  · exact of_append (of_append (of_slot _ hne.1 hne.2) (of_slot _ hne.1 hne.2))
      (of_cons .bind (by simp))

lemma of_lambda (hk : n.kind = .lambda) : ∀ m ∈ lambdaMoves p n, m.Of p n := by
  have hne : n.kind ≠ .objectCreation ∧ n.kind ≠ .enumConstant := by simp [hk]
  refine of_append ?_ (of_slot _ hne.1 hne.2)
  rw [lambdaHeads]
  split
  · simp
  · next ps hps =>
    split
    · exact of_cons .bind (by simp)
    · intro m hm
      obtain ⟨c, -, rfl⟩ := List.mem_map.mp hm
      exact .bind
    · have hpass := Through.child (Node.mem_children_of_child? hps)
      rw [bodies_of_not (isBody_of_kind hne.1 hne.2 ps)] at hpass
      exact of_cons (.visit hpass (deeper_inside p n)) (by simp)

lemma of_instanceTest (hk : n.kind = .instanceTest) : ∀ m ∈ instanceTestMoves p n, m.Of p n := by
  have hne : n.kind ≠ .objectCreation ∧ n.kind ≠ .enumConstant := by simp [hk]
  refine of_append (of_append (of_append (of_slot _ hne.1 hne.2) (of_slot _ hne.1 hne.2))
    (of_slot _ hne.1 hne.2)) ?_
  rw [testedName]
  split
  · exact of_cons .bind (by simp)
  · simp

end Anatomy

section Anchors

variable {a : Node}

lemma Through.trans (hc : Through n j c) (hpass : c.kind ∈ passedKinds) (h : Through c k b) :
    Through n j b := by
  induction h with
  | child hb => exact .next hc hpass hb
  | next _ hkind hb ih => exact .next ih hkind hb

lemma TokenOf.through (h : TokenOf c a) (hc : Through n j c)
    (hpass : c.kind ∈ passedKinds ∨ a = c) : TokenOf n a := by
  refine ⟨?_, h.leaf, h.nonempty⟩
  rcases h.place with rfl | ⟨k, ha⟩
  · exact .inr ⟨j, hc⟩
  · rcases hpass with hpass | rfl
    · exact .inr ⟨j, hc.trans hpass ha⟩
    · exact .inr ⟨j, hc⟩

lemma token_scopedType (hn : n.Grammatical) (hp : Plain n) (hk : n.kind = .scopedType) :
    TokenOf n (anchorOf n) := by
  obtain ⟨ha, hka⟩ := anchorOf_scopedType hk hn
  exact .of_child hn hp (Node.mem_children_of_mem_named ha) (by rw [hka]; decide)

lemma TokenOf.up (h : TokenOf c a) (hn : n.Grammatical) (hp : Plain n) (hc : c ∈ n.children)
    (hk : c.kind ∈ wordKinds ∨ c.kind ∈ passedKinds) : TokenOf n a := by
  rcases hk with hw | hpass
  · rcases h.place with rfl | ⟨k, ha⟩
    · exact .of_child hn hp hc hw
    · exact absurd ((hp.child hc).leaf hw) ha.children_ne
  · exact h.through (.child hc) (.inl hpass)

lemma word_or_passed (h : c.kind ∈ namedTypeKinds) :
    c.kind ∈ wordKinds ∨ c.kind ∈ passedKinds := by
  simp only [namedTypeKinds, List.mem_cons, List.not_mem_nil, or_false] at h
  rcases h with h | h | h | h <;> rw [h] <;> decide

/-- The type of a created object ends in a word. -/
lemma token_type (hn : n.Grammatical) (hp : Plain n) (hne : n.start < n.stop)
    (hk : n.kind ∈ namedTypeKinds) : TokenOf n (anchorOf n) := by
  induction n using Node.induct with
  | _ n ih =>
    have hself (hw : n.kind ∈ wordKinds) : TokenOf n n := ⟨.inl rfl, hp.leaf hw, hne⟩
    simp only [namedTypeKinds, List.mem_cons, List.not_mem_nil, or_false] at hk
    rcases hk with hk | hk | hk | hk
    · rw [anchorOf_typeIdentifier hk]
      exact hself (by rw [hk]; decide)
    · exact token_scopedType hn hp hk
    · obtain ⟨c, hc, hck, ha⟩ := anchorOf_genericType hk hn
      have hm := Node.mem_children_of_mem_named hc
      rw [List.contains_iff_mem] at hck
      have htok := ih c hm (hn.child hm) (hp.child hm) (hn.nonempty_child hm) hck
      rw [ha]
      exact htok.up hn hp hm (word_or_passed hck)
    · have ha : anchorOf n = n := by
        rw [← typeAnchor_eq_anchorOf (Nat.le_succ n.height), typeAnchor, hk]
      rw [ha]
      exact hself (by rw [hk]; decide)

lemma token_slot {s : Slot} (hn : n.Grammatical) (hp : Plain n) (hc : n.child? s = some c)
    (hk : c.kind ∈ wordKinds) : TokenOf n c :=
  .of_child hn hp (Node.mem_children_of_child? hc) hk

lemma token_annotation (hn : n.Grammatical) (hp : Plain n)
    (hk : n.kind = .markerUse ∨ n.kind = .annotationUse) (hc : n.child? .name = some c) :
    TokenOf n (annotationAnchor c) := by
  have hm := Node.mem_children_of_child? hc
  have hck : c.kind = .identifier ∨ c.kind = .scopedIdentifier := by
    have hpl := hp.here
    rcases hk with hk | hk <;> simpa [plain, hk, hc] using hpl
  rw [annotationAnchor]
  rcases hck with hck | hck
  · rw [if_neg (by simp [hck])]
    exact .of_child hn hp hm (by rw [hck]; decide)
  · have hpl := (hp.child hm).here
    simp only [plain, hck, Option.any_eq_true, beq_iff_eq] at hpl
    obtain ⟨last, hlast, hkl⟩ := hpl
    rw [if_pos (by simp [hck]), hlast, Option.getD_some]
    refine .of_through hn hp (.next (.child hm) ?_ (Node.mem_children_of_child? hlast)) ?_
    · rw [hck]; decide
    · rw [hkl]; decide

lemma of_creation (hk : n.kind = .objectCreation) : ∀ m ∈ creationMoves p n, m.Of p n := by
  refine of_append (of_option fun type htype => ?_) fun m hm => ?_
  · refine .mention (by rw [hk]; decide) (fun hn hp => ?_) (fun g s h => by cases h)
      fun g t h => Option.some.inj h ▸ .inl ⟨hk, type, htype, rfl⟩
    have hm := Node.mem_children_of_child? htype
    have hkt : type.kind ∈ namedTypeKinds := by
      have hs := hn.shaped
      simp only [Node.shaped, hk, htype, Option.all_some, Bool.and_eq_true] at hs
      exact List.contains_iff_mem.mp hs.2
    have htok := token_type (hn.child hm) (hp.child hm) (hn.nonempty_child hm) hkt
    exact htok.up hn hp hm (word_or_passed hkt)
  · obtain ⟨c, hc, rfl⟩ := List.mem_map.mp hm
    have hmem := Node.mem_children_of_mem_named hc
    rw [creationPart]
    split
    · next hb => exact .body hmem (by simp [isBody, hk, eq_of_beq hb]) ⟨rfl, rfl⟩
    · next hb =>
      have hpass := Through.child hmem
      rw [bodies_of_not (by simpa [isBody, hk] using hb)] at hpass
      exact .visit hpass (deeper_inside p n)

lemma of_constructorCall (hk : n.kind = .constructorCall) :
    ∀ m ∈ constructorCallMoves p n, m.Of p n := by
  have hne : n.kind ≠ .objectCreation ∧ n.kind ≠ .enumConstant := by simp [hk]
  refine of_append (of_append ?_ (of_slot _ hne.1 hne.2)) (of_slot _ hne.1 hne.2)
  rw [calledConstructor]
  split
  · next c typeId hc hid =>
    split
    · next hthis =>
      refine of_cons (.mention (by rw [hk]; decide) (fun hn hp => ?_) (fun g s h => by cases h)
        fun g t h => Option.some.inj h ▸ .inr ⟨hk, hc, eq_of_beq hthis⟩) (by simp)
      exact token_slot hn hp hc (by rw [eq_of_beq hthis]; decide)
    · simp
  · simp

lemma of_invocation (hk : n.kind = .methodInvocation) : ∀ m ∈ invocationMoves p n, m.Of p n := by
  have hne : n.kind ≠ .objectCreation ∧ n.kind ≠ .enumConstant := by simp [hk]
  refine of_append (of_append (of_append (of_option fun c hc => ?_) (of_slot _ hne.1 hne.2))
    (of_slot _ hne.1 hne.2)) (of_slot _ hne.1 hne.2)
  refine .mention (by rw [hk]; decide) (fun hn hp => ?_) (fun g s h => by cases h)
    fun g t h => Option.some.inj h ▸ by simp [Sited, hk]
  have hck : c.kind = .identifier := by simpa [plain, hk, hc] using hp.here
  exact token_slot hn hp hc (by rw [hck]; decide)

lemma of_methodReference (hk : n.kind = .methodReference) :
    ∀ m ∈ methodReferenceMoves p n, m.Of p n := by
  have hne : n.kind ≠ .objectCreation ∧ n.kind ≠ .enumConstant := by simp [hk]
  rw [methodReferenceMoves]
  split
  · simp
  · next q rest hch =>
    refine of_append (of_option fun c hc => ?_) (of_visits (deeper_inside p n) fun c hc => ?_)
    · refine .mention (by rw [hk]; decide) (fun hn hp => ?_) (fun g s h => by cases h)
        fun g t h => Option.some.inj h ▸ by simp [Sited, hk]
      have hin : c ∈ rest := (List.dropWhile_sublist _).subset
        ((List.tail_sublist _).subset (List.mem_of_find?_eq_some hc))
      have hck := List.find?_some hc
      simp only [isMember, isMark, Bool.or_eq_true, Bool.and_eq_true, beq_iff_eq] at hck
      refine .of_child hn hp (hch ▸ List.mem_cons_of_mem q hin) ?_
      rcases hck with hck | ⟨hck, -⟩ <;> rw [hck] <;> decide
    · refine ⟨?_, isBody_of_kind hne.1 hne.2 c⟩
      rw [hch]
      rcases List.mem_cons.mp hc with rfl | hc
      · exact List.mem_cons_self
      · exact List.mem_cons_of_mem q (List.mem_filter.mp hc).1

lemma of_fieldAccess (hk : n.kind = .fieldAccess) : ∀ m ∈ fieldAccessMoves p n, m.Of p n := by
  have hne : n.kind ≠ .objectCreation ∧ n.kind ≠ .enumConstant := by simp [hk]
  refine of_append (of_option fun c hc => ?_) (of_slot _ hne.1 hne.2)
  refine .mention (by rw [hk]; decide) (fun hn hp => ?_) (fun g s h => by cases h)
    fun g t h => Option.some.inj h ▸ by simp [Sited, hk]
  have hck : c.kind = .identifier ∨ c.kind = .thisName := by simpa [plain, hk, hc] using hp.here
  refine token_slot hn hp hc ?_
  rcases hck with hck | hck <;> rw [hck] <;> decide

lemma of_annotation (hk : n.kind = .markerUse ∨ n.kind = .annotationUse) :
    ∀ m ∈ annotationMoves p n, m.Of p n := by
  have hne : n.kind ≠ .objectCreation ∧ n.kind ≠ .enumConstant := by
    rcases hk with hk | hk <;> simp [hk]
  refine of_append (of_option fun c hc => ?_) (of_slot _ hne.1 hne.2)
  refine .mention ?_ (fun hn hp => token_annotation hn hp hk hc) (fun g s h => by cases h)
    fun g t h => Option.some.inj h ▸ ?_
  · rcases hk with hk | hk <;> rw [hk] <;> decide
  · rcases hk with hk | hk <;> simp [Sited, hk]

lemma token_self (hn : n.Grammatical) (hp : Plain n)
    (hk : n.kind = .identifier ∨ n.kind = .typeIdentifier) : TokenOf n n := by
  have hs := hn.shaped
  refine ⟨.inl rfl, hp.leaf ?_, ?_⟩
  · rcases hk with hk | hk <;> rw [hk] <;> decide
  · rcases hk with hk | hk
    · simp only [Node.shaped, hk, Bool.and_eq_true, decide_eq_true_eq] at hs
      exact hs.2
    · simp only [Node.shaped, hk, Bool.and_eq_true, decide_eq_true_eq] at hs
      exact hs.2.2

lemma of_identifier (hk : n.kind = .identifier) : ∀ m ∈ identifierMoves p n, m.Of p n := by
  rw [identifierMoves]
  split
  · simp
  · refine of_cons (.mention (by rw [hk]; decide) (fun hn hp => token_self hn hp (.inl hk))
      (fun g s h => ?_) fun g t h => ?_) (by simp)
    · split at h
      · cases h
      · next hno =>
        obtain rfl := Target.name.inj (Option.some.inj h)
        exact ⟨hk, rfl, Option.not_isSome_iff_eq_none.mp hno⟩
    · split at h
      · cases h
      · exact Option.some.inj h ▸ by simp [Sited, hk]

lemma of_typeIdentifier (hk : n.kind = .typeIdentifier) :
    ∀ m ∈ typeIdentifierMoves p n, m.Of p n := by
  rw [typeIdentifierMoves]
  split
  · simp
  · refine of_cons (.mention (by rw [hk]; decide) (fun hn hp => token_self hn hp (.inr hk))
      (fun g s h => ?_) fun g t h => ?_) (by simp)
    · split at h <;> cases h
    · split at h
      · cases h
      · exact Option.some.inj h ▸ by simp [Sited, hk]

lemma of_scopedType (hk : n.kind = .scopedType) : ∀ m ∈ scopedTypeMoves p n, m.Of p n := by
  have hne : n.kind ≠ .objectCreation ∧ n.kind ≠ .enumConstant := by simp [hk]
  rw [scopedTypeMoves]
  split
  · simp
  · refine of_cons (.mention (by rw [hk]; decide) (fun hn hp => token_scopedType hn hp hk)
      (fun g s h => by cases h) fun g t h => Option.some.inj h ▸ by simp [Sited, hk]) (of_flatMap fun c hc m hm => ?_)
    rw [qualifierPart] at hm
    split at hm
    · next hgen =>
      obtain ⟨b, hb, rfl⟩ := List.mem_map.mp hm
      have hpass := Through.child (Node.mem_children_of_mem_named hc)
      rw [bodies_of_not (isBody_of_kind hne.1 hne.2 c)] at hpass
      refine .visit (.next hpass ?_ (Node.mem_children_of_mem_named (List.mem_filter.mp hb).1))
        ⟨rfl, rfl⟩
      rw [eq_of_beq hgen]
      decide
    · cases hm

lemma of_moves (p : Place) (n : Node) (first : Nat) (package : String) :
    ∀ m ∈ moves p n first package, m.Of p n := by
  rw [moves]
  cases hk : n.kind
  all_goals dsimp only
  case comment | breakStatement | continueStatement | scopedIdentifier => simp
  case packageDeclaration => exact of_option fun _ _ => .package hk
  case importDeclaration =>
    rw [importMoves]
    split
    · simp
    · exact of_cons .imported (by simp)
  case classDeclaration | interfaceDeclaration | enumDeclaration | recordDeclaration |
      annotationDeclaration => exact of_type (by simp [isTypeDeclaration, typeKinds, hk]) first package
  case methodDeclaration | constructorDeclaration | annotationElement =>
    exact of_method (by rw [hk]; decide) first
  case fieldDeclaration | constantDeclaration => exact of_field (by rw [hk]; decide) first
  case enumConstant => exact of_constant hk first
  case lambda => exact of_lambda hk
  case enhancedForStatement =>
    have hne : n.kind ≠ .objectCreation ∧ n.kind ≠ .enumConstant := by simp [hk]
    exact of_append (of_append (of_append (of_slot _ hne.1 hne.2) (of_slot _ hne.1 hne.2))
      (of_bindMoves _ _)) (of_slot _ hne.1 hne.2)
  case localVariable => exact of_local hk
  case formalParameter | catchParameter | spreadParameter =>
    exact of_append (of_named (deeper_inside p n) (by simp [hk]) (by simp [hk]) _) (of_bindMoves _ _)
  case resource => exact of_resource hk
  case instanceTest => exact of_instanceTest hk
  case typeParameter =>
    exact of_append (of_option fun _ _ => .bind)
      (of_named (deeper_inside p n) (by simp [hk]) (by simp [hk]) _)
  case objectCreation => exact of_creation hk
  case constructorCall => exact of_constructorCall hk
  case methodInvocation => exact of_invocation hk
  case methodReference => exact of_methodReference hk
  case fieldAccess => exact of_fieldAccess hk
  case markerUse => exact of_annotation (.inl hk)
  case annotationUse => exact of_annotation (.inr hk)
  case elementPair => exact of_slot _ (by simp [hk]) (by simp [hk])
  case labeledStatement => exact of_named (deeper_inside p n) (by simp [hk]) (by simp [hk]) _
  case identifier => exact of_identifier hk
  case typeIdentifier => exact of_typeIdentifier hk
  case scopedType => exact of_scopedType hk
  all_goals exact of_children (deeper_inside p n) (by simp [hk]) (by simp [hk])

end Anchors

end JavaAtlas.Outline
