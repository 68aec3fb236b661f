import JavaAtlas.Proofs.WalkTraces

/-! Local variables. From the place where a variable is bound to the end of the scope, its name is not
mentioned as that of a field or a type, and what names the variable is not mentioned at all. The
variables of type patterns and of the components of record patterns are none of those. -/

namespace JavaAtlas.Outline

open Syntax Text

variable {go : Visitor} {p q : Place} {n c b t x : Node} {g g' : Gathered} {h i j k e : Nat}
variable {s : String} {l : Local} {ms : List Mention} {m : Mention}

section Quiet

/-- The name has a binding. -/
def Bound (s : String) (g : Gathered) : Prop := ∃ scope ∈ g.scopes, (scope.lookup s).isSome = true

lemma isSome_local? : (g.local? s).isSome = true ↔ Bound s g := by
  rw [Gathered.local?, List.findSome?_isSome_iff]
  rfl

lemma Bound.bind (hb : Bound s g) (name : String) (l : Local) : Bound s (g.bind name l) := by
  obtain ⟨scope, hmem, hs⟩ := hb
  rw [Gathered.bind]
  split
  · next first outer heq =>
    rw [heq] at hmem
    rcases List.mem_cons.mp hmem with rfl | hmem
    · refine ⟨_, List.mem_cons_self, ?_⟩
      rw [List.lookup_cons]
      split
      · rfl
      · exact hs
    · exact ⟨scope, List.mem_cons_of_mem _ hmem, hs⟩
  · exact ⟨scope, hmem, hs⟩

lemma bound_bind (hg : Open g) (s : String) (l : Local) : Bound s (g.bind s l) := by
  rw [Gathered.bind]
  split
  · refine ⟨_, List.mem_cons_self, ?_⟩
    rw [List.lookup_cons_self]
    rfl
  · next heq => exact absurd heq hg

lemma Bound.scope (hb : Bound s g) : Bound s { g with scopes := [] :: g.scopes } :=
  have ⟨scope, hmem, hs⟩ := hb
  ⟨scope, List.mem_cons_of_mem _ hmem, hs⟩

/-- The name is bound, and is mentioned no more than that. -/
structure Quiet (s : String) (ms : List Mention) (g : Gathered) : Prop where
  bound : Bound s g
  named : ∀ m ∈ g.mentions.toList, m.target = .name s → m ∈ ms

def Quieting (s : String) (ms : List Mention) (go : Visitor) : Prop :=
  ∀ p n g, Quiet s ms g → Quiet s ms (go p n g)

lemma Bound.quiet (hb : Bound s g) : Quiet s g.mentions.toList g := ⟨hb, fun _ hm _ => hm⟩

lemma Quiet.foldl {α : Type} {step : Gathered → α → Gathered} {as : List α}
    (h : ∀ a ∈ as, ∀ g, Quiet s ms g → Quiet s ms (step g a)) (hq : Quiet s ms g) :
    Quiet s ms (as.foldl step g) := by
  induction as generalizing g with
  | nil => exact hq
  | cons a as ih =>
    exact ih (fun b hb => h b (List.mem_cons_of_mem a hb)) (h a List.mem_cons_self g hq)

lemma Move.perform_quiet {μ : Move} (hgo : Quieting s ms go) (hμ : μ.Of p n) (hq : Quiet s ms g) :
    Quiet s ms (μ.perform go g) := by
  cases μ with
  | visit q c => exact hgo q c g hq
  | body q c =>
    have hin : Quiet s ms (visitAll go q c.named { g with scopes := [] :: g.scopes }) :=
      Quiet.foldl (fun b _ g => hgo q b g) ⟨hq.bound.scope, hq.named⟩
    exact ⟨hq.bound, hin.named⟩
  | bind name l =>
    refine ⟨hq.bound.bind name l, ?_⟩
    rw [Move.perform, Gathered.bind]
    split <;> exact hq.named
  | mention p' a role target =>
    rw [Move.perform]
    split
    · next t ht =>
      refine ⟨hq.bound, fun m hm htarget => ?_⟩
      rw [record_mentions, List.mem_append] at hm
      rcases hm with hm | hm
      · exact hq.named m hm htarget
      · obtain rfl := List.mem_singleton.mp hm
        obtain rfl : t = .name s := htarget
        cases hμ with
        | mention _ _ hname _ =>
          obtain ⟨-, -, hnone⟩ := hname g s ht
          have hsome := isSome_local?.mpr hq.bound
          simp [hnone] at hsome
    · exact hq
  | component d q c => exact hgo _ c _ ⟨hq.bound, hq.named⟩
  | declare | package | imported => exact ⟨hq.bound, hq.named⟩

lemma perform_quiet {moves : List Move} (hgo : Quieting s ms go) (hof : ∀ μ ∈ moves, μ.Of p n)
    (hq : Quiet s ms g) : Quiet s ms (perform go moves g) :=
  Quiet.foldl (fun μ hμ _ => μ.perform_quiet hgo (hof μ hμ)) hq

lemma of_movesAt (p : Place) (n : Node) (g : Gathered) : ∀ μ ∈ movesAt p n g, μ.Of p n :=
  of_moves p n _ _

lemma visitNode_quiet (hgo : Quieting s ms go) : Quieting s ms (visitNode go) := by
  intro p n g hq
  have henter : Quiet s ms (enter n g) := by
    rw [enter]
    split
    · exact ⟨hq.bound.scope, hq.named⟩
    · exact hq
  have hdone := perform_quiet hgo (of_movesAt p n g) henter
  rw [visitNode_eq_enter]
  refine ⟨?_, hdone.named⟩
  cases opensScope n
  · exact hdone.bound
  · exact hq.bound

/-- Once a name is bound, a walk mentions nothing by it. -/
lemma visit_quiet (h : Nat) : Quieting s ms (visit h) := by
  induction h with
  | zero => exact fun _ _ _ hq => hq
  | succ h ih => exact visitNode_quiet ih

end Quiet

section Order

/-- The nodes in which a move looks. -/
def Move.reads : Move → List Node
  | .visit _ c | .body _ c | .component _ _ c => [c]
  | _ => []

/-- The parts of which each is looked at where it stands among the children of its node. -/
def readSlots : Kind → List Slot
  | .resource => [.type, .value]
  | .enhancedForStatement => [.type, .value, .body]
  | .lambda => [.parameters, .body]
  | .instanceTest => [.left, .right, .pattern]
  | .constructorCall => [.object, .arguments]
  | .methodInvocation => [.object, .typeArguments, .arguments]
  | _ => []

def inTextOrder (n : Node) : Bool :=
  decide (((readSlots n.kind).flatMap fun s => (n.child? s).toList).Pairwise
    fun a b => a.stop ≤ b.start)

/-- The parts of a node stand in the order in which the grammar lists them. -/
def Sequential (n : Node) : Prop := n.everywhere inTextOrder = true

instance : DecidablePred Sequential := fun _ => inferInstanceAs (Decidable (_ = true))

lemma Sequential.here (hs : Sequential n) :
    ((readSlots n.kind).flatMap fun s => (n.child? s).toList).Pairwise fun a b => a.stop ≤ b.start :=
  of_decide_eq_true ((Node.everywhere_iff inTextOrder n).mp hs).1

/-- Kinds of nodes that do not stand in the scope of a method, a block or a lambda expression
without another such scope between, and of types with parts of their own. -/
def memberKinds : List Kind := typeKinds ++ fieldKinds ++ [.enumConstant, .scopedType]

def Ordered (moves : List Move) : Prop :=
  (moves.flatMap Move.reads).Pairwise fun a b => a.stop ≤ b.start

@[simp] lemma reads_visits (q : Place) (ns : List Node) : (visits q ns).flatMap Move.reads = ns := by
  induction ns with
  | nil => rfl
  | cons n ns ih =>
    rw [visits, List.map_cons, List.flatMap_cons]
    exact congrArg (n :: ·) ih

@[simp] lemma reads_slotMoves (slot : Slot) (p : Place) (n : Node) :
    (slotMoves slot p n).flatMap Move.reads = (n.child? slot).toList := reads_visits _ _

@[simp] lemma reads_bindMoves (name : Option Node) (written : Option String) :
    (bindMoves p name written).flatMap Move.reads = [] := by
  cases name <;> rfl

lemma Ordered.of_sublist {moves : List Move} (hn : n.WellFormed)
    (h : (moves.flatMap Move.reads).Sublist n.children) : Ordered moves :=
  hn.orderly.2.2.sublist h

lemma localParts_reads {cs : List Node} {written : Option String} :
    ∀ b ∈ (localParts p n written cs).flatMap Move.reads, b ∈ cs ∧ b.kind ≠ .variableDeclarator ∨
      ∃ d ∈ cs, d.kind = .variableDeclarator ∧ d.child? .value = some b := by
  induction cs generalizing written with
  | nil => simp [localParts]
  | cons c cs ih =>
    intro b hb
    have hrest {written : Option String}
        (hb : b ∈ (localParts p n written cs).flatMap Move.reads) :
        b ∈ c :: cs ∧ b.kind ≠ .variableDeclarator ∨
          ∃ d ∈ c :: cs, d.kind = .variableDeclarator ∧ d.child? .value = some b := by
      rcases ih b hb with ⟨hmem, hk⟩ | ⟨d, hd, hrest⟩
      · exact .inl ⟨List.mem_cons_of_mem c hmem, hk⟩
      · exact .inr ⟨d, List.mem_cons_of_mem c hd, hrest⟩
    rw [localParts] at hb
    split at hb
    · next hk =>
      rw [List.flatMap_append, List.mem_append, variableMoves, List.flatMap_append,
        reads_slotMoves] at hb
      rcases hb with hb | hb
      · refine .inr ⟨c, List.mem_cons_self, eq_of_beq hk, ?_⟩
        rcases List.mem_append.mp hb with hb | hb
        · exact Option.mem_toList.mp hb
        · cases hname : c.child? .name <;> simp [hname, Move.reads] at hb
      · exact hrest hb
    · next hk =>
      rw [List.flatMap_cons, List.mem_append] at hb
      rcases hb with hb | hb
      · obtain rfl := List.mem_singleton.mp hb
        exact .inl ⟨List.mem_cons_self, by simpa using hk⟩
      · exact hrest hb

lemma localParts_read_within {cs : List Node} {written : Option String}
    (hcs : ∀ d ∈ cs, d.WellFormed) (hb : b ∈ (localParts p n written cs).flatMap Move.reads) :
    ∃ d ∈ cs, b.Within d := by
  rcases localParts_reads b hb with ⟨hmem, -⟩ | ⟨d, hd, -, hvalue⟩
  · exact ⟨b, hmem, (hcs b hmem).refl⟩
  · exact ⟨d, hd, (hcs d hd).within (Node.mem_children_of_child? hvalue)⟩

lemma localParts_ordered {cs : List Node} {written : Option String} (hcs : ∀ d ∈ cs, d.WellFormed)
    (horder : cs.Pairwise fun a b => a.stop ≤ b.start) : Ordered (localParts p n written cs) := by
  induction cs generalizing written with
  | nil => exact .nil
  | cons c cs ih =>
    obtain ⟨hfirst, horder⟩ := List.pairwise_cons.mp horder
    have hrest {written : Option String} : Ordered (localParts p n written cs) :=
      ih (fun d hd => hcs d (List.mem_cons_of_mem c hd)) horder
    have hafter {a : Node} {written : Option String} (ha : a.stop ≤ c.stop) :
        ∀ b ∈ (localParts p n written cs).flatMap Move.reads, a.stop ≤ b.start := by
      intro b hb
      obtain ⟨d, hd, hin⟩ := localParts_read_within (fun d hd => hcs d (List.mem_cons_of_mem c hd)) hb
      exact ha.trans ((hfirst d hd).trans hin.1)
    have hcw := hcs c List.mem_cons_self
    rw [localParts]
    split
    · rw [Ordered, List.flatMap_append, List.pairwise_append]
      have hvalue : (variableMoves p n c (localType p c written)).flatMap Move.reads =
          (c.child? .value).toList := by
        rw [variableMoves, List.flatMap_append, reads_slotMoves]
        cases c.child? .name <;> simp [Move.reads]
      rw [hvalue]
      refine ⟨?_, hrest, fun a ha => ?_⟩
      · cases c.child? .value <;> simp
      · have hin := hcw.within (Node.mem_children_of_child? (Option.mem_toList.mp ha))
        exact hafter hin.2.2
    · rw [Ordered, List.flatMap_cons]
      exact List.pairwise_cons.mpr ⟨hafter (Nat.le_refl _), hrest⟩

/-- A node looks at its parts one after the other. -/
lemma moves_ordered (hn : n.WellFormed) (hs : Sequential n) (hk : n.kind ∉ memberKinds) (p : Place)
    (g : Gathered) : Ordered (movesAt p n g) := by
  have hslots := hs.here
  have hnamed (test : Node → Bool) : (n.named.filter test).Sublist n.children :=
    filter_named_sublist test n
  rw [movesAt, moves]
  cases hkind : n.kind
  all_goals dsimp only
  all_goals simp only [hkind, readSlots, List.flatMap_cons, List.flatMap_nil, List.append_nil] at hslots
  case classDeclaration | interfaceDeclaration | enumDeclaration | recordDeclaration |
      annotationDeclaration | fieldDeclaration | constantDeclaration | enumConstant | scopedType =>
    exact absurd (by rw [hkind]; decide) hk
  case comment | breakStatement | continueStatement | scopedIdentifier => exact .nil
  case packageDeclaration =>
    rw [packageMoves]
    cases n.named.find? fun c => [Kind.scopedIdentifier, .identifier].contains c.kind <;> exact .nil
  case importDeclaration =>
    rw [importMoves]
    split <;> exact .nil
  case methodDeclaration | constructorDeclaration | annotationElement =>
    refine .of_sublist hn ?_
    rw [methodMoves]
    split
    · rw [List.flatMap_cons, reads_visits]
      exact hnamed _
    · rw [reads_visits]
      exact hnamed _
  case lambda =>
    have hheads : ((lambdaHeads p n).flatMap Move.reads).Sublist (n.child? .parameters).toList := by
      rw [lambdaHeads]
      split
      · exact List.nil_sublist _
      · next ps hps =>
        split
        · exact List.nil_sublist _
        · rw [List.flatMap_eq_nil_iff.mpr]
          · exact List.nil_sublist _
          · intro μ hμ
            obtain ⟨c, -, rfl⟩ := List.mem_map.mp hμ
            rfl
        · rw [hps]
          exact .refl _
    rw [Ordered, lambdaMoves, List.flatMap_append, reads_slotMoves]
    exact hslots.sublist (hheads.append (.refl _))
  case enhancedForStatement =>
    simpa [Ordered, enhancedForMoves] using hslots
  case localVariable =>
    refine localParts_ordered (fun d hd => hn.child (Node.mem_children_of_mem_named hd)) ?_
    exact hn.orderly.2.2.sublist (named_sublist n)
  case formalParameter | catchParameter | spreadParameter =>
    refine .of_sublist hn ?_
    rw [parameterMoves, List.flatMap_append, reads_visits, reads_bindMoves, List.append_nil]
    exact hnamed _
  case resource =>
    rw [resourceMoves]
    split
    · rw [Ordered, reads_visits]
      exact hn.orderly.2.2.sublist (named_sublist n)
    · simpa [Ordered, Move.reads] using hslots
  case instanceTest =>
    have htail : (testedName p n).flatMap Move.reads = [] := by
      rw [testedName]
      split <;> rfl
    rw [Ordered, instanceTestMoves, List.flatMap_append, htail]
    simpa using hslots
  case typeParameter =>
    refine .of_sublist hn ?_
    rw [typeParameterMoves, List.flatMap_append, reads_visits]
    cases n.firstOf? .typeIdentifier <;> exact hnamed _
  case objectCreation =>
    have hparts : (n.named.map (creationPart (p.inside n))).flatMap Move.reads = n.named := by
      rw [List.flatMap_map]
      have hone (c : Node) : (creationPart (p.inside n) c).reads = [c] := by
        rw [creationPart]
        split <;> rfl
      simp only [hone, List.flatMap_singleton']
    refine .of_sublist hn ?_
    rw [creationMoves, List.flatMap_append, hparts]
    cases n.child? .type <;> exact named_sublist n
  case constructorCall =>
    have hhead : (calledConstructor p n).flatMap Move.reads = [] := by
      rw [calledConstructor]
      split
      · split <;> rfl
      · rfl
    rw [Ordered, constructorCallMoves, List.flatMap_append, List.flatMap_append, hhead]
    simpa using hslots
  case methodInvocation =>
    rw [Ordered, invocationMoves]
    cases n.child? .name <;> simpa [Move.reads] using hslots
  case methodReference =>
    refine .of_sublist hn ?_
    rw [methodReferenceMoves]
    split
    · exact List.nil_sublist _
    · next q rest hch =>
      rw [List.flatMap_append, reads_visits, hch]
      have hrest : (q :: rest.filter (·.kind == .typeArguments)).Sublist (q :: rest) :=
        List.filter_sublist.cons_cons q
      cases referred? p rest <;> exact hrest
  case fieldAccess =>
    rw [Ordered, fieldAccessMoves]
    cases n.child? .field <;> cases n.child? .object <;> simp [Move.reads]
  case markerUse | annotationUse =>
    rw [Ordered, annotationMoves]
    cases n.child? .name <;> cases n.child? .arguments <;> simp [Move.reads]
  case elementPair =>
    rw [Ordered, reads_slotMoves]
    cases n.child? .value <;> simp
  case labeledStatement =>
    refine .of_sublist hn ?_
    rw [reads_visits]
    exact hnamed _
  case identifier =>
    rw [identifierMoves]
    split <;> exact .nil
  case typeIdentifier =>
    rw [typeIdentifierMoves]
    split <;> exact .nil
  all_goals
    refine .of_sublist hn ?_
    rw [reads_visits]
    exact named_sublist n

end Order

/-- The identifier names a local variable, which is bound at the node from a byte on. -/
inductive Binder (n : Node) : Node → Nat → Prop
  | declared {c x : Node} : n.kind = .localVariable → c ∈ declarators n → c.child? .name = some x →
      Binder n x c.stop
  | parameter {ps c x : Node} : n.kind ∈ methodKinds ∨ n.kind = .lambda →
      n.child? .parameters = some ps → ps.kind = .formalParameters → c ∈ ps.named →
      c.kind = .formalParameter ∨ c.kind = .spreadParameter → parameterName? c = some x →
      Binder n x c.stop
  | caught {x : Node} : n.kind = .catchParameter → n.child? .name = some x → Binder n x n.stop
  | resource {x : Node} : n.kind = .resource → n.child? .name = some x → Binder n x n.stop
  | test {x type : Node} : n.kind = .instanceTest → n.child? .name = some x →
      n.child? .right = some type → Binder n x n.stop
  | element {x b : Node} : n.kind = .enhancedForStatement → n.child? .name = some x →
      n.child? .body = some b → Binder n x b.start
  | single {x : Node} : n.kind = .lambda → n.child? .parameters = some x → x.kind = .identifier →
      Binder n x x.stop
  | inferred {ps x : Node} : n.kind = .lambda → n.child? .parameters = some ps →
      ps.kind = .inferredParameters → x ∈ ps.named → Binder n x ps.stop

/-- Whenever the walk comes to the first node, it goes on to the second. -/
def Reads (n c : Node) : Prop := ∀ p first package, ∃ q, Move.visit q c ∈ moves p n first package

/-- The identifier names a local variable of the scope in which the node stands, or which it opens. -/
inductive Introduces : Node → Node → Nat → Prop
  | here {n x : Node} {e : Nat} : Binder n x e → Introduces n x e
  | inside {n c x : Node} {e : Nat} : Reads n c → n.kind ∉ memberKinds → opensScope c = false →
      Introduces c x e → Introduces n x e

section Hiding

lemma blind_mention (m : Mention) : Blind fun g => m ∈ g.mentions.toList := fun _ _ => Iff.rfl

/-- A mention by name stands in one of the nodes in which the moves look. -/
lemma mention_in_reads {moves : List Move} (hn : n.Grammatical) (hp : Plain n)
    (hk : n.kind ≠ .identifier) (hof : ∀ μ ∈ moves, μ.Of p n) (h₀ : m ∉ g.mentions.toList)
    (h₁ : m ∈ (perform (visit h) moves g).mentions.toList) (htarget : m.target = .name s)
    (hi : i ∈ m.bytes) : ∃ b ∈ moves.flatMap Move.reads, i ∈ b.bytes := by
  obtain ⟨pre, μ, post, rfl, hb, hm⟩ := exists_first
    (P := fun g : Gathered => m ∈ g.mentions.toList) h₀ h₁
  have hμ : μ.Of p n := hof μ (by simp)
  have hreads {b : Node} (hb : b ∈ μ.reads) : b ∈ (pre ++ μ :: post).flatMap Move.reads :=
    List.mem_flatMap.mpr ⟨μ, by simp, hb⟩
  rcases Move.first (blind_mention m) hb hm with hown | ⟨q, c, g', hs, hno, hyes⟩
  · obtain ⟨p', a, role, target, t, rfl, ht, rfl⟩ := alone_mentions hb hown
    obtain rfl : t = .name s := htarget
    cases hμ with
    | mention _ _ hname _ => exact absurd (hname _ _ ht).1 hk
  · obtain ⟨j, hthrough, -⟩ := hs.through hμ
    have hic := (traced_mention hi).within (hthrough.everywhere hn) (hthrough.everywhere hp) hno hyes
    cases hs with
    | visit => exact ⟨c, hreads (List.mem_singleton_self c), hic⟩
    | component => exact ⟨c, hreads (List.mem_singleton_self c), hic⟩
    | @body _ b c before after hb =>
      refine ⟨b, hreads (List.mem_singleton_self b), ?_⟩
      cases hμ with
      | body hmem _ _ =>
        have hcb : c ∈ b.named := hb ▸ by simp
        have hin := (hn.child hmem).wellFormed.within (Node.mem_children_of_mem_named hcb)
        exact hin.bytes_subset hic

/-- The name is bound where the node ends, and what is mentioned by it at the node lies before a byte. -/
structure Hides (n x : Node) (e : Nat) : Prop where
  bound : ∀ {h p g}, n.height ≤ h → Open g → opensScope n = false → Bound (p.text x) (visit h p n g)
  early : ∀ {h p g m i}, n.height ≤ h → Open g → m ∉ g.mentions.toList →
    m ∈ (visit h p n g).mentions.toList → m.target = .name (p.text x) → i ∈ m.bytes → i < e

/-- One of the moves binds the name, and those before it look at nothing beyond the byte. -/
lemma hides_of_split (hn : n.Grammatical) (hp : Plain n) (hk : n.kind ≠ .identifier)
    (hsplit : ∀ p g, ∃ before μ after, movesAt p n g = before ++ μ :: after ∧
      (∀ b ∈ before.flatMap Move.reads, b.stop ≤ e) ∧
      ∀ {h g'}, n.height ≤ h + 1 → Open g' → Bound (p.text x) (μ.perform (visit h) g') ∧
        ∀ {m i}, m ∉ g'.mentions.toList → m ∈ (μ.perform (visit h) g').mentions.toList →
          m.target = .name (p.text x) → i ∈ m.bytes → i < e) : Hides n x e := by
  refine ⟨fun {h p g} hh hg ho => ?_, fun {h p g m i} hh hg h₀ h₁ htarget hi => ?_⟩
  all_goals
    cases h with
    | zero => exact absurd hh (by cases n; simp [Node.height])
    | succ h => ?_
  · obtain ⟨before, μ, after, heq, -, hμ⟩ := hsplit p g
    have hof := of_movesAt p n g
    rw [heq] at hof
    have hopen := perform_open (visit_open h) before (enter_open n hg)
    have hdone : Quiet _ _ (perform (visit h) after _) :=
      perform_quiet (visit_quiet h) (fun ν hν => hof ν (by simp [hν])) (hμ hh hopen).1.quiet
    change Bound _ (visitNode (visit h) p n g)
    rw [visitNode_eq_enter, ho, heq, perform_append, perform_cons]
    exact hdone.bound
  · obtain ⟨before, μ, after, heq, hbefore, hμ⟩ := hsplit p g
    have hof := of_movesAt p n g
    rw [heq] at hof
    have hopen := perform_open (visit_open h) before (enter_open n hg)
    obtain ⟨hbound, hearly⟩ := hμ hh hopen
    have hdone : Quiet _ _ (perform (visit h) after _) :=
      perform_quiet (visit_quiet h) (fun ν hν => hof ν (by simp [hν])) hbound.quiet
    have h₂ : m ∉ (enter n g).mentions.toList := by
      rw [enter]
      split <;> exact h₀
    change m ∈ (visitNode (visit h) p n g).mentions.toList at h₁
    rw [visitNode_eq_enter, heq, perform_append, perform_cons] at h₁
    by_cases hpre : m ∈ (perform (visit h) before (enter n g)).mentions.toList
    · obtain ⟨b, hb, hib⟩ := mention_in_reads hn hp hk (fun ν hν => hof ν (by simp [hν])) h₂ hpre
        htarget hi
      exact hib.2.trans_le (hbefore b hb)
    · exact hearly hpre (hdone.named m h₁ htarget) htarget hi

/-- The move itself binds the name. -/
lemma hides_of_bind (hn : n.Grammatical) (hp : Plain n) (hk : n.kind ≠ .identifier)
    (hsplit : ∀ p g, ∃ before l after, movesAt p n g = before ++ .bind (p.text x) l :: after ∧
      ∀ b ∈ before.flatMap Move.reads, b.stop ≤ e) : Hides n x e := by
  refine hides_of_split hn hp hk fun p g => ?_
  obtain ⟨before, l, after, heq, hbefore⟩ := hsplit p g
  refine ⟨before, _, after, heq, hbefore, fun _ hg => ⟨bound_bind hg _ l, fun h₀ h₁ _ _ => ?_⟩⟩
  rw [Move.perform, Gathered.bind] at h₁
  split at h₁ <;> exact absurd h₁ h₀

lemma Reads.not_identifier (hr : Reads n c) : n.kind ≠ .identifier := by
  intro hk
  obtain ⟨q, hq⟩ := hr ⟨[], ⟨""⟩, 0, [], none, 0, []⟩ 0 ""
  simp only [moves, hk, identifierMoves] at hq
  split at hq
  · cases hq
  · simp at hq

lemma Reads.through (hr : Reads n c) : ∃ j, Through n j c := by
  obtain ⟨q, hq⟩ := hr ⟨[], ⟨""⟩, 0, [], none, 0, []⟩ 0 ""
  cases of_moves _ n 0 "" _ hq with
  | visit hthrough _ => exact ⟨_, hthrough⟩

/-- What is bound in a part is bound at the node. -/
lemma Hides.inside (hc : Hides c x e) (hn : n.Grammatical) (hp : Plain n) (hs : Sequential n)
    (hr : Reads n c) (hk : n.kind ∉ memberKinds) (ho : opensScope c = false) (hle : c.start ≤ e) :
    Hides n x e := by
  refine hides_of_split hn hp hr.not_identifier fun p g => ?_
  obtain ⟨q, hq⟩ := hr p g.declarations.size g.package
  obtain ⟨before, after, heq⟩ := List.append_of_mem (show Move.visit q c ∈ movesAt p n g from hq)
  have horder := moves_ordered hn.wellFormed hs hk p g
  rw [Ordered, heq, List.flatMap_append, List.flatMap_cons, List.pairwise_append] at horder
  refine ⟨before, _, after, heq, fun b hb => (horder.2.2 b hb c ?_).trans hle, fun hh hg => ?_⟩
  · exact List.mem_append_left _ (List.mem_singleton_self c)
  · have hof := of_movesAt p n g _ hq
    cases hof with
    | visit hthrough hdeep =>
      have hlt := hthrough.height_lt
      have htext : p.text x = q.text x := by rw [Place.text, Place.text, hdeep.source_eq]
      rw [htext]
      exact ⟨hc.bound (by omega) hg ho, fun h₀ h₁ htarget hi => hc.early (by omega) hg h₀ h₁ htarget hi⟩

lemma localParts_split {cs : List Node} {written : Option String} (hcs : ∀ d ∈ cs, d.WellFormed)
    (horder : cs.Pairwise fun a b => a.stop ≤ b.start) (hc : c ∈ cs)
    (hk : c.kind = .variableDeclarator) (hx : c.child? .name = some x) : ∃ before l after,
      localParts p n written cs = before ++ .bind (p.text x) l :: after ∧
        ∀ b ∈ before.flatMap Move.reads, b.stop ≤ c.stop := by
  induction cs generalizing written with
  | nil => cases hc
  | cons d cs ih =>
    obtain ⟨hfirst, horder⟩ := List.pairwise_cons.mp horder
    have hdw := hcs d List.mem_cons_self
    rcases List.mem_cons.mp hc with rfl | hc
    · refine ⟨slotMoves .value (p.inside n) c, .variable (localType p c written),
        localParts p n (localType p c written) cs, ?_, fun b hb => ?_⟩
      · rw [localParts, if_pos (by rw [hk]; decide), variableMoves, hx]
        simp
      · rw [reads_slotMoves] at hb
        exact (hdw.within (Node.mem_children_of_child? (Option.mem_toList.mp hb))).2.2
    · have hcw := hcs c (List.mem_cons_of_mem d hc)
      have hd : d.stop ≤ c.stop := (hfirst c hc).trans hcw.orderly.1
      have hrest := fun b hb => hcs b (List.mem_cons_of_mem d hb)
      obtain ⟨before, l, after, heq, hbefore⟩ :=
        @ih (if d.kind == .variableDeclarator then localType p d written else written) hrest horder hc
      rw [localParts]
      split
      · next hkd =>
        rw [if_pos hkd] at heq
        refine ⟨variableMoves p n d (localType p d written) ++ before, l, after, ?_, fun b hb => ?_⟩
        · rw [heq, List.append_assoc]
        · rw [List.flatMap_append, variableMoves, List.flatMap_append, reads_slotMoves,
            List.append_assoc, List.mem_append, List.mem_append] at hb
          rcases hb with hb | hb | hb
          · have hin := hdw.within (Node.mem_children_of_child? (Option.mem_toList.mp hb))
            exact hin.2.2.trans hd
          · cases hname : d.child? .name <;> simp [hname, Move.reads] at hb
          · exact hbefore b hb
      · next hkd =>
        rw [if_neg hkd] at heq
        refine ⟨.visit (p.inside n) d :: before, l, after, ?_, fun b hb => ?_⟩
        · rw [heq, List.cons_append]
        · rw [List.flatMap_cons, List.mem_append] at hb
          rcases hb with hb | hb
          · obtain rfl := List.mem_singleton.mp hb
            exact hd
          · exact hbefore b hb

section Binders

variable (hn : n.Grammatical) (hp : Plain n)
include hn hp

lemma hides_variable (hk : n.kind = .localVariable) (hc : c ∈ declarators n)
    (hx : c.child? .name = some x) : Hides n x c.stop := by
  obtain ⟨hmem, hck⟩ := List.mem_filter.mp hc
  refine hides_of_bind hn hp (by simp [hk]) fun p g => ?_
  have hmoves : movesAt p n g = localMoves p n := by simp only [movesAt, moves, hk]
  rw [hmoves]
  refine localParts_split (fun d hd => hn.wellFormed.child (Node.mem_children_of_mem_named hd)) ?_
    hmem (eq_of_beq hck) hx
  exact hn.wellFormed.orderly.2.2.sublist (named_sublist n)

lemma hides_parameter (hk : n.kind = .formalParameter ∨ n.kind = .catchParameter ∨
    n.kind = .spreadParameter) (hx : parameterName? n = some x) : Hides n x n.stop := by
  refine hides_of_bind hn hp (by rcases hk with hk | hk | hk <;> simp [hk]) fun p g => ?_
  have hmoves : movesAt p n g = parameterMoves p n := by
    rcases hk with hk | hk | hk <;> simp only [movesAt, moves, hk]
  rw [hmoves, parameterMoves, hx]
  refine ⟨_, _, [], rfl, fun b hb => ?_⟩
  rw [reads_visits] at hb
  exact (hn.wellFormed.within (Node.mem_children_of_mem_named (List.mem_filter.mp hb).1)).2.2

lemma hides_resource (hk : n.kind = .resource) (hx : n.child? .name = some x) :
    Hides n x n.stop := by
  refine hides_of_bind hn hp (by simp [hk]) fun p g => ?_
  have hmoves : movesAt p n g = resourceMoves p n := by simp only [movesAt, moves, hk]
  rw [hmoves, resourceMoves, hx]
  refine ⟨_, _, [], rfl, fun b hb => ?_⟩
  rw [List.flatMap_append, reads_slotMoves, reads_slotMoves, List.mem_append] at hb
  rcases hb with hb | hb
  all_goals exact (hn.wellFormed.within (Node.mem_children_of_child? (Option.mem_toList.mp hb))).2.2

lemma hides_test {type : Node} (hk : n.kind = .instanceTest) (hx : n.child? .name = some x)
    (htype : n.child? .right = some type) : Hides n x n.stop := by
  refine hides_of_bind hn hp (by simp [hk]) fun p g => ?_
  have hmoves : movesAt p n g = instanceTestMoves p n := by simp only [movesAt, moves, hk]
  rw [hmoves, instanceTestMoves, testedName, hx, htype]
  refine ⟨_, _, [], rfl, fun b hb => ?_⟩
  rw [List.flatMap_append, List.flatMap_append, reads_slotMoves, reads_slotMoves, reads_slotMoves,
    List.mem_append, List.mem_append] at hb
  rcases hb with (hb | hb) | hb
  all_goals exact (hn.wellFormed.within (Node.mem_children_of_child? (Option.mem_toList.mp hb))).2.2

lemma hides_element (hs : Sequential n) (hk : n.kind = .enhancedForStatement)
    (hx : n.child? .name = some x) (hb : n.child? .body = some b) : Hides n x b.start := by
  refine hides_of_bind hn hp (by simp [hk]) fun p g => ?_
  have hmoves : movesAt p n g = enhancedForMoves p n := by simp only [movesAt, moves, hk]
  have hslots := hs.here
  simp only [hk, readSlots, List.flatMap_cons, List.flatMap_nil, List.append_nil, hb] at hslots
  rw [← List.append_assoc, List.pairwise_append] at hslots
  rw [hmoves, enhancedForMoves, hx, List.append_assoc]
  refine ⟨_, _, _, rfl, fun a ha => ?_⟩
  rw [List.flatMap_append, reads_slotMoves, reads_slotMoves] at ha
  exact hslots.2.2 a ha b (by simp)

lemma hides_single (hk : n.kind = .lambda) (hx : n.child? .parameters = some x)
    (hxk : x.kind = .identifier) : Hides n x e := by
  refine hides_of_bind hn hp (by simp [hk]) fun p g => ?_
  have hmoves : movesAt p n g = lambdaMoves p n := by simp only [movesAt, moves, hk]
  have hheads : lambdaHeads p n = [.bind (p.text x) (.variable none)] := by
    simp only [lambdaHeads, hx, hxk]
  rw [hmoves, lambdaMoves, hheads]
  exact ⟨[], _, _, rfl, by simp⟩

lemma hides_inferred {ps : Node} (hk : n.kind = .lambda) (hps : n.child? .parameters = some ps)
    (hpk : ps.kind = .inferredParameters) (hx : x ∈ ps.named) : Hides n x e := by
  refine hides_of_bind hn hp (by simp [hk]) fun p g => ?_
  have hmoves : movesAt p n g = lambdaMoves p n := by simp only [movesAt, moves, hk]
  have hheads : lambdaHeads p n = ps.named.map fun c => .bind (p.text c) (.variable none) := by
    simp only [lambdaHeads, hps, hpk]
  obtain ⟨before, after, heq⟩ := List.append_of_mem hx
  rw [hmoves, lambdaMoves, hheads, heq, List.map_append, List.map_cons, List.append_assoc,
    List.cons_append]
  refine ⟨_, _, _, rfl, ?_⟩
  simp [List.flatMap_map, Move.reads]

end Binders

lemma reads_parameters {ps : Node} (hk : n.kind ∈ methodKinds ∨ n.kind = .lambda)
    (hps : n.child? .parameters = some ps) (hpk : ps.kind = .formalParameters) : Reads n ps := by
  intro p first package
  rcases hk with hk | hk
  · have hmem : ps ∈ beyondName n :=
      List.mem_filter.mpr ⟨List.mem_filter.mpr ⟨Node.mem_children_of_child? hps, by simp [hpk]⟩,
        by simp [hpk]⟩
    have hmoves : moves p n first package = methodMoves p n first := by
      simp only [methodKinds, List.mem_cons, List.not_mem_nil, or_false] at hk
      rcases hk with hk | hk | hk <;> simp only [moves, hk]
    rw [hmoves, methodMoves]
    split
    · exact ⟨_, List.mem_cons_of_mem _ (List.mem_map_of_mem hmem)⟩
    · exact ⟨_, List.mem_map_of_mem hmem⟩
  · have hheads : lambdaHeads p n = [.visit (p.inside n) ps] := by
      simp only [lambdaHeads, hps, hpk]
    simp only [moves, hk, lambdaMoves, hheads]
    exact ⟨_, List.mem_cons_self⟩

lemma reads_named (hk : n.kind = .formalParameters) (hc : c ∈ n.named) : Reads n c := by
  intro p first package
  simp only [moves, hk]
  exact ⟨_, List.mem_map_of_mem hc⟩

lemma parameterName_within (h : parameterName? n = some x) (hn : n.WellFormed) : x.Within n := by
  rw [parameterName?] at h
  split at h
  · obtain ⟨v, hv, hvx⟩ := Option.bind_eq_some_iff.mp h
    have hvm : v ∈ n.children := List.mem_of_find?_eq_some hv
    exact ((hn.child hvm).within (Node.mem_children_of_child? hvx)).trans (hn.within hvm)
  · exact hn.within (Node.mem_children_of_child? h)

namespace Binder

lemma start_le (hb : Binder n x e) (hn : n.WellFormed) : n.start ≤ e := by
  cases hb with
  | declared _ hc _ =>
    have hin := hn.within (mem_children_of_declarators hc)
    exact hin.1.trans hin.2.1
  | parameter _ hps _ hc _ _ =>
    have hin := (hn.child (Node.mem_children_of_child? hps)).within (Node.mem_children_of_mem_named hc)
    have hout := hin.trans (hn.within (Node.mem_children_of_child? hps))
    exact hout.1.trans hout.2.1
  | caught | resource | test => exact hn.orderly.1
  | element _ _ hb => exact (hn.within (Node.mem_children_of_child? hb)).1
  | single _ hx _ =>
    have hin := hn.within (Node.mem_children_of_child? hx)
    exact hin.1.trans hin.2.1
  | inferred _ hps _ _ =>
    have hin := hn.within (Node.mem_children_of_child? hps)
    exact hin.1.trans hin.2.1

lemma within (hb : Binder n x e) (hn : n.WellFormed) : x.Within n := by
  cases hb with
  | declared _ hc hx =>
    have hmem := mem_children_of_declarators hc
    exact ((hn.child hmem).within (Node.mem_children_of_child? hx)).trans (hn.within hmem)
  | parameter _ hps _ hc _ hx =>
    have hmem := Node.mem_children_of_child? hps
    have hcm := Node.mem_children_of_mem_named hc
    have hin := parameterName_within hx ((hn.child hmem).child hcm)
    exact (hin.trans ((hn.child hmem).within hcm)).trans (hn.within hmem)
  | caught _ hx | resource _ hx | test _ hx _ | element _ hx _ | single _ hx _ =>
    exact hn.within (Node.mem_children_of_child? hx)
  | inferred _ hps _ hx =>
    have hmem := Node.mem_children_of_child? hps
    exact ((hn.child hmem).within (Node.mem_children_of_mem_named hx)).trans (hn.within hmem)

lemma hides (hb : Binder n x e) (hn : n.Grammatical) (hp : Plain n) (hs : Sequential n) :
    Hides n x e := by
  cases hb with
  | declared hk hc hx => exact hides_variable hn hp hk hc hx
  | @parameter ps c x hk hps hpk hc hck hx =>
    have hmem := Node.mem_children_of_child? hps
    have hcm := Node.mem_children_of_mem_named hc
    have hgps := hn.child hmem
    have hsps : Sequential ps := ((Node.everywhere_iff _ n).mp hs).2 ps hmem
    have hself : Hides c x c.stop := hides_parameter (hgps.child hcm) ((hp.child hmem).child hcm)
      (by tauto) hx
    have hle := (hgps.child hcm).wellFormed.orderly.1
    have hpart : Hides ps x c.stop := hself.inside hgps (hp.child hmem) hsps (reads_named hpk hc)
      (by rw [hpk]; decide) (by rcases hck with hck | hck <;> simp [opensScope, isTypeDeclaration,
        typeKinds, hck]) hle
    refine hpart.inside hn hp hs (reads_parameters hk hps hpk) ?_ ?_ ?_
    · rcases hk with hk | hk
      · exact (by decide : ∀ k ∈ methodKinds, k ∉ memberKinds) _ hk
      · rw [hk]; decide
    · simp [opensScope, isTypeDeclaration, typeKinds, hpk]
    · exact (hgps.wellFormed.within hcm).1.trans hle
  | caught hk hx =>
    refine hides_parameter hn hp (.inr (.inl hk)) ?_
    simpa only [parameterName?, hk] using hx
  | resource hk hx => exact hides_resource hn hp hk hx
  | test hk hx htype => exact hides_test hn hp hk hx htype
  | element hk hx hb => exact hides_element hn hp hs hk hx hb
  | single hk hx hxk => exact hides_single hn hp hk hx hxk
  | inferred hk hps hpk hx => exact hides_inferred hn hp hk hps hpk hx

end Binder

namespace Introduces

lemma start_le (hx : Introduces n x e) (hn : n.WellFormed) : n.start ≤ e := by
  induction hx with
  | here hb => exact hb.start_le hn
  | inside hr _ _ _ ih =>
    obtain ⟨j, hthrough⟩ := hr.through
    exact (hthrough.within hn).1.trans (ih (hthrough.everywhere hn))

lemma hides (hx : Introduces n x e) (hn : n.Grammatical) (hp : Plain n) (hs : Sequential n) :
    Hides n x e := by
  induction hx with
  | here hb => exact hb.hides hn hp hs
  | inside hr hk ho hx ih =>
    obtain ⟨j, hthrough⟩ := hr.through
    have hg : Node.Grammatical _ := hthrough.everywhere hn
    exact (ih hg (hthrough.everywhere hp) (hthrough.everywhere hs)).inside hn hp hs hr hk ho
      (hx.start_le hg.wellFormed)

end Introduces

end Hiding

section Silence

/-- No walk of the node mentions anything where the identifier stands. -/
def Silent (n x : Node) : Prop := ∀ ⦃h p g m i⦄, m ∉ g.mentions.toList →
  m ∈ (visit h p n g).mentions.toList → i ∈ m.bytes → i ∉ x.bytes

/-- Where a node mentions nothing itself, it is enough to look at the parts of which the walk sees
more than a class body without a name. -/
lemma silent_of_reads (hn : n.Grammatical) (hp : Plain n)
    (hk : n.kind ∉ .enumConstant :: usingKinds)
    (hreads : ∀ p g, ∀ b ∈ (movesAt p n g).flatMap Move.reads,
      Disjoint b.bytes x.bytes ∨ Silent b x) : Silent n x := by
  intro h p g m i h₀ h₁ hi hix
  cases h with
  | zero => exact h₀ h₁
  | succ h =>
    obtain ⟨before, μ, after, heq, hb, hμ⟩ := visit_first (blind_mention m) h₀ h₁
    have hmem : μ ∈ movesAt p n g := heq ▸ by simp
    have hof := of_movesAt p n g μ hmem
    rcases hμ with hown | ⟨q, c, g', hs, hno, hyes, -⟩
    · obtain ⟨p', a, role, target, t, rfl, -, -⟩ := alone_mentions hb hown
      cases hof with
      | mention huse _ _ => exact hk (List.mem_cons_of_mem _ huse)
    · obtain ⟨j, hthrough, -⟩ := hs.through hof
      have hic := (traced_mention hi).within (hthrough.everywhere hn) (hthrough.everywhere hp) hno hyes
      have hread (hc : c ∈ μ.reads) : False := by
        rcases hreads p g c (List.mem_flatMap.mpr ⟨μ, hmem, hc⟩) with hdis | hsil
        · exact Set.disjoint_left.mp hdis hic hix
        · exact hsil hno hyes hi hix
      cases hs with
      | visit => exact hread (List.mem_singleton_self c)
      | component => exact hread (List.mem_singleton_self c)
      | body _ =>
        cases hof with
        | body _ hb _ =>
          simp only [isBody, Bool.and_eq_true, List.contains_eq_mem, List.mem_cons,
            List.not_mem_nil, or_false, decide_eq_true_eq] at hb
          rcases hb.1 with hb | hb <;> rw [hb] at hk <;> exact hk (by decide)

lemma silent_leaf (hn : n.Grammatical) (hp : Plain n) (hk : n.kind = .underscore) : Silent n x := by
  refine silent_of_reads hn hp (by rw [hk]; decide) fun p g b hb => ?_
  have hleaf := hp.leaf (by rw [hk]; decide)
  have hmoves : movesAt p n g = visits (p.inside n) n.named := by simp only [movesAt, moves, hk]
  rw [hmoves, reads_visits] at hb
  simp [Node.named, hleaf] at hb

lemma disjoint_slots (hn : n.WellFormed) {first second : Slot} (ha : n.child? first = some b)
    (hc : n.child? second = some c) (hne : first ≠ second) : Disjoint b.bytes c.bytes :=
  hn.disjoint (Node.mem_children_of_child? ha) (Node.mem_children_of_child? hc)
    (Node.ne_of_child? ha hc hne)

/-- A child of the node that is another than the one in which the identifier stands. -/
lemma disjoint_or_eq (hn : n.WellFormed) (hc : c ∈ n.children) (hx : x.Within c) (hb : b ∈ n.children) :
    Disjoint b.bytes x.bytes ∨ b = c := by
  by_cases hbc : b = c
  · exact .inr hbc
  · exact .inl ((hn.disjoint hb hc hbc).mono_right hx.bytes_subset)

section Binders

variable (hn : n.Grammatical) (hp : Plain n)
include hn hp

lemma silent_variable (hk : n.kind = .localVariable) (hc : c ∈ declarators n)
    (hx : c.child? .name = some x) : Silent n x := by
  have hcm := mem_children_of_declarators hc
  have hgc := hn.child hcm
  have hin := hgc.wellFormed.within (Node.mem_children_of_child? hx)
  refine silent_of_reads hn hp (by rw [hk]; decide) fun p g b hb => .inl ?_
  have hmoves : movesAt p n g = localMoves p n := by simp only [movesAt, moves, hk]
  rw [hmoves] at hb
  rcases localParts_reads b hb with ⟨hmem, hbk⟩ | ⟨d, hd, hdk, hvalue⟩
  · rcases disjoint_or_eq hn.wellFormed hcm hin (Node.mem_children_of_mem_named hmem) with hdis | rfl
    · exact hdis
    · exact absurd (eq_of_beq (List.mem_filter.mp hc).2) hbk
  · have hdm := Node.mem_children_of_mem_named hd
    have hbd := (hn.child hdm).wellFormed.within (Node.mem_children_of_child? hvalue)
    rcases disjoint_or_eq hn.wellFormed hcm hin hdm with hdis | rfl
    · exact hdis.mono_left hbd.bytes_subset
    · exact disjoint_slots hgc.wellFormed hvalue hx (by decide)

/-- The name of a parameter is passed by, or it is an underscore. -/
lemma silent_parameter (hk : n.kind = .formalParameter ∨ n.kind = .catchParameter ∨
    n.kind = .spreadParameter) (hx : parameterName? n = some x) : Silent n x := by
  refine silent_of_reads hn hp (by rcases hk with hk | hk | hk <;> rw [hk] <;> decide)
    fun p g b hb => ?_
  have hmoves : movesAt p n g = parameterMoves p n := by
    rcases hk with hk | hk | hk <;> simp only [movesAt, moves, hk]
  rw [hmoves, parameterMoves, List.flatMap_append, reads_visits, reads_bindMoves,
    List.append_nil, List.mem_filter] at hb
  obtain ⟨hbm, hbk⟩ := hb
  have hbm := Node.mem_children_of_mem_named hbm
  simp only [Bool.and_eq_true, bne_iff_ne] at hbk
  have hnamed (hpl : (n.child? .name).all (fun c => [Kind.identifier, .underscore].contains c.kind))
      (hname : n.child? .name = some x) : Disjoint b.bytes x.bytes ∨ Silent b x := by
    have hxm := Node.mem_children_of_child? hname
    rcases disjoint_or_eq hn.wellFormed hxm (hn.child hxm).wellFormed.refl hbm with hdis | rfl
    · exact .inl hdis
    · rw [hname] at hpl
      have hor : b.kind = .identifier ∨ b.kind = .underscore := by simpa using hpl
      exact .inr (silent_leaf (hn.child hbm) (hp.child hbm) (hor.resolve_left hbk.1))
  have hpl := hp.here
  rcases hk with hk | hk | hk
  all_goals simp only [plain, hk] at hpl
  all_goals simp only [parameterName?, hk] at hx
  · exact hnamed hpl hx
  · exact hnamed hpl hx
  · obtain ⟨v, hv, hvx⟩ := Option.bind_eq_some_iff.mp hx
    have hvm : v ∈ n.children := List.mem_of_find?_eq_some hv
    have hvk : v.kind = .variableDeclarator := by simpa using List.find?_some hv
    have hin := (hn.child hvm).wellFormed.within (Node.mem_children_of_child? hvx)
    rcases disjoint_or_eq hn.wellFormed hvm hin hbm with hdis | rfl
    · exact .inl hdis
    · exact absurd hvk hbk.2

lemma silent_slots (slots : List Slot) {own : Slot} (hk : n.kind ∉ .enumConstant :: usingKinds)
    (hx : n.child? own = some c) (hin : x.Within c) (hown : own ∉ slots)
    (hreads : ∀ p g, ∀ b ∈ (movesAt p n g).flatMap Move.reads, ∃ slot ∈ slots,
      n.child? slot = some b) : Silent n x := by
  refine silent_of_reads hn hp hk fun p g b hb => .inl ?_
  obtain ⟨slot, hslot, hb⟩ := hreads p g b hb
  refine (disjoint_slots hn.wellFormed hb hx ?_).mono_right hin.bytes_subset
  rintro rfl
  exact hown hslot

lemma silent_of_child (hk : n.kind ∉ .enumConstant :: usingKinds) (hc : c ∈ n.children)
    (hx : x.Within c) (hsilent : Silent c x)
    (hreads : ∀ p g, ∀ b ∈ (movesAt p n g).flatMap Move.reads, b ∈ n.children) : Silent n x := by
  refine silent_of_reads hn hp hk fun p g b hb => ?_
  rcases disjoint_or_eq hn.wellFormed hc hx (hreads p g b hb) with hdis | rfl
  · exact .inl hdis
  · exact .inr hsilent

lemma silent_parameters {ps : Node} (hk : n.kind ∈ methodKinds ∨ n.kind = .lambda)
    (hps : n.child? .parameters = some ps) (hpk : ps.kind = .formalParameters) (hc : c ∈ ps.named)
    (hck : c.kind = .formalParameter ∨ c.kind = .spreadParameter) (hx : parameterName? c = some x) :
    Silent n x := by
  have hmem := Node.mem_children_of_child? hps
  have hcm := Node.mem_children_of_mem_named hc
  have hgps := hn.child hmem
  have hin := parameterName_within hx (hgps.child hcm).wellFormed
  have hself : Silent c x :=
    silent_parameter (hgps.child hcm) ((hp.child hmem).child hcm) (by tauto) hx
  have hpart : Silent ps x := by
    refine silent_of_child hgps (hp.child hmem) (by rw [hpk]; decide) hcm hin hself
      fun p g b hb => ?_
    have hmoves : movesAt p ps g = visits (p.inside ps) ps.named := by
      simp only [movesAt, moves, hpk]
    rw [hmoves, reads_visits] at hb
    exact Node.mem_children_of_mem_named hb
  refine silent_of_child hn hp ?_ hmem (hin.trans (hgps.wellFormed.within hcm)) hpart
    fun p g b hb => ?_
  · rcases hk with hk | hk
    · exact (by decide : ∀ k ∈ methodKinds, k ∉ .enumConstant :: usingKinds) _ hk
    · rw [hk]; decide
  · rcases hk with hk | hk
    · have hmoves : movesAt p n g = methodMoves p n g.declarations.size := by
        simp only [methodKinds, List.mem_cons, List.not_mem_nil, or_false] at hk
        rcases hk with hk | hk | hk <;> simp only [movesAt, moves, hk]
      have hreads : (methodMoves p n g.declarations.size).flatMap Move.reads = beyondName n := by
        rw [methodMoves]
        split
        · exact reads_visits _ _
        · exact reads_visits _ _
      rw [hmoves, hreads] at hb
      exact Node.mem_children_of_mem_named (List.mem_filter.mp hb).1
    · have hmoves : movesAt p n g = lambdaMoves p n := by simp only [movesAt, moves, hk]
      have hheads : lambdaHeads p n = [.visit (p.inside n) ps] := by
        simp only [lambdaHeads, hps, hpk]
      rw [hmoves, lambdaMoves, hheads, List.flatMap_append, reads_slotMoves, List.mem_append] at hb
      rcases hb with hb | hb
      · rwa [List.mem_singleton.mp hb]
      · exact Node.mem_children_of_child? (Option.mem_toList.mp hb)

/-- A lambda expression that looks at its body only. -/
lemma silent_lambda {ps : Node} (hk : n.kind = .lambda) (hps : n.child? .parameters = some ps)
    (hin : x.Within ps) (hheads : ∀ p, (lambdaHeads p n).flatMap Move.reads = []) : Silent n x := by
  refine silent_slots hn hp [.body] (by rw [hk]; decide) hps hin (by decide)
    fun p g b hb => ?_
  have hmoves : movesAt p n g = lambdaMoves p n := by simp only [movesAt, moves, hk]
  rw [hmoves, lambdaMoves, List.flatMap_append, hheads, reads_slotMoves] at hb
  exact ⟨.body, List.mem_singleton_self _, Option.mem_toList.mp hb⟩

lemma Binder.silent (hb : Binder n x e) : Silent n x := by
  have hrefl {slot : Slot} (hx : n.child? slot = some x) : x.Within x :=
    (hn.child (Node.mem_children_of_child? hx)).wellFormed.refl
  cases hb with
  | declared hk hc hx => exact silent_variable hn hp hk hc hx
  | parameter hk hps hpk hc hck hx => exact silent_parameters hn hp hk hps hpk hc hck hx
  | caught hk hx =>
    refine silent_parameter hn hp (.inr (.inl hk)) ?_
    simpa only [parameterName?, hk] using hx
  | resource hk hx =>
    refine silent_slots hn hp [.type, .value] (by rw [hk]; decide) hx (hrefl hx) (by decide)
      fun p g b hb => ?_
    have hmoves : movesAt p n g = resourceMoves p n := by simp only [movesAt, moves, hk]
    rw [hmoves, resourceMoves, hx] at hb
    simpa [Move.reads] using hb
  | test hk hx htype =>
    refine silent_slots hn hp [.left, .right, .pattern] (by rw [hk]; decide) hx (hrefl hx)
      (by decide) fun p g b hb => ?_
    have hmoves : movesAt p n g = instanceTestMoves p n := by simp only [movesAt, moves, hk]
    rw [hmoves, instanceTestMoves, testedName, hx, htype] at hb
    simpa [Move.reads, or_assoc] using hb
  | element hk hx hbody =>
    refine silent_slots hn hp [.type, .value, .body] (by rw [hk]; decide) hx (hrefl hx)
      (by decide) fun p g b hb => ?_
    have hmoves : movesAt p n g = enhancedForMoves p n := by simp only [movesAt, moves, hk]
    rw [hmoves, enhancedForMoves] at hb
    simpa using hb
  | single hk hx hxk =>
    refine silent_lambda hn hp hk hx (hrefl hx) fun p => ?_
    simp [lambdaHeads, hx, hxk, Move.reads]
  | inferred hk hps hpk hx =>
    have hin := (hn.child (Node.mem_children_of_child? hps)).wellFormed.within
      (Node.mem_children_of_mem_named hx)
    refine silent_lambda hn hp hk hps hin fun p => ?_
    simp [lambdaHeads, hps, hpk, List.flatMap_map, Move.reads]

end Binders

end Silence

section Uses

lemma Introduces.binder (hx : Introduces n x e) : ∃ t k, Under t k n ∧ Binder t x e := by
  induction hx with
  | here hb => exact ⟨_, 0, .self, hb⟩
  | inside hr _ _ _ ih =>
    obtain ⟨j, hthrough⟩ := hr.through
    obtain ⟨t, k, ht, hb⟩ := ih
    exact ⟨t, _, hthrough.isUnder.trans ht, hb⟩

lemma Binder.here (hb : Binder n x e) : n.children ≠ [] ∧ n.kind ∉ passedKinds := by
  cases hb with
  | declared hk hc _ => exact ⟨List.ne_nil_of_mem (mem_children_of_declarators hc), by rw [hk]; decide⟩
  | parameter hk hps =>
    refine ⟨List.ne_nil_of_mem (Node.mem_children_of_child? hps), ?_⟩
    rcases hk with hk | hk
    · exact (by decide : ∀ k ∈ methodKinds, k ∉ passedKinds) _ hk
    · rw [hk]; decide
  | caught hk hx | resource hk hx | test hk hx _ | element hk hx _ | single hk hx _
  | inferred hk hx _ _ =>
    exact ⟨List.ne_nil_of_mem (Node.mem_children_of_child? hx), by rw [hk]; decide⟩

lemma opensScope_not_passed (ho : opensScope n = true) : n.kind ∉ passedKinds := by
  intro hk
  simp only [passedKinds, List.mem_cons, List.not_mem_nil, or_false] at hk
  rcases hk with hk | hk | hk | hk | hk | hk | hk <;>
    simp [opensScope, isTypeDeclaration, typeKinds, hk] at ho

variable {unit : UnitRef} {source : String} {tree : Node}

lemma mention_offset_mem (hn : tree.Grammatical) (hp : Plain tree)
    (hm : m ∈ (JavaAtlas.Outline.ofTree unit i source tree).mentions) : m.offset ∈ m.bytes := by
  obtain ⟨p', n', k, μ, g', hu, -, hof, h₀, h₁⟩ :=
    exists_move (blind_mention m) (by simp [Gathered.empty]) hm
  obtain ⟨p, a, role, target, t, rfl, -, rfl⟩ := alone_mentions h₀ h₁
  cases hof with
  | mention _ htok _ _ =>
    have hne := (htok (hu.everywhere hn) (hu.everywhere hp)).nonempty
    refine ⟨Nat.le_refl _, ?_⟩
    change a.start < a.start + (a.stop - a.start)
    omega

/-- A local variable is not mentioned where it is named, and from the place where it is bound to the
end of the scope nothing is mentioned by its name as a field or a type. -/
theorem local_names_hidden (hn : tree.Grammatical) (hp : Plain tree) (hs : Sequential tree)
    (ht : Under t k tree) (ho : opensScope t = true) (hx : Introduces t x e) :
    (∀ m ∈ (JavaAtlas.Outline.ofTree unit i source tree).mentions, Disjoint m.bytes x.bytes) ∧
      ∀ m ∈ (JavaAtlas.Outline.ofTree unit i source tree).mentions, e ≤ m.offset →
        m.offset < t.stop → m.target ≠ .name (slice source.toList x.start x.stop) := by
  have hopen : Open .empty := List.cons_ne_nil [] []
  have hgt : t.Grammatical := ht.everywhere hn
  have hpt : Plain t := ht.everywhere hp
  obtain ⟨b, j, hb, hbinder⟩ := hx.binder
  have hub := ht.trans hb
  have hgb : b.Grammatical := hub.everywhere hn
  refine ⟨fun m hm => Set.disjoint_left.mpr fun i hi hix => ?_, fun m hm hle hlt htarget => ?_⟩
  · have hin := (hbinder.within hgb.wellFormed).bytes_subset hix
    obtain ⟨h, q, g, -, -, -, hno, hyes, -⟩ := (traced_mention hi).reaches hn hp hub
      hbinder.here.1 hbinder.here.2 hin (Nat.le_refl _) hopen (by simp [Gathered.empty]) hm
    exact hbinder.silent hgb (hub.everywhere hp) hno hyes hi hix
  · have hi := mention_offset_mem hn hp hm
    have hkids : t.children ≠ [] := by
      cases hb with
      | self => exact hbinder.here.1
      | child hc _ => exact List.ne_nil_of_mem hc
    have hin : m.offset ∈ t.bytes := ⟨(hx.start_le hgt.wellFormed).trans hle, hlt⟩
    obtain ⟨h, q, g, hh, hq, hg, hno, hyes, -⟩ := (traced_mention hi).reaches hn hp ht hkids
      (opensScope_not_passed ho) hin (Nat.le_refl _) hopen (by simp [Gathered.empty]) hm
    have htext : q.text x = slice source.toList x.start x.stop := by
      rw [Place.text, hq.source_eq]
    have hearly := (hx.hides hgt hpt (ht.everywhere hs)).early hh hg hno hyes (htarget.trans
      (congrArg Target.name htext.symm)) hi
    exact absurd hle (Nat.not_le.mpr hearly)

end Uses

/-- The variable that hides the field in `class A { int x; int f() { x = 1; int x = 2; return x; } }`,
the body of the method and the file. -/
def hidingVariable : Node :=
  .mk .localVariable none 34 44 [.mk .primitiveType (some .type) 34 37 [],
    .mk .variableDeclarator none 38 43 [.mk .identifier (some .name) 38 39 [],
      .mk .mark none 40 41 [], .mk .literal (some .value) 42 43 []],
    .mk .mark none 43 44 []]

@[inherit_doc hidingVariable]
def hidingBlock : Node :=
  .mk .block (some .body) 25 56 [.mk .mark none 25 26 [],
    .mk .expressionStatement none 27 33 [
      .mk .assignment none 27 32 [.mk .identifier (some .left) 27 28 [],
        .mk .mark (some .operator) 29 30 [], .mk .literal (some .right) 31 32 []],
      .mk .mark none 32 33 []],
    hidingVariable,
    .mk .returnStatement none 45 54 [.mk .mark none 45 51 [], .mk .identifier none 52 53 [],
      .mk .mark none 53 54 []],
    .mk .mark none 55 56 []]

@[inherit_doc hidingVariable]
def hidingTree : Node :=
  .mk .program none 0 58 [.mk .classDeclaration none 0 58 [
    .mk .mark none 0 5 [], .mk .identifier (some .name) 6 7 [],
    .mk .classBody none 8 58 [.mk .mark none 8 9 [],
      .mk .fieldDeclaration none 10 16 [.mk .primitiveType (some .type) 10 13 [],
        .mk .variableDeclarator none 14 15 [.mk .identifier (some .name) 14 15 []],
        .mk .mark none 15 16 []],
      .mk .methodDeclaration none 17 56 [.mk .primitiveType (some .type) 17 20 [],
        .mk .identifier (some .name) 21 22 [],
        .mk .formalParameters (some .parameters) 22 24 [.mk .mark none 22 23 [],
          .mk .mark none 23 24 []],
        hidingBlock],
      .mk .mark none 57 58 []]]]

@[inherit_doc hidingVariable]
def hidingOutline : JavaAtlas.Outline :=
  .ofTree ⟨"A.java"⟩ 0 "class A { int x; int f() { x = 1; int x = 2; return x; } }" hidingTree

theorem local_names_hidden_hidingTree :
    hidingOutline.mentions.map (·.target) = [.name "x"] ∧
      ∀ m ∈ hidingOutline.mentions, 43 ≤ m.offset → m.offset < 56 → m.target ≠ .name "x" := by
  refine ⟨by decide +kernel, ?_⟩
  have hu : Under hidingBlock _ hidingTree :=
    .child (.head _) (.child (.tail _ (.tail _ (.head _))) (.child (.tail _ (.tail _ (.head _)))
      (.child (.tail _ (.tail _ (.tail _ (.head _)))) .self)))
  have hreads : Reads hidingBlock hidingVariable := fun p _ _ =>
    ⟨p.inside hidingBlock, .tail _ (.head _)⟩
  have hbinder : Binder hidingVariable (.mk .identifier (some .name) 38 39 []) _ :=
    .declared rfl (.head _) rfl
  have hx := Introduces.inside hreads (by decide) (by decide) (.here hbinder)
  have htext :
      slice "class A { int x; int f() { x = 1; int x = 2; return x; } }".toList 38 39 = "x" := by
    decide +kernel
  rw [← htext]
  exact (local_names_hidden (show hidingTree.Grammatical by decide) (by decide) (by decide) hu
    (by decide) hx).2

end JavaAtlas.Outline
