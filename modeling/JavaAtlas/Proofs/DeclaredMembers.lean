import JavaAtlas.Proofs.OutlineNesting
import JavaAtlas.Proofs.WalkTraces

/-! Which members of a type are declared. A class without a name hides the members of its body and, with
them, those of every type that is declared inside it. -/

namespace JavaAtlas.Outline

open Syntax Text

/-- What an outline declares at a name. -/
def namedAt (o : JavaAtlas.Outline) (x : Node) : List Declaration :=
  o.declarations.filter (·.element.nameOffset == some x.start)

/-- What stands directly in the body of a type. -/
def writtenIn (t : Node) : List Node := t.named.flatMap fun b =>
  match b.kind with
  | .classBody | .interfaceBody | .annotationBody => b.named
  | .enumBody => b.named.flatMap fun c => if c.kind == .enumBodyDeclarations then c.named else [c]
  | _ => []

/-- The names of the methods, constructors, annotation elements and fields among some nodes. -/
inductive MemberName (ms : List Node) : Node → Prop
  | method {m y : Node} : m ∈ ms → m.kind ∈ methodKinds → m.child? .name = some y → MemberName ms y
  | field {m y : Node} : m ∈ ms → m.kind ∈ fieldKinds → y ∈ declaredNames m → MemberName ms y

/-- The names of the constants of an enum and the components of a record. -/
inductive PartName (t : Node) : Node → Prop
  | constant {m y : Node} : m ∈ writtenIn t → m.kind = .enumConstant → m.child? .name = some y →
      PartName t y
  | component {ps c y type : Node} : t.kind = .recordDeclaration → ps ∈ t.named →
      ps.kind = .formalParameters → c ∈ ps.named → c.kind = .formalParameter →
      c.child? .name = some y → c.child? .type = some type → PartName t y

/-- The names of compact constructors and of components of variable arity. -/
inductive SkippedName (t : Node) : Node → Prop
  | compact {m y : Node} : m ∈ writtenIn t → m.kind = .compactConstructor →
      m.child? .name = some y → SkippedName t y
  | spread {ps c y : Node} : t.kind = .recordDeclaration → ps ∈ t.named →
      ps.kind = .formalParameters → c ∈ ps.named → c.kind = .spreadParameter →
      parameterName? c = some y → SkippedName t y

variable {p q : Place} {n c t m x y : Node} {g g' : Gathered} {h i j k : Nat}
variable {unit : UnitRef} {source : String} {tree : Node} {d e : Declaration}

section Uniqueness

lemma mem_namedAt {o : JavaAtlas.Outline} :
    e ∈ namedAt o x ↔ e ∈ o.declarations ∧ e.element.nameOffset = some x.start := by
  simp [namedAt]

lemma DeclaredBy.nonempty {p : Place} {n : Node} (h : DeclaredBy p n x e) (hn : n.Grammatical) :
    x.start < x.stop := by
  cases h with
  | type _ hx => exact hn.nonempty_child (Node.mem_children_of_child? hx)
  | method _ hx _ _ => exact hn.nonempty_child (Node.mem_children_of_child? hx)
  | constant _ hx _ => exact hn.nonempty_child (Node.mem_children_of_child? hx)
  | field _ hx _ _ =>
    obtain ⟨c, hc, hname⟩ := List.mem_filterMap.mp hx
    have hgc := hn.child (mem_children_of_declarators hc)
    exact hgc.nonempty_child (Node.mem_children_of_child? hname)
  | component _ hps _ hc _ hx _ _ _ =>
    exact ((hn.child hps).child hc).nonempty_child (Node.mem_children_of_child? hx)

lemma DeclaredBy.name_eq {p : Place} {n : Node} (h : DeclaredBy p n x e) :
    e.element.nameOffset = some x.start ∧ e.element.nameLength = x.length := by
  cases h with
  | component _ _ _ _ _ _ _ hstart hlength => exact ⟨hstart, hlength⟩
  | _ => exact ⟨rfl, rfl⟩

lemma nameStart_mem (hn : tree.Grammatical)
    (he : e ∈ (JavaAtlas.Outline.ofTree unit i source tree).declarations) :
    e.nameStart ∈ e.nameBytes := by
  obtain ⟨p', n', k, m, g', hu, -, hm, h₀, h₁⟩ :=
    exists_move (P := fun g => e ∈ g.declarations.toList) (fun _ _ => Iff.rfl)
      (by simp [Gathered.empty]) he
  obtain ⟨x, hx⟩ := of_declares hm (alone_declares h₀ h₁)
  have hne := hx.nonempty (hu.everywhere hn)
  refine ⟨Nat.le_refl _, ?_⟩
  rw [hx.name_eq.2, Node.length]
  omega

/-- A name is declared at most once. -/
lemma namedAt_eq_singleton (hn : tree.Grammatical)
    (he : e ∈ namedAt (JavaAtlas.Outline.ofTree unit i source tree) x) :
    namedAt (JavaAtlas.Outline.ofTree unit i source tree) x = [e] := by
  have hf := Fits.of_grammatical hn
  have hpw := (ofTree_block hf unit i source).names_apart trivial trivial
  have hsub : (namedAt (JavaAtlas.Outline.ofTree unit i source tree) x).Sublist
      (JavaAtlas.Outline.ofTree unit i source tree).declarations := List.filter_sublist
  have hstart {d : Declaration}
      (hd : d ∈ namedAt (JavaAtlas.Outline.ofTree unit i source tree) x) : x.start ∈ d.nameBytes := by
    obtain ⟨hd, hoff⟩ := mem_namedAt.mp hd
    have hs := nameStart_mem hn hd
    rwa [Declaration.nameStart, hoff] at hs
  cases hl : namedAt (JavaAtlas.Outline.ofTree unit i source tree) x with
  | nil => simp [hl] at he
  | cons a rest =>
    rw [hl] at hsub he hstart
    cases rest with
    | nil => rw [List.mem_singleton.mp he]
    | cons b rest =>
      have hab := (List.pairwise_cons.mp (hpw.sublist hsub)).1 b List.mem_cons_self
      exact absurd (hstart (List.mem_cons_of_mem a List.mem_cons_self))
        (Set.disjoint_left.mp hab (hstart List.mem_cons_self))

end Uniqueness

section Presence

lemma mem_of_declare {m : Move} (hm : m ∈ movesAt p n g) (hd : m = .declare d ∨
    ∃ q c, m = .component d q c) : d ∈ (visit (h + 1) p n g).declarations.toList := by
  obtain ⟨before, after, heq⟩ := List.append_of_mem hm
  change d ∈ (visitNode (visit h) p n g).declarations.toList
  rw [visitNode_eq_enter, heq, perform_append, perform_cons]
  refine (perform_grows (visit_grows h) after _).1.subset ?_
  rcases hd with rfl | ⟨q, c, rfl⟩
  · exact mem_declare.mpr (.inr rfl)
  · exact (visit_grows h _ c _).1.subset (mem_declare.mpr (.inr rfl))

/-- The walk comes to a node, and what it gathers there stays. -/
def Comes (q : Place) (c : Node) (final : Gathered) : Prop :=
  ∃ h g, c.height ≤ h ∧ Grows (visit h q c g) final

lemma Comes.mem {final : Gathered} (hc : Comes p n final)
    (hm : ∀ g, ∃ m ∈ movesAt p n g, m = .declare d ∨ ∃ q c, m = .component d q c) :
    d ∈ final.declarations.toList := by
  obtain ⟨h, g, hh, hgrows⟩ := hc
  cases h with
  | zero => exact absurd hh (by cases n; simp [Node.height])
  | succ h =>
    obtain ⟨m, hm, hd⟩ := hm g
    exact hgrows.1.subset (mem_of_declare hm hd)

lemma comes_of_mem (hh : n.height ≤ h + 1) (hc : c ∈ n.children)
    (hm : .visit q c ∈ movesAt p n g) : Comes q c (visit (h + 1) p n g) := by
  obtain ⟨before, after, heq⟩ := List.append_of_mem hm
  have hlt := Node.height_lt_of_mem hc
  refine ⟨h, perform (visit h) before (enter n g), by omega, ?_⟩
  change Grows _ (visitNode (visit h) p n g)
  rw [visitNode_eq_enter, heq, perform_append, perform_cons]
  exact perform_grows (visit_grows h) after _

lemma Comes.mono {final : Gathered} (hc : Comes q c g) (h : Grows g final) : Comes q c final := by
  obtain ⟨h', g', hh, hgrows⟩ := hc
  exact ⟨h', g', hh, hgrows.trans h⟩

/-- The walk comes from a node to those that its moves visit. -/
lemma Comes.step {final : Gathered} (hc : Comes p n final) (hmem : c ∈ n.children)
    (hm : ∀ g, Move.visit q c ∈ movesAt p n g) : Comes q c final := by
  obtain ⟨h, g, hh, hgrows⟩ := hc
  cases h with
  | zero => exact absurd hh (by cases n; simp [Node.height])
  | succ h => exact (comes_of_mem hh hmem (hm g)).mono hgrows

lemma Comes.method {final : Gathered} (hm : Comes p m final) (hk : m.kind ∈ methodKinds)
    (hy : m.child? .name = some y) {typeId : String} (hid : p.typeId? = some typeId)
    (hz : p.anonymous = 0) : methodDeclaration p m typeId y ∈ final.declarations.toList := by
  refine hm.mem fun g => ⟨_, ?_, .inl rfl⟩
  have hmoves : movesAt p m g = methodMoves p m g.declarations.size := by
    simp only [methodKinds, List.mem_cons, List.not_mem_nil, or_false] at hk
    rcases hk with hk | hk | hk <;> simp only [movesAt, moves, hk]
  rw [hmoves, methodMoves, hid, hy, hz]
  exact List.mem_cons_self

lemma Comes.field {final : Gathered} (hm : Comes p m final) (hk : m.kind ∈ fieldKinds)
    (hy : y ∈ declaredNames m) {typeId : String} (hid : p.typeId? = some typeId)
    (hz : p.anonymous = 0) : fieldDeclaration p m typeId y ∈ final.declarations.toList := by
  refine hm.mem fun g => ⟨fieldHead p m y, ?_, .inl ?_⟩
  · have hmoves : movesAt p m g = fieldMoves p m g.declarations.size := by
      simp only [fieldKinds, List.mem_cons, List.not_mem_nil, or_false] at hk
      rcases hk with hk | hk <;> simp only [movesAt, moves, hk]
    rw [hmoves, fieldMoves]
    exact List.mem_append_left _ (List.mem_append_left _ (List.mem_map_of_mem hy))
  · rw [fieldHead, hid, hz]
    rfl

lemma Comes.constant {final : Gathered} (hm : Comes p m final) (hk : m.kind = .enumConstant)
    (hy : m.child? .name = some y) {typeId : String} (hid : p.typeId? = some typeId) :
    constantDeclaration p m typeId y ∈ final.declarations.toList := by
  refine hm.mem fun g => ⟨_, ?_, .inl rfl⟩
  simp only [movesAt, moves, hk]
  rw [constantMoves, hid, hy]
  exact List.mem_cons_self

/-- A node whose children are visited as they stand. -/
def bodyKinds : List Kind :=
  [.classBody, .interfaceBody, .annotationBody, .enumBody, .enumBodyDeclarations]

lemma Comes.inBody {final : Gathered} (hb : Comes p n final) (hk : n.kind ∈ bodyKinds)
    (hc : c ∈ n.named) : Comes (p.inside n) c final := by
  refine hb.step (Node.mem_children_of_mem_named hc) fun g => ?_
  have hmoves : movesAt p n g = visits (p.inside n) n.named := by
    simp only [bodyKinds, List.mem_cons, List.not_mem_nil, or_false] at hk
    rcases hk with hk | hk | hk | hk | hk <;> simp only [movesAt, moves, hk]
  rw [hmoves]
  exact List.mem_map_of_mem hc

end Presence

section Types

/-- The walk stands somewhere in a type, among the members that are declared in it. -/
structure Within (q : Place) (id : String) (k : Nat) : Prop where
  typeId_eq : q.typeId? = some id
  anonymous_eq : q.anonymous = k

lemma Within.inside {id : String} (h : Within q id k) (n : Node) : Within (q.inside n) id k :=
  ⟨h.1, h.2⟩

/-- The moves at a type declaration. -/
lemma movesAt_type (ht : isTypeDeclaration t = true) (hx : t.child? .name = some x) (p : Place)
    (g : Gathered) : movesAt p t g =
      .declare (typeDeclaration p t (typeIdIn p g.package (p.text x)) x) ::
        t.named.flatMap (typePart t (p.inType t (typeIdIn p g.package (p.text x))
          g.declarations.size) (typeIdIn p g.package (p.text x))) := by
  have hmoves : movesAt p t g = typeMoves p t g.declarations.size g.package := by
    simp only [isTypeDeclaration, typeKinds, List.contains_eq_mem, List.mem_cons,
      List.not_mem_nil, or_false, decide_eq_true_eq] at ht
    rcases ht with ht | ht | ht | ht | ht <;> simp only [movesAt, moves, ht]
  rw [hmoves, typeMoves, hx]

lemma within_inType (p : Place) (t : Node) (id : String) (first : Nat) :
    Within (p.inType t id first) id p.anonymous := ⟨by simp [Place.typeId?, Place.inType], rfl⟩

/-- What stands in the body of a type is visited inside that type. -/
lemma comes_writtenIn (ht : isTypeDeclaration t = true) (hx : t.child? .name = some x)
    (hh : t.height ≤ h + 1) (hm : m ∈ writtenIn t) :
    ∃ q, Within q (typeIdIn p g.package (p.text x)) p.anonymous ∧
      Comes q m (visit (h + 1) p t g) := by
  obtain ⟨b, hb, hm⟩ := List.mem_flatMap.mp hm
  generalize hid : typeIdIn p g.package (p.text x) = id
  have hin := within_inType p t id g.declarations.size
  have hbody (hk : b.kind ∈ bodyKinds) :
      Comes (p.inType t id g.declarations.size) b (visit (h + 1) p t g) := by
    refine comes_of_mem hh (Node.mem_children_of_mem_named hb) ?_
    rw [movesAt_type ht hx, hid]
    refine List.mem_cons_of_mem _ (List.mem_flatMap.mpr ⟨b, hb, ?_⟩)
    simp only [bodyKinds, List.mem_cons, List.not_mem_nil, or_false] at hk
    rcases hk with hk | hk | hk | hk | hk <;> simp [typePart, hk]
  split at hm
  · next hk => exact ⟨_, hin.inside b, (hbody (by rw [hk]; decide)).inBody (by rw [hk]; decide) hm⟩
  · next hk => exact ⟨_, hin.inside b, (hbody (by rw [hk]; decide)).inBody (by rw [hk]; decide) hm⟩
  · next hk => exact ⟨_, hin.inside b, (hbody (by rw [hk]; decide)).inBody (by rw [hk]; decide) hm⟩
  · next hk =>
    obtain ⟨c, hc, hm⟩ := List.mem_flatMap.mp hm
    have hcomes := (hbody (by rw [hk]; decide)).inBody (by rw [hk]; decide) hc
    split at hm
    · next hkc =>
      exact ⟨_, (hin.inside b).inside c, hcomes.inBody (by rw [eq_of_beq hkc]; decide) hm⟩
    · rw [List.mem_singleton.mp hm]
      exact ⟨_, hin.inside b, hcomes⟩
  · cases hm

lemma component_mem {ps c type : Node} (hk : t.kind = .recordDeclaration)
    (hx : t.child? .name = some x) (hps : ps ∈ t.named) (hpk : ps.kind = .formalParameters) (hc : c ∈ ps.named)
    (hck : c.kind = .formalParameter) (hy : c.child? .name = some y)
    (htype : c.child? .type = some type) : ∃ e ∈ (visit (h + 1) p t g).declarations.toList,
      e.element.nameOffset = some y.start ∧
        e.element.declaringType = some (typeIdIn p g.package (p.text x)) := by
  have ht : isTypeDeclaration t = true := by simp [isTypeDeclaration, typeKinds, hk]
  generalize hid : typeIdIn p g.package (p.text x) = id
  have hin := within_inType p t id g.declarations.size
  refine ⟨{ declarationAt (p.inType t id g.declarations.size) c y
      (id ++ "#" ++ (p.inType t id g.declarations.size).text y) .field with
    typeText := some ((p.inType t id g.declarations.size).text type) },
    mem_of_declare (m := .component _ (((p.inType t id g.declarations.size).inside ps).inside c) type)
      ?_ (.inr ⟨_, _, rfl⟩), rfl, hin.1⟩
  rw [movesAt_type ht hx, hid]
  refine List.mem_cons_of_mem _ (List.mem_flatMap.mpr ⟨ps, hps, ?_⟩)
  simp only [typePart, hpk, hk]
  refine List.mem_flatMap.mpr ⟨c, hc, ?_⟩
  simp only [componentPart, hck, hy, htype]
  exact List.mem_singleton_self _

/-- What a type writes is declared in it, its methods and fields only outside of the bodies of
classes without a name. -/
lemma members_declared (ht : isTypeDeclaration t = true) (hx : t.child? .name = some x)
    (hh : t.height ≤ h + 1)
    (hy : PartName t y ∨ p.anonymous = 0 ∧ MemberName (writtenIn t) y) :
    ∃ e ∈ (visit (h + 1) p t g).declarations.toList, e.element.nameOffset = some y.start ∧
      e.element.declaringType = some (typeIdIn p g.package (p.text x)) := by
  rcases hy with hy | ⟨hz, hy⟩
  · cases hy with
    | constant hm hk hname =>
      obtain ⟨q, hq, hcomes⟩ := comes_writtenIn (g := g) ht hx hh hm
      exact ⟨_, hcomes.constant hk hname hq.1, rfl, hq.1⟩
    | component hk hps hpk hc hck hname htype =>
      exact component_mem hk hx hps hpk hc hck hname htype
  · cases hy with
    | method hm hk hname =>
      obtain ⟨q, hq, hcomes⟩ := comes_writtenIn (g := g) ht hx hh hm
      exact ⟨_, hcomes.method hk hname hq.1 (hq.2.trans hz), rfl, hq.1⟩
    | field hm hk hname =>
      obtain ⟨q, hq, hcomes⟩ := comes_writtenIn (g := g) ht hx hh hm
      exact ⟨_, hcomes.field hk hname hq.1 (hq.2.trans hz), rfl, hq.1⟩

end Types

section Absence

lemma leaf_declares_nothing (hleaf : n.children = []) (h₀ : d ∉ g.declarations.toList) :
    d ∉ (visit h p n g).declarations.toList := by
  cases h with
  | zero => exact h₀
  | succ h =>
    intro h₁
    obtain ⟨before, m, after, heq, hb, hm⟩ :=
      visit_first (P := fun g => d ∈ g.declarations.toList) (fun _ _ => Iff.rfl) h₀ h₁
    have hof : m.Of p n := of_moves p n _ _ m (show m ∈ movesAt p n g from heq ▸ by simp)
    rcases hm with hown | ⟨q, c, g', hs, -⟩
    · obtain ⟨x, hx⟩ := of_declares hof (alone_declares hb hown)
      obtain ⟨y, hy⟩ : ∃ y, y ∈ n.children := by
        cases hx with
        | type _ hx => exact ⟨_, Node.mem_children_of_child? hx⟩
        | method _ hx _ _ => exact ⟨_, Node.mem_children_of_child? hx⟩
        | field _ hx _ _ =>
          obtain ⟨c, hc, -⟩ := List.mem_filterMap.mp hx
          exact ⟨_, mem_children_of_declarators hc⟩
        | constant _ hx _ => exact ⟨_, Node.mem_children_of_child? hx⟩
        | component _ hps => exact ⟨_, hps⟩
      simp [hleaf] at hy
    · obtain ⟨j, hthrough, -⟩ := hs.through hof
      exact hthrough.children_ne hleaf

/-- At a name there is no declaration when neither the node declares it nor a part of the node that is
more than a word holds it. -/
lemma namedAt_eq_nil (hn : tree.Grammatical) (hp : Plain tree) (hm : Under m k tree)
    (hkind : m.kind ∉ passedKinds) (hbody : ∀ c, isBody m c = false) (hkids : m.children ≠ [])
    (hy : y.start ∈ m.bytes) (hown : ∀ p x d, p.anonymous = k → ¬DeclaredBy p m x d)
    (hparts : ∀ p g q c, Move.visit q c ∈ movesAt p m g → y.start ∈ c.bytes →
      c.kind ∈ wordKinds) :
    namedAt (JavaAtlas.Outline.ofTree unit i source tree) y = [] := by
  refine List.eq_nil_iff_forall_not_mem.mpr fun e he => ?_
  obtain ⟨he, hoff⟩ := mem_namedAt.mp he
  have htraced := traced_declaration hoff
  obtain ⟨h, q, g, -, hq, -, hno, hyes, -⟩ := htraced.reaches hn hp hm hkids hkind hy
    (Nat.le_refl _) (show Open .empty from List.cons_ne_nil [] []) (by simp [Gathered.empty]) he
  have hz : q.anonymous = k := by rw [hq.2]; exact Nat.zero_add k
  have hgm : m.Grammatical := hm.everywhere hn
  have hpm : Plain m := hm.everywhere hp
  cases h with
  | zero => exact hno hyes
  | succ h =>
    obtain ⟨before, μ, after, heq, hb, hμ⟩ := visit_first htraced.blind hno hyes
    have hmem : μ ∈ movesAt q m g := heq ▸ by simp
    have hof : μ.Of q m := of_moves q m _ _ μ hmem
    rcases hμ with hown' | ⟨q', c, g', hs, hno', hyes', -, -⟩
    · obtain ⟨x, hx⟩ := of_declares hof (alone_declares hb hown')
      exact hown q x e hz hx
    · obtain ⟨j, hthrough, -⟩ := hs.through hof
      have hpc : Plain c := hthrough.everywhere hpm
      have hin := htraced.within (hthrough.everywhere hgm) hpc hno' hyes'
      cases hs with
      | visit =>
        have hword := hparts q g q' c hmem hin
        exact leaf_declares_nothing (hpc.leaf hword) hno' hyes'
      | component =>
        cases hof with
        | component hd _ _ => exact hown q _ _ hz hd
      | body _ =>
        cases hof with
        | body _ hb _ => exact absurd hb (by simp [hbody])

lemma DeclaredBy.kind (hd : DeclaredBy p n x d) : n.kind ∈ typeKinds ∨
    (n.kind ∈ methodKinds ∨ n.kind ∈ fieldKinds) ∧ p.anonymous = 0 ∨ n.kind = .enumConstant := by
  cases hd with
  | type ht | component ht => exact .inl (List.contains_iff_mem.mp ht)
  | method hk _ _ hz => exact .inr (.inl ⟨.inl hk, hz⟩)
  | field hk _ _ hz => exact .inr (.inl ⟨.inr hk, hz⟩)
  | constant hk => exact .inr (.inr hk)

/-- Kinds of nodes that declare nothing, or nothing in the body of a class without a name. -/
def hideableKinds : List Kind :=
  [.methodDeclaration, .constructorDeclaration, .annotationElement, .fieldDeclaration,
   .constantDeclaration, .compactConstructor, .spreadParameter]

lemma not_declaredBy (hk : m.kind ∈ hideableKinds)
    (hz : p.anonymous ≠ 0 ∨ m.kind ∉ methodKinds ∧ m.kind ∉ fieldKinds) : ¬DeclaredBy p m x d := by
  intro hd
  rcases hd.kind with ht | ⟨hm, hzero⟩ | hc
  · exact (by decide : ∀ k ∈ hideableKinds, k ∉ typeKinds) _ hk ht
  · rcases hz with hz | ⟨hz, hz'⟩
    · exact hz hzero
    · exact hm.elim hz hz'
  · rw [hc] at hk
    exact absurd hk (by decide)

lemma start_mem (hc : c ∈ n.children) (hn : n.Grammatical) : c.start ∈ c.bytes :=
  ⟨Nat.le_refl _, hn.nonempty_child hc⟩

lemma mem_of_start_mem (hc : c ∈ n.children) (hn : n.Grammatical) : c.start ∈ n.bytes :=
  (hn.wellFormed.within hc).bytes_subset (start_mem hc hn)

lemma mem_of_visit_mem {ns : List Node} (h : Move.visit q c ∈ visits p ns) : c ∈ ns := by
  obtain ⟨b, hb, heq⟩ := List.mem_map.mp h
  cases heq
  exact hb

section Hidden

variable (hn : tree.Grammatical) (hp : Plain tree) (hm : Under m k tree)
include hn hp hm

lemma namedAt_hidden (hk : m.kind ∈ hideableKinds)
    (hz : k ≠ 0 ∨ m.kind ∉ methodKinds ∧ m.kind ∉ fieldKinds) (hy : y.start ∈ m.bytes)
    (hkids : m.children ≠ [])
    (hparts : ∀ p g q c, Move.visit q c ∈ movesAt p m g → y.start ∈ c.bytes →
      c.kind ∈ wordKinds) :
    namedAt (JavaAtlas.Outline.ofTree unit i source tree) y = [] := by
  refine namedAt_eq_nil hn hp hm ((by decide : ∀ k ∈ hideableKinds, k ∉ passedKinds) _ hk)
    (fun c => isBody_of_kind ?_ ?_ c) hkids hy (fun p x d hpk => ?_) hparts
  · exact (by decide : ∀ k ∈ hideableKinds, k ≠ .objectCreation) _ hk
  · exact (by decide : ∀ k ∈ hideableKinds, k ≠ .enumConstant) _ hk
  · refine not_declaredBy hk ?_
    rwa [hpk]

lemma method_hidden (hk : k ≠ 0) (hkind : m.kind ∈ methodKinds) (hname : m.child? .name = some y) :
    namedAt (JavaAtlas.Outline.ofTree unit i source tree) y = [] := by
  have hgm : m.Grammatical := hm.everywhere hn
  have hyc := Node.mem_children_of_child? hname
  refine namedAt_hidden hn hp hm ((by decide : ∀ k ∈ methodKinds, k ∈ hideableKinds) _ hkind)
    (.inl hk) (mem_of_start_mem hyc hgm) (List.ne_nil_of_mem hyc) fun p g q c hc hi => ?_
  have hmoves : movesAt p m g = methodMoves p m g.declarations.size := by
    simp only [methodKinds, List.mem_cons, List.not_mem_nil, or_false] at hkind
    rcases hkind with hk | hk | hk <;> simp only [movesAt, moves, hk]
  have hpart : c ∈ beyondName m := by
    rw [hmoves, methodMoves] at hc
    split at hc
    · rcases List.mem_cons.mp hc with hdeclare | hvisit
      · cases hdeclare
      · exact mem_of_visit_mem hvisit
    · exact mem_of_visit_mem hc
  obtain ⟨hcm, hck⟩ := List.mem_filter.mp hpart
  obtain rfl := child_unique hgm.wellFormed hyc (Node.mem_children_of_mem_named hcm)
    (start_mem hyc hgm) hi
  have hf := Fits.of_grammatical hgm
  have hident := hf.namedByIdentifier
    ((by decide : ∀ k ∈ methodKinds, k ∈ declaringKinds) _ hkind) trivial y hname
  simp [hident] at hck

lemma field_hidden (hk : k ≠ 0) (hkind : m.kind ∈ fieldKinds) (hname : y ∈ declaredNames m) :
    namedAt (JavaAtlas.Outline.ofTree unit i source tree) y = [] := by
  have hgm : m.Grammatical := hm.everywhere hn
  obtain ⟨v, hv, hvy⟩ := List.mem_filterMap.mp hname
  have hvm := mem_children_of_declarators hv
  have hyv := Node.mem_children_of_child? hvy
  have hvi := mem_of_start_mem hyv (hgm.child hvm)
  have hmi := (hgm.wellFormed.within hvm).bytes_subset hvi
  refine namedAt_hidden hn hp hm ((by decide : ∀ k ∈ fieldKinds, k ∈ hideableKinds) _ hkind)
    (.inl hk) hmi (List.ne_nil_of_mem hvm) fun p g q c hc hi => ?_
  have hmoves : movesAt p m g = fieldMoves p m g.declarations.size := by
    simp only [fieldKinds, List.mem_cons, List.not_mem_nil, or_false] at hkind
    rcases hkind with hk | hk <;> simp only [movesAt, moves, hk]
  rw [hmoves, fieldMoves, List.mem_append, List.mem_append] at hc
  rcases hc with (hc | hc) | hc
  · obtain ⟨b, -, heq⟩ := List.mem_map.mp hc
    rw [fieldHead] at heq
    split at heq <;> cases heq
  · obtain ⟨hcm, hck⟩ := List.mem_filter.mp (mem_of_visit_mem hc)
    obtain rfl := child_unique hgm.wellFormed hvm (Node.mem_children_of_mem_named hcm) hvi hi
    exact absurd (List.mem_filter.mp hv).2 (by simpa using hck)
  · obtain ⟨w, hw, hc⟩ := List.mem_flatMap.mp hc
    obtain ⟨b, hb, heq⟩ := List.mem_map.mp hc
    cases heq
    have hcw := Option.mem_toList.mp hb
    have hwm := mem_children_of_declarators hw
    have hwi := ((hgm.child hwm).wellFormed.within (Node.mem_children_of_child? hcw)).bytes_subset hi
    obtain rfl := child_unique hgm.wellFormed hvm hwm hvi hwi
    have hgv := hgm.child hvm
    obtain rfl := child_unique hgv.wellFormed hyv (Node.mem_children_of_child? hcw)
      (start_mem hyv hgv) hi
    exact absurd rfl (Node.ne_of_child? hvy hcw (by decide))

lemma compact_hidden (hkind : m.kind = .compactConstructor) (hname : m.child? .name = some y) :
    namedAt (JavaAtlas.Outline.ofTree unit i source tree) y = [] := by
  have hgm : m.Grammatical := hm.everywhere hn
  have hpm : Plain m := hm.everywhere hp
  have hyc := Node.mem_children_of_child? hname
  refine namedAt_hidden hn hp hm (by rw [hkind]; decide) (.inr (by rw [hkind]; decide))
    (mem_of_start_mem hyc hgm) (List.ne_nil_of_mem hyc) fun p g q c hc hi => ?_
  have hmoves : movesAt p m g = visits (p.inside m) m.named := by simp only [movesAt, moves, hkind]
  rw [hmoves] at hc
  obtain rfl := child_unique hgm.wellFormed hyc
    (Node.mem_children_of_mem_named (mem_of_visit_mem hc))
    (start_mem hyc hgm) hi
  have hpl := hpm.here
  simp only [plain, hkind, hname, Option.all_some, List.contains_eq_mem, decide_eq_true_eq,
    List.mem_cons, List.not_mem_nil, or_false] at hpl
  rcases hpl with hk | hk <;> rw [hk] <;> decide

lemma spread_hidden (hkind : m.kind = .spreadParameter) (hname : parameterName? m = some y) :
    namedAt (JavaAtlas.Outline.ofTree unit i source tree) y = [] := by
  have hgm : m.Grammatical := hm.everywhere hn
  rw [parameterName?, hkind] at hname
  obtain ⟨v, hv, hvy⟩ := Option.bind_eq_some_iff.mp hname
  have hvm : v ∈ m.children := List.mem_of_find?_eq_some hv
  have hvk : v.kind = .variableDeclarator := by simpa using List.find?_some hv
  have hyv := Node.mem_children_of_child? hvy
  have hvi := mem_of_start_mem hyv (hgm.child hvm)
  have hmi := (hgm.wellFormed.within hvm).bytes_subset hvi
  refine namedAt_hidden hn hp hm (by rw [hkind]; decide) (.inr (by rw [hkind]; decide)) hmi
    (List.ne_nil_of_mem hvm) fun p g q c hc hi => ?_
  have hmoves : movesAt p m g = parameterMoves p m := by simp only [movesAt, moves, hkind]
  rw [hmoves, parameterMoves, List.mem_append] at hc
  rcases hc with hc | hc
  · obtain ⟨hcm, hck⟩ := List.mem_filter.mp (mem_of_visit_mem hc)
    obtain rfl := child_unique hgm.wellFormed hvm (Node.mem_children_of_mem_named hcm) hvi hi
    simp [hvk] at hck
  · rw [bindMoves, Option.mem_toList, Option.map_eq_some_iff] at hc
    obtain ⟨b, -, heq⟩ := hc
    cases heq

end Hidden

end Absence

section Directly

lemma Under.part (ht : Under t k tree) (hc : c ∈ t.children) (h : t.kind ≠ .objectCreation)
    (h' : t.kind ≠ .enumConstant) : Under c k tree := by
  have hstep : Under c (bodies t c + 0) t := .child hc .self
  rw [bodies_of_not (isBody_of_kind h h' c)] at hstep
  exact ht.trans hstep

lemma Under.writtenIn (hu : Under t k tree) (ht : isTypeDeclaration t = true)
    (hm : m ∈ writtenIn t) : Under m k tree := by
  obtain ⟨b, hb, hm⟩ := List.mem_flatMap.mp hm
  have hkind := List.contains_iff_mem.mp ht
  have hub : Under b k tree := hu.part (Node.mem_children_of_mem_named hb)
    ((by decide : ∀ k ∈ typeKinds, k ≠ .objectCreation) _ hkind)
    ((by decide : ∀ k ∈ typeKinds, k ≠ .enumConstant) _ hkind)
  have hin {b c : Node} (hub : Under b k tree) (hbk : b.kind ∈ bodyKinds) (hc : c ∈ b.named) :
      Under c k tree := hub.part (Node.mem_children_of_mem_named hc)
    ((by decide : ∀ k ∈ bodyKinds, k ≠ .objectCreation) _ hbk)
    ((by decide : ∀ k ∈ bodyKinds, k ≠ .enumConstant) _ hbk)
  split at hm
  · next hk => exact hin hub (by rw [hk]; decide) hm
  · next hk => exact hin hub (by rw [hk]; decide) hm
  · next hk => exact hin hub (by rw [hk]; decide) hm
  · next hk =>
    obtain ⟨c, hc, hm⟩ := List.mem_flatMap.mp hm
    have huc := hin hub (by rw [hk]; decide) hc
    split at hm
    · next hkc => exact hin huc (by rw [eq_of_beq hkc]; decide) hm
    · rwa [List.mem_singleton.mp hm]
  · cases hm

variable (hn : tree.Grammatical) (hp : Plain tree)
include hn hp

lemma member_hidden {ms : List Node} (hms : ∀ m ∈ ms, Under m k tree) (hk : k ≠ 0)
    (hy : MemberName ms y) : namedAt (JavaAtlas.Outline.ofTree unit i source tree) y = [] := by
  cases hy with
  | method hm hkind hname => exact method_hidden hn hp (hms _ hm) hk hkind hname
  | field hm hkind hname => exact field_hidden hn hp (hms _ hm) hk hkind hname

lemma skipped_hidden (hu : Under t k tree) (ht : isTypeDeclaration t = true) (hy : SkippedName t y) :
    namedAt (JavaAtlas.Outline.ofTree unit i source tree) y = [] := by
  cases hy with
  | compact hm hkind hname => exact compact_hidden hn hp (hu.writtenIn ht hm) hkind hname
  | spread hk hps hpk hc hck hname =>
    have hups := hu.part (Node.mem_children_of_mem_named hps) (by simp [hk]) (by simp [hk])
    have huc := hups.part (Node.mem_children_of_mem_named hc) (by simp [hpk]) (by simp [hpk])
    exact spread_hidden hn hp huc hck hname

/-- The walk came to a type that is declared, and has its declaration from there. -/
lemma visit_of_declared (hu : Under t k tree) (ht : isTypeDeclaration t = true)
    (hx : t.child? .name = some x)
    (hd : d ∈ namedAt (JavaAtlas.Outline.ofTree unit i source tree) x) :
    ∃ h q g, t.height ≤ h + 1 ∧ q.anonymous = k ∧ d.id = typeIdIn q g.package (q.text x) ∧
      ∀ e ∈ (visit (h + 1) q t g).declarations.toList,
        e ∈ (JavaAtlas.Outline.ofTree unit i source tree).declarations := by
  obtain ⟨hmem, hoff⟩ := mem_namedAt.mp hd
  have hxc := Node.mem_children_of_child? hx
  have hgt : t.Grammatical := hu.everywhere hn
  have hkind : t.kind ∉ passedKinds :=
    (by decide : ∀ k ∈ typeKinds, k ∉ passedKinds) _ (List.contains_iff_mem.mp ht)
  obtain ⟨h, q, g, hh, hq, -, -, -, hgrows⟩ := (traced_declaration hoff).reaches hn hp hu
    (List.ne_nil_of_mem hxc) hkind (mem_of_start_mem hxc hgt)
    (Nat.le_refl _) (show Open .empty from List.cons_ne_nil [] []) (by simp [Gathered.empty]) hmem
  cases h with
  | zero => exact absurd hh (by cases t; simp [Node.height])
  | succ h =>
    have hown : typeDeclaration q t (typeIdIn q g.package (q.text x)) x ∈
        (visit (h + 1) q t g).declarations.toList := by
      refine mem_of_declare (m := .declare _) ?_ (.inl rfl)
      rw [movesAt_type ht hx]
      exact List.mem_cons_self
    have hsingle := namedAt_eq_singleton hn (mem_namedAt.mpr ⟨hgrows.1.subset hown, rfl⟩)
    rw [hsingle, List.mem_singleton] at hd
    refine ⟨h, q, g, hh, ?_, by rw [hd]; rfl, fun _ h => hgrows.1.subset h⟩
    rw [hq.2]
    exact Nat.zero_add k

/-- The members of a declared type are declared in it, once each, when no class without a name
stands around it. In the body of such a class only the constants and the components of a declared type
are, and never its compact constructors or a component of variable arity. -/
theorem declared_members :
    (∀ t k x d, Under t k tree → isTypeDeclaration t = true → t.child? .name = some x →
      d ∈ namedAt (JavaAtlas.Outline.ofTree unit i source tree) x →
        (∀ y, MemberName (writtenIn t) y → if k = 0
          then ∃ e, namedAt (JavaAtlas.Outline.ofTree unit i source tree) y = [e] ∧
            e.element.declaringType = some d.id
          else namedAt (JavaAtlas.Outline.ofTree unit i source tree) y = []) ∧
        (∀ y, PartName t y → ∃ e, namedAt (JavaAtlas.Outline.ofTree unit i source tree) y = [e] ∧
          e.element.declaringType = some d.id) ∧
        ∀ y, SkippedName t y → namedAt (JavaAtlas.Outline.ofTree unit i source tree) y = []) ∧
    ∀ s k c y, Under s k tree → c ∈ s.children → isBody s c = true → MemberName c.named y →
      namedAt (JavaAtlas.Outline.ofTree unit i source tree) y = [] := by
  refine ⟨fun t k x d hu ht hx hd => ?_, fun s k c y hu hc hb hy => ?_⟩
  · obtain ⟨h, q, g, hh, hq, hid, hmem⟩ := visit_of_declared hn hp hu ht hx hd
    have hone {y : Node}
        (hy : PartName t y ∨ q.anonymous = 0 ∧ MemberName (writtenIn t) y) :
        ∃ e, namedAt (JavaAtlas.Outline.ofTree unit i source tree) y = [e] ∧
          e.element.declaringType = some d.id := by
      obtain ⟨e, he, hoff, hin⟩ := members_declared (g := g) ht hx hh hy
      exact ⟨e, namedAt_eq_singleton hn (mem_namedAt.mpr ⟨hmem e he, hoff⟩), hid ▸ hin⟩
    refine ⟨fun y hy => ?_, fun y hy => hone (.inl hy), fun y hy => skipped_hidden hn hp hu ht hy⟩
    split
    · next hk => exact hone (.inr ⟨hq.trans hk, hy⟩)
    · next hk => exact member_hidden hn hp (fun m hm => hu.writtenIn ht hm) hk hy
  · have hbk : c.kind = .classBody := by
      simp only [isBody, Bool.and_eq_true, beq_iff_eq] at hb
      exact hb.2
    have huc : Under c (k + 1) tree := by
      have hstep : Under c (bodies s c + 0) s := .child hc .self
      rw [bodies, if_pos hb] at hstep
      exact hu.trans hstep
    refine member_hidden hn hp (fun m hm => ?_) k.succ_ne_zero hy
    exact huc.part (Node.mem_children_of_mem_named hm) (by simp [hbk]) (by simp [hbk])

end Directly

/-- The field of `class B` in `class A { Object o = new Object() { class B { int x; } }; }`, the class,
the field of `A` and the file. -/
def coveredField : Node :=
  .mk .fieldDeclaration none 46 52 [.mk .primitiveType (some .type) 46 49 [],
    .mk .variableDeclarator none 50 51 [.mk .identifier (some .name) 50 51 []],
    .mk .mark none 51 52 []]

@[inherit_doc coveredField]
def coveredClass : Node :=
  .mk .classDeclaration none 36 54 [
    .mk .mark none 36 41 [], .mk .identifier (some .name) 42 43 [],
    .mk .classBody none 44 54 [.mk .mark none 44 45 [], coveredField, .mk .mark none 53 54 []]]

@[inherit_doc coveredField]
def coveringField : Node :=
  .mk .fieldDeclaration none 10 57 [.mk .typeIdentifier (some .type) 10 16 [],
    .mk .variableDeclarator none 17 56 [
      .mk .identifier (some .name) 17 18 [], .mk .mark none 19 20 [],
      .mk .objectCreation (some .value) 21 56 [
        .mk .mark none 21 24 [], .mk .typeIdentifier (some .type) 25 31 [],
        .mk .argumentList (some .arguments) 31 33 [.mk .mark none 31 32 [], .mk .mark none 32 33 []],
        .mk .classBody none 34 56 [.mk .mark none 34 35 [], coveredClass, .mk .mark none 55 56 []]]],
    .mk .mark none 56 57 []]

@[inherit_doc coveredField]
def coveringTree : Node :=
  .mk .program none 0 59 [.mk .classDeclaration none 0 59 [
    .mk .mark none 0 5 [], .mk .identifier (some .name) 6 7 [],
    .mk .classBody none 8 59 [.mk .mark none 8 9 [], coveringField, .mk .mark none 58 59 []]]]

@[inherit_doc coveredField]
def coveringOutline : JavaAtlas.Outline :=
  .ofTree ⟨"A.java"⟩ 0 "class A { Object o = new Object() { class B { int x; } }; }" coveringTree

theorem declared_members_coveredClass :
    coveringOutline.declarations.map (·.id) = ["A", "A#o", "A.B"] ∧
      namedAt coveringOutline (.mk .identifier (some .name) 50 51 []) = [] := by
  refine ⟨by decide +kernel, ?_⟩
  have hu : Under coveredClass _ coveringTree :=
    .child (.head _) (.child (.tail _ (.tail _ (.head _))) (.child (.tail _ (.head _))
      (.child (.tail _ (.head _)) (.child (.tail _ (.tail _ (.head _)))
        (.child (.tail _ (.tail _ (.tail _ (.head _)))) (.child (.tail _ (.head _)) .self))))))
  have hdeclared :
      (namedAt coveringOutline (.mk .identifier (some .name) 42 43 [])).isEmpty = false := by
    decide +kernel
  obtain ⟨d, hd⟩ := List.exists_mem_of_ne_nil _ (List.isEmpty_eq_false_iff.mp hdeclared)
  have h := (declared_members (show coveringTree.Grammatical by decide) (by decide)).1 coveredClass 1
    _ d hu (by decide) rfl hd
  exact h.1 _ (.field (m := coveredField) (.head _) (by decide) (.head _))

end JavaAtlas.Outline
