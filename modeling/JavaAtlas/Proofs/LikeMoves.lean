import JavaAtlas.Proofs.LikeTrees

/-! What is done at two nodes that are alike is alike, move by move: one lemma for each kind of
node. -/

namespace JavaAtlas.Outline

open Syntax Text List

/-- The move looks at a comment, so nothing comes of it. -/
def Move.isRemark : Move → Bool
  | .visit _ c => c.kind == .comment
  | _ => false

/-- The first move declares something, which owns what comes of the others. -/
def Declares (ms : List Move) : Prop := ∃ d rest, ms = .declare d :: rest

namespace Likeness

variable {L : Likeness} {own : Nat → Nat → Prop} {p p' q q' : Place} {n n' c c' : Node}
variable {ns ns' : List Node} {ms ms' ks ks' : List Move}

/-- Two nodes at which the same is mentioned. -/
structure Shown (L : Likeness) (a a' : Node) : Prop where
  place_eq : L.exact → a.start = a'.start ∧ a.stop = a'.stop
  seen : L.seen a.start = true ∧ L.seen' a'.start = true

/-- Two moves that do the same at a node of the one tree and at a node of the other. -/
inductive LikeMove (L : Likeness) (own : Nat → Nat → Prop) : Move → Move → Prop
  | visit {q q' : Place} {c c' : Node} : L.Beside own q q' → L.node c c' →
      LikeMove L own (.visit q c) (.visit q' c')
  | body {q q' : Place} {c c' : Node} : L.Beside own q q' → L.node c c' → c.kind = .classBody →
      LikeMove L own (.body q c) (.body q' c')
  | scope {n c c' : Node} (q q' : Place) : L.gap n c c' → opensScope c = true →
      opensScope c' = true → LikeMove L own (.visit q c) (.visit q' c')
  | scopeBody {n c c' : Node} (q q' : Place) : L.gap n c c' →
      LikeMove L own (.body q c) (.body q' c')
  | bind {l l' : Local} (name : String) : L.LikeLocal l l' →
      LikeMove L own (.bind name l) (.bind name l')
  | mention {p p' : Place} {a a' : Node} {role : Role} {target target' : Gathered → Option Target} :
      L.Beside own p p' → L.Shown a a' →
      (∀ g g', L.Binds g g' → target g = target' g') →
      LikeMove L own (.mention p a role target) (.mention p' a' role target')
  | declare {d d' : Declaration} : L.Declared d d' → LikeMove L own (.declare d) (.declare d')
  | component {d d' : Declaration} {q q' : Place} {c c' : Node} : L.Declared d d' →
      L.Beside own q q' → L.node c c' → LikeMove L own (.component d q c) (.component d' q' c')
  | package {name : String} : L.legible name → LikeMove L own (.package name) (.package name)
  | imported (i : Import) : LikeMove L own (.imported i) (.imported i)

/-- Lists of moves that are alike, remarks apart. -/
def Moves (L : Likeness) (own : Nat → Nat → Prop) (ms ms' : List Move) : Prop :=
  Forall₂ (L.LikeMove own) (ms.filter (!·.isRemark)) (ms'.filter (!·.isRemark))

namespace Moves

lemma nil : L.Moves own [] [] := Forall₂.nil

lemma append (h : L.Moves own ms ms') (h' : L.Moves own ks ks') : L.Moves own (ms ++ ks) (ms' ++ ks') := by
  rw [Moves, filter_append, filter_append]
  exact rel_append h h'

lemma cons {m m' : Move} (hr : m.isRemark = false) (hr' : m'.isRemark = false)
    (hm : L.LikeMove own m m') (h : L.Moves own ms ms') : L.Moves own (m :: ms) (m' :: ms') := by
  rw [Moves, filter_cons_of_pos (by simp [hr]), filter_cons_of_pos (by simp [hr'])]
  exact .cons hm h

lemma flatMap {f f' : Node → List Move} (hs : L.Parts n ns ns')
    (hr : ∀ c, c.isRemark = true → (f c).filter (!·.isRemark) = [])
    (hr' : ∀ c, c.isRemark = true → (f' c).filter (!·.isRemark) = [])
    (hf : ∀ {c c'}, L.Part n c c' → L.Moves own (f c) (f' c')) :
    L.Moves own (ns.flatMap f) (ns'.flatMap f') := by
  have hcode {f : Node → List Move} (hr : ∀ c, c.isRemark = true → (f c).filter (!·.isRemark) = [])
      (ns : List Node) : (ns.flatMap f).filter (!·.isRemark) =
        ((Node.code ns).flatMap f).filter (!·.isRemark) := by
    induction ns with
    | nil => rfl
    | cons c ns ih =>
      rw [Node.code] at ih ⊢
      cases hc : c.isRemark with
      | true =>
        rw [filter_cons_of_neg (by simp [hc]), flatMap_cons, filter_append, ih, hr c hc, nil_append]
      | false =>
        rw [filter_cons_of_pos (by simp [hc]), flatMap_cons, flatMap_cons, filter_append,
          filter_append, ih]
  rw [Moves, hcode hr, hcode hr']
  rw [Parts] at hs
  generalize Node.code ns = cs, Node.code ns' = cs' at hs
  induction hs with
  | nil => exact .nil
  | cons hc _ ih =>
    rw [flatMap_cons, flatMap_cons, filter_append, filter_append]
    exact rel_append (hf hc) ih

lemma visit (hq : L.Beside own q q') (hc : L.Part n c c') (hb : isBody n c = false) :
    L.Moves own [.visit q c] [.visit q' c'] := by
  have hk := hc.kind_eq
  cases hr : c.kind == .comment with
  | true =>
    rw [Moves, filter_cons_of_neg (by simp [Move.isRemark, hr]),
      filter_cons_of_neg (by simp [Move.isRemark, ← hk, hr])]
    exact .nil
  | false =>
    refine cons hr (by rw [Move.isRemark, ← hk, hr]) ?_ nil
    rcases hc with hc | hc
    · exact .visit hq hc
    · obtain ⟨ho, ho'⟩ := (L.gap_at hc).opens.resolve_left (by simp [hb])
      exact .scope q q' hc ho ho'

lemma body (hq : L.Beside own q q') (hc : L.Part n c c') (hk : c.kind = .classBody) :
    L.Moves own [.body (q.inBody c) c] [.body (q'.inBody c') c'] := by
  refine cons rfl rfl ?_ nil
  rcases hc with hc | hc
  · exact .body (hq.inBody hc) hc hk
  · exact .scopeBody _ _ hc

lemma map {f f' : Node → Move} (hs : L.Parts n ns ns')
    (hr : ∀ c, c.isRemark = true → (f c).isRemark = true)
    (hr' : ∀ c, c.isRemark = true → (f' c).isRemark = true)
    (hf : ∀ {c c'}, L.Part n c c' → L.Moves own [f c] [f' c']) :
    L.Moves own (ns.map f) (ns'.map f') := by
  have hsingle (f : Node → Move) (ns : List Node) : ns.map f = ns.flatMap fun c => [f c] := by
    rw [← flatMap_pure_eq_map]
    rfl
  rw [hsingle, hsingle]
  exact flatMap hs (fun c hc => by simp [hr c hc]) (fun c hc => by simp [hr' c hc]) hf

lemma visits (hq : L.Beside own q q') (hs : L.Parts n ns ns') (hb : ∀ c, isBody n c = false) :
    L.Moves own (visits q ns) (visits q' ns') :=
  map hs (fun c hc => by rw [Move.isRemark, kind_of_isRemark hc]; rfl)
    (fun c hc => by rw [Move.isRemark, kind_of_isRemark hc]; rfl) fun hc => visit hq hc (hb _)

end Moves

section Reading

lemma texts_eq (hp : L.Beside own p p') (hn : L.node n n') (hs : n.isSpelled = true) :
    p.text n = p'.text n' := by
  rw [hp.text_eq, hp.text_eq']
  exact (L.alike hn).spelled_eq hs

lemma isName_of_child? (hc : n.child? .name = some c) : c.isName = true := by
  simp [Node.isName, Node.slot?_of_child? hc]

lemma isSpelled_of_isName (hc : c.isName = true) : c.isSpelled = true := by
  simp [Node.isSpelled, hc]

lemma isSpelled_of_child? {s : Slot} (hc : n.child? s = some c)
    (hs : s = .name ∨ s = .field ∨ s = .operator) : c.isSpelled = true := by
  have hslot := Node.slot?_of_child? hc
  rcases hs with rfl | rfl | rfl <;> simp [Node.isSpelled, Node.isName, hslot]

lemma child_text_eq (hp : L.Beside own p p') {s : Slot} (hc : n.child? s = some c)
    (hcc : L.node c c') (hs : s = .name ∨ s = .field ∨ s = .operator) : p.text c = p'.text c' :=
  texts_eq hp hcc (isSpelled_of_child? hc hs)

lemma legible_name_of_child? (hp : L.Beside own p p') (hc : n.child? .name = some c)
    (hcc : L.node c c') : L.legible (p.text c) := by
  rw [hp.text_eq]
  exact L.legible_name hcc (isName_of_child? hc)

lemma shown (hn : L.node n n') (hs : n.isSpelled = true ∨ n.kind = .thisName) : L.Shown n n' :=
  ⟨fun he => ⟨(L.alike hn).start_eq he, (L.alike hn).stop_eq he⟩, (L.alike hn).seen_word hs⟩

lemma shown_anchor (hn : L.node n n') (hs : n.slot? = some .type ∨ n.kind = .scopedType) :
    L.Shown (anchorOf n) (anchorOf n') :=
  ⟨(L.alike hn).anchor_eq hs, (L.alike hn).seen_anchor hs⟩

lemma typeText (hp : L.Beside own p p') (hn : L.node n n') :
    Option.Rel L.written ((n.child? .type).map p.text) ((n'.child? .type).map p'.text) := by
  rcases child hn .type (by decide) with ⟨hc, hc'⟩ | ⟨c, c', hc, hc', -⟩
  · rw [hc, hc']
    exact .none
  · rw [hc, hc', hp.text_eq, hp.text_eq']
    exact .some ((L.alike hn).type_text c c' hc hc')

lemma erased_type (hp : L.Beside own p p') (hn : L.node n n') (hc : n.child? .type = some c)
    (hc' : n'.child? .type = some c') : eraseType (p.text c) = eraseType (p'.text c') := by
  rw [hp.text_eq, hp.text_eq']
  exact L.written_erase ((L.alike hn).type_text c c' hc hc')

lemma declared (hp : L.Beside own p p') (hn : L.node n n') {name name' : Node}
    (hname : L.node name name') (hword : name.isSpelled = true) {id : String}
    {kind : ElementKind} {arity : Nat} {varargs : Bool} {type type' : Option String}
    {supers supers' : List String} (ht : Option.Rel L.written type type')
    (hs : Forall₂ L.written supers supers') (hl : kind.isType = true → L.legible id)
    (hm : kind.isType = false → ∃ type tail, p.typeId? = some type ∧ L.legible type ∧
      L.legible (p.text name) ∧ id = type ++ "#" ++ p.text name ++ tail ∧ IsTail kind tail) :
    L.Declared ⟨(declarationAt p n name id kind).element, n.start, n.stop, arity, varargs, type,
        supers, p.chain, p.unitIndex⟩
      ⟨(declarationAt p' n' name' id kind).element, n'.start, n'.stop, arity, varargs, type',
        supers', p'.chain, p'.unitIndex⟩ where
  id_eq := rfl
  name_eq := texts_eq hp hname hword
  kind_eq := rfl
  declaringType_eq := hp.typeId?_eq
  arity_eq := rfl
  varargs_eq := rfl
  chain_eq := hp.chain_eq
  typeText := ht
  superTexts := hs
  binary_eq := rfl
  unit_eq := ⟨congrArg some hp.unit_eq, congrArg some hp.unit_eq'⟩
  unitIndex_eq := ⟨hp.unitIndex_eq, hp.unitIndex_eq'⟩
  place_eq he := by
    have hs := (L.alike hname).start_eq he
    have he' := (L.alike hname).stop_eq he
    refine ⟨(L.alike hn).start_eq he, (L.alike hn).stop_eq he, congrArg some hs, ?_⟩
    change name.length = name'.length
    rw [Node.length, Node.length, hs, he']
  seen := (L.alike hname).seen_word (.inl hword)
  legible := hl
  member := hm

lemma legible_of_typeId? (hp : L.Beside own p p') {id : String} (h : p.typeId? = some id) :
    L.legible id := hp.legible id (List.mem_of_getLast? h)

lemma declared_member (hp : L.Beside own p p') (hn : L.node n n') {name name' : Node}
    (hname : L.node name name') (hword : name.isName = true) {typeId tail id : String}
    (htype : p.typeId? = some typeId) {kind : ElementKind}
    (hid : id = typeId ++ "#" ++ p.text name ++ tail) (htail : IsTail kind tail) {arity : Nat}
    {varargs : Bool} {type type' : Option String} (ht : Option.Rel L.written type type') :
    L.Declared ⟨(declarationAt p n name id kind).element, n.start, n.stop, arity, varargs, type,
        [], p.chain, p.unitIndex⟩
      ⟨(declarationAt p' n' name' id kind).element, n'.start, n'.stop, arity, varargs, type',
        [], p'.chain, p'.unitIndex⟩ := by
  have hlegible : L.legible (p.text name) := by
    rw [hp.text_eq]
    exact L.legible_name hname hword
  exact declared hp hn hname (isSpelled_of_isName hword) ht .nil
    (fun h => absurd h (by simp [htail.isType_eq])) fun _ =>
    ⟨typeId, tail, htype, legible_of_typeId? hp htype, hlegible, hid, htail⟩

lemma accessRole_eq (hp : L.Beside own p p') (hn : L.node n n') :
    accessRole p n = accessRole p' n' := by
  have ht := hp.trail
  rw [accessRole, accessRole]
  generalize p.trail = trail, p'.trail = trail' at ht
  cases ht with
  | nil => rfl
  | @cons parent parent' _ _ hpar _ =>
    simp only [(L.alike hpar).kind_eq, (L.alike hn).slot_eq]
    rcases child hpar .operator (by decide) with ⟨hc, hc'⟩ | ⟨c, c', hc, hc', hcc⟩
    · rw [hc, hc']
    · rw [hc, hc']
      simp only [child_text_eq hp hc hcc (.inr (.inr rfl))]

lemma argumentCount_eq (hn : L.node n n') :
    argumentCount (n.child? .arguments) = argumentCount (n'.child? .arguments) := by
  rcases child hn .arguments (by decide) with ⟨hc, hc'⟩ | ⟨c, c', hc, hc', hcc⟩
  · rw [hc, hc']
  · rw [hc, hc']
    have hf := ((Parts.named hcc).filter (· != .comment)).length_eq
    have hcode (l : List Node) :
        Node.code (l.filter (·.kind != .comment)) = l.filter (·.kind != .comment) := by
      refine filter_eq_self.mpr fun c hm => ?_
      have hk := (mem_filter.mp hm).2
      cases hr : c.isRemark with
      | false => rfl
      | true => simp [kind_of_isRemark hr] at hk
    rwa [hcode, hcode] at hf

variable {g g' : Gathered}

/-- The object of a member access is written alike, and what it names is bound alike. -/
lemma receiverOf_eq (hp : L.Beside own p p') (hg : L.Binds g g') {o o' : Node}
    (hpart : L.Part n o o') : receiverOf p g (some o) = receiverOf p' g' (some o') := by
  have hnode (hk : o.kind ∉ scopeKinds) : L.node o o' := hpart.node_of_kind hk
  have herased (he : [Kind.typeIdentifier, .scopedType, .genericType, .arrayType].contains o.kind =
      true) (hk : o.kind ∉ scopeKinds) : eraseType (p.text o) = eraseType (p'.text o') := by
    rw [hp.text_eq, hp.text_eq']
    exact (L.alike (hnode hk)).erased_eq he
  simp only [receiverOf, ← hpart.kind_eq]
  split
  case h_3 hk =>
    have hn := hnode (by rw [hk]; decide)
    rw [← texts_eq hp hn (by simp [Node.isSpelled, Node.isName, hk])]
    have hl := hg.local? (p.text o)
    generalize g.local? (p.text o) = l, g'.local? (p.text o) = l' at hl
    cases hl with
    | none => rfl
    | some hl =>
      cases hl with
      | typeParameter => rfl
      | «variable» hw =>
        cases hw with
        | none => rfl
        | some hw => simp only [L.written_erase hw]
  case h_4 hk =>
    have hn := hnode (by rw [hk]; decide)
    rcases slot_part hn .object with ⟨ho, ho'⟩ | ⟨i, i', ho, ho', hoo⟩ <;>
      rcases child hn .field (by decide) with ⟨hf, hf'⟩ | ⟨f, f', hf, hf', hff⟩
    · simp [ho, ho', hf, hf', headKind?]
    · simp [ho, ho', hf, hf', headKind?]
    · simp [ho, ho', hf, hf', headKind?]
    · have htext := child_text_eq hp hf hff (.inr (.inl rfl))
      simp only [ho, ho', hf, hf', headKind?, Option.toList_some, head?_cons, Option.map_some,
        hoo.kind_eq]
      by_cases hk' : i'.kind = .thisName
      · simp only [hk', htext]
      · simp [hk']
  case h_5 hk => rw [herased (by simp [hk]) (by rw [hk]; decide)]
  case h_6 hk => rw [herased (by simp [hk]) (by rw [hk]; decide)]
  case h_7 hk => rw [herased (by simp [hk]) (by rw [hk]; decide)]
  case h_8 hk =>
    have hn := hnode (by rw [hk]; decide)
    rcases child hn .type (by decide) with ⟨hc, hc'⟩ | ⟨c, c', hc, hc', -⟩
    · simp only [hc, hc']
    · simp only [hc, hc', erased_type hp hn hc hc']
  case h_9 hk =>
    have hi := (L.alike (hnode (by rw [hk]; decide))).inner_head hk
    generalize o.named.head? = i, o'.named.head? = i' at hi
    cases hi with
    | none => rfl
    | @some i i' hi =>
      have hinner : L.Part o i i' := hi
      simp only [← hinner.kind_eq]
      split
      · next hcast =>
        have hn := hinner.node_of_kind (by rw [eq_of_beq hcast]; decide)
        rcases child hn .type (by decide) with ⟨hc, hc'⟩ | ⟨c, c', hc, hc', -⟩
        · simp only [hc, hc']
        · simp only [hc, hc', erased_type hp hn hc hc']
      · rfl
  all_goals rfl

lemma receiverOf_child_eq (hp : L.Beside own p p') (hg : L.Binds g g') (hn : L.node n n')
    (s : Slot) : receiverOf p g (n.child? s) = receiverOf p' g' (n'.child? s) := by
  rcases slot_part hn s with ⟨hc, hc'⟩ | ⟨c, c', hc, hc', hcc⟩
  · rw [hc, hc']
    rfl
  · rw [hc, hc', receiverOf_eq hp hg hcc]

end Reading

section Parts

lemma slotMoves_alike (hp : L.Beside own p p') (hn : L.node n n') (s : Slot)
    (hb : ∀ c, isBody n c = false) : L.Moves own (slotMoves s p n) (slotMoves s p' n') := by
  rw [slotMoves, slotMoves]
  rcases slot_part hn s with ⟨hc, hc'⟩ | ⟨c, c', hc, hc', hcc⟩
  · rw [hc, hc']
    exact .nil
  · rw [hc, hc']
    exact .visit (hp.inside hn) hcc (hb c)

lemma namedMoves_alike (hp : L.Beside own p p') (hn : L.node n n') (test : Kind → Bool)
    (hb : ∀ c, isBody n c = false) :
    L.Moves own (visits (p.inside n) (n.named.filter (test ·.kind)))
      (visits (p'.inside n') (n'.named.filter (test ·.kind))) :=
  .visits (hp.inside hn) ((Parts.named hn).filter test) hb

lemma childMoves_alike (hp : L.Beside own p p') (hn : L.node n n') (hb : ∀ c, isBody n c = false) :
    L.Moves own (visits (p.inside n) n.named) (visits (p'.inside n') n'.named) :=
  .visits (hp.inside hn) (Parts.named hn) hb

lemma bindMoves_alike (hp : L.Beside own p p') {name name' : Option Node} {w w' : Option String}
    (hname : name = none ∧ name' = none ∨ ∃ m m', name = some m ∧ name' = some m' ∧ L.node m m' ∧
      m.isSpelled = true) (hw : Option.Rel L.written w w') :
    L.Moves own (bindMoves p name w) (bindMoves p' name' w') := by
  rw [bindMoves, bindMoves]
  rcases hname with ⟨rfl, rfl⟩ | ⟨m, m', rfl, rfl, hm, hs⟩
  · exact .nil
  · rw [Option.map_some, Option.map_some, ← texts_eq hp hm hs]
    exact .cons rfl rfl (.bind _ (.variable hw)) .nil

lemma named_child (hn : L.node n n') :
    n.child? .name = none ∧ n'.child? .name = none ∨ ∃ m m', n.child? .name = some m ∧
      n'.child? .name = some m' ∧ L.node m m' ∧ m.isSpelled = true := by
  rcases child hn .name (by decide) with hm | ⟨m, m', hm, hm', hmm⟩
  · exact .inl hm
  · exact .inr ⟨m, m', hm, hm', hmm, isSpelled_of_child? hm (.inl rfl)⟩

end Parts

section Headers

lemma packageMoves_alike (hp : L.Beside own p p') (hn : L.node n n') :
    L.Moves own (packageMoves p n) (packageMoves p' n') := by
  rw [packageMoves, packageMoves]
  rcases (Parts.named hn).ofKind (fun k => [Kind.scopedIdentifier, .identifier].contains k) rfl with
    ⟨hc, hc'⟩ | ⟨c, c', hc, hc', hcc⟩
  · rw [hc, hc']
    exact .nil
  · have hk := List.find?_some hc
    simp only [contains_eq_mem, mem_cons, not_mem_nil, or_false, decide_eq_true_eq] at hk
    have hname : c.isName = true := by rcases hk with hk | hk <;> simp [Node.isName, hk]
    have hnode := hcc.node_of_kind (by rcases hk with hk | hk <;> rw [hk] <;> decide)
    rw [hc, hc', Option.map_some, Option.map_some,
      ← texts_eq hp hnode (by simp [Node.isSpelled, hname])]
    exact .cons rfl rfl (.package (hp.text_eq ▸ L.legible_name hnode hname)) .nil

lemma readImport_eq (hp : L.Beside own p p') (hc : L.Part n c c') (i : Import) :
    readImport p i c = readImport p' i c' := by
  have htext (hs : c.isSpelled = true) (hk : c.kind ∉ scopeKinds) : p.text c = p'.text c' :=
    texts_eq hp (hc.node_of_kind hk) hs
  rw [readImport, readImport, ← hc.kind_eq]
  split
  · next hk => rw [htext (by simp [Node.isSpelled, hk]) (by rw [hk]; decide)]
  · rfl
  · next hk => rw [htext (by simp [Node.isSpelled, Node.isName, hk]) (by rw [hk]; decide)]
  · next hk => rw [htext (by simp [Node.isSpelled, Node.isName, hk]) (by rw [hk]; decide)]
  · rfl

lemma importMoves_alike (hp : L.Beside own p p') (hn : L.node n n') :
    L.Moves own (importMoves p n) (importMoves p' n') := by
  have hcode (p : Place) (ns : List Node) (i : Import) :
      (Node.code ns).foldl (readImport p) i = ns.foldl (readImport p) i := by
    induction ns generalizing i with
    | nil => rfl
    | cons c ns ih =>
      rw [Node.code] at ih ⊢
      cases hc : c.isRemark with
      | true =>
        have hread : readImport p i c = i := by rw [readImport, kind_of_isRemark hc]
        rw [filter_cons_of_neg (by simp [hc]), ih, foldl_cons, hread]
      | false => rw [filter_cons_of_pos (by simp [hc]), foldl_cons, foldl_cons, ih]
  have hfound : n.children.foldl (readImport p) ⟨"", false, false⟩ =
      n'.children.foldl (readImport p') ⟨"", false, false⟩ := by
    have hs := Parts.children hn
    rw [← hcode p n.children, ← hcode p' n'.children]
    rw [Likeness.Parts] at hs
    generalize (⟨"", false, false⟩ : Import) = i
    generalize Node.code n.children = cs, Node.code n'.children = cs' at hs
    induction hs generalizing i with
    | nil => rfl
    | cons hc _ ih => rw [foldl_cons, foldl_cons, readImport_eq hp hc, ih]
  rw [importMoves, importMoves, hfound]
  split
  · exact .nil
  · exact .cons rfl rfl (.imported _) .nil

lemma anyKind_eq (hs : L.Parts n ns ns') (k : Kind) (hk : k ≠ .comment) :
    ns.any (·.kind == k) = ns'.any (·.kind == k) := by
  have hcode (ns : List Node) : (Node.code ns).any (·.kind == k) = ns.any (·.kind == k) := by
    induction ns with
    | nil => rfl
    | cons c ns ih =>
      rw [Node.code] at ih ⊢
      cases hc : c.isRemark with
      | true =>
        have hck : (c.kind == k) = false := by
          rw [kind_of_isRemark hc]
          simpa using Ne.symm hk
        rw [filter_cons_of_neg (by simp [hc]), ih, any_cons, hck, Bool.false_or]
      | false => rw [filter_cons_of_pos (by simp [hc]), any_cons, any_cons, ih]
  rw [← hcode ns, ← hcode ns']
  rw [Likeness.Parts] at hs
  generalize Node.code ns = cs, Node.code ns' = cs' at hs
  induction hs with
  | nil => rfl
  | cons hc _ ih => rw [any_cons, any_cons, ih, hc.kind_eq]

lemma flatMap_rel {α : Type} {R : α → α → Prop} {f f' : Node → List α} (hs : L.Parts n ns ns')
    (hr : ∀ c, c.isRemark = true → f c = []) (hr' : ∀ c, c.isRemark = true → f' c = [])
    (hf : ∀ {c c'}, L.Part n c c' → Forall₂ R (f c) (f' c')) :
    Forall₂ R (ns.flatMap f) (ns'.flatMap f') := by
  have hcode {f : Node → List α} (hr : ∀ c, c.isRemark = true → f c = []) (ns : List Node) :
      (Node.code ns).flatMap f = ns.flatMap f := by
    induction ns with
    | nil => rfl
    | cons c ns ih =>
      rw [Node.code] at ih ⊢
      cases hc : c.isRemark with
      | true => rw [filter_cons_of_neg (by simp [hc]), ih, flatMap_cons, hr c hc, nil_append]
      | false => rw [filter_cons_of_pos (by simp [hc]), flatMap_cons, flatMap_cons, ih]
  rw [← hcode hr, ← hcode hr']
  exact rel_flatMap hs fun _ _ hc => hf hc

lemma writtenSupers_rel (hp : L.Beside own p p') (hn : L.node n n') :
    Forall₂ L.written (writtenSupers p n) (writtenSupers p' n') := by
  have heirs (p : Place) (n : Node) : writtenSupers p n = n.named.flatMap (heirTexts p.text) := rfl
  have hr (p : Place) (c : Node) (hc : c.isRemark = true) : heirTexts p.text c = [] := by
    rw [heirTexts, kind_of_isRemark hc]
  rw [heirs, heirs]
  refine flatMap_rel (Parts.named hn) (hr p) (hr p') fun {c c'} hcc => ?_
  rw [hp.text_eq, hp.text_eq']
  rcases hcc with hcc | hcc
  · exact (L.alike hcc).super_texts
  · have hgap := L.gap_at hcc
    have hnone (text : Node → String) {c : Node} (hk : c.kind ∈ scopeKinds) :
        heirTexts text c = [] := by
      rw [heirTexts]
      split
      · next h => rw [h] at hk; exact absurd hk (by decide)
      · next h => rw [h] at hk; exact absurd hk (by decide)
      · next h => rw [h] at hk; exact absurd hk (by decide)
      · rfl
    rw [hnone _ hgap.kind_mem, hnone _ (hgap.kind_eq ▸ hgap.kind_mem)]
    exact .nil

lemma implicitSuper?_eq (hn : L.node n n') : implicitSuper? n = implicitSuper? n' := by
  rw [implicitSuper?, implicitSuper?, (L.alike hn).kind_eq,
    anyKind_eq (Parts.named hn) .superclass (by decide)]

lemma signatureOf_eq (hp : L.Beside own p p') (hn : L.node n n') :
    signatureOf p n = signatureOf p' n' := by
  rw [signatureOf, signatureOf]
  rcases child hn .parameters (by decide) with ⟨hc, hc'⟩ | ⟨m, m', hc, hc', hm⟩
  · rw [hc, hc']
  · rw [hc, hc']
    dsimp only
    rw [anyKind_eq (Parts.named hm) .spreadParameter (by decide)]
    refine congrArg (·, _) (Eq.mp (by rw [forall₂_eq_eq_eq]) (flatMap_rel (R := Eq) (Parts.named hm)
      (fun c hc => ?_) (fun c hc => ?_) fun {c c'} hcc => ?_))
    · rw [kind_of_isRemark hc]
    · rw [kind_of_isRemark hc]
    · rw [forall₂_eq_eq_eq, ← hcc.kind_eq]
      split
      · next hk =>
        have hnode := hcc.node_of_kind (by rw [hk]; decide)
        rcases child hnode .type (by decide) with ⟨ht, ht'⟩ | ⟨t, t', ht, ht', -⟩
        · rw [ht, ht']
        · rw [ht, ht', hp.text_eq, hp.text_eq']
          exact congrArg ([·]) ((L.alike hnode).parameter_eq hk t t' ht ht')
      · next hk =>
        have hnode := hcc.node_of_kind (by rw [hk]; decide)
        rw [hp.text_eq, hp.text_eq']
        exact congrArg Option.toList ((L.alike hnode).spread_eq hk)
      · rfl

variable {package package' : String}

lemma typeIdIn_eq (hp : L.Beside own p p') (hk : package = package') {name name' : String}
    (hname : name = name') : typeIdIn p package name = typeIdIn p' package' name' := by
  rw [typeIdIn, typeIdIn, hp.typeId?_eq, hk, hname]

lemma typeIdIn_legible (hp : L.Beside own p p') (hl : package = "" ∨ L.legible package)
    {name : String} (hname : L.legible name) : L.legible (typeIdIn p package name) := by
  rw [typeIdIn]
  split
  · next outer ho => exact L.legible_append (legible_of_typeId? hp ho) hname
  · split
    · exact hname
    · next hempty =>
      rcases hl with hnil | hl
      · exact absurd (by rw [hnil]; rfl) hempty
      · exact L.legible_append hl hname

end Headers

section Declarations

variable {first first' : Nat}

lemma componentPart_eq_nil (hk : c.kind ≠ .formalParameter) (p : Place) (n : Node)
    (typeId : String) : componentPart p n typeId c = [] := by
  rw [componentPart]
  split
  · next h _ _ => exact absurd h hk
  · rfl

lemma componentMoves_alike (hp : L.Beside own p p') (hn : L.node n n') {typeId : String}
    (hid : p.typeId? = some typeId) :
    L.Moves own (componentMoves p n typeId) (componentMoves p' n' typeId) := by
  have hr (p : Place) (n c : Node) (hc : c.isRemark = true) :
      (componentPart p n typeId c).filter (!·.isRemark) = [] := by
    rw [componentPart_eq_nil (by rw [kind_of_isRemark hc]; decide), filter_nil]
  refine .flatMap (Parts.named hn) (hr p n) (hr p' n') fun {c c'} hcc => ?_
  by_cases hk : c.kind = .formalParameter
  · have hnode := hcc.node_of_kind (by rw [hk]; decide)
    have hq := (hp.inside hn).inside hnode
    have htype := typeText hp hnode
    rw [componentPart, componentPart, ← hcc.kind_eq, hk]
    rcases child hnode .name (by decide) with ⟨hm, hm'⟩ | ⟨m, m', hm, hm', hmm⟩
    · rw [hm, hm']
      exact .nil
    · rcases child hnode .type (by decide) with ⟨ht, ht'⟩ | ⟨t, t', ht, ht', htt⟩
      · rw [hm, hm', ht, ht']
        exact .nil
      · have hword := isName_of_child? hm
        have htext := texts_eq hp hmm (isSpelled_of_isName hword)
        rw [ht, ht'] at htype
        rw [hm, hm', ht, ht']
        dsimp only
        rw [← htext]
        refine .cons rfl rfl (.component ?_ hq htt) .nil
        exact declared_member hp hnode hmm hword hid String.append_empty.symm (.inl ⟨rfl, rfl⟩) htype
  · rw [componentPart_eq_nil hk, componentPart_eq_nil (hcc.kind_eq ▸ hk)]
    exact .nil

lemma typeMoves_alike (hp : L.Beside own p p') (hn : L.node n n') {package package' : String}
    (hf : Declares (typeMoves p n first package) → own first first')
    (hk : package = package') (hl : package = "" ∨ L.legible package)
    (ht : isTypeDeclaration n = true) :
    L.Moves own (typeMoves p n first package) (typeMoves p' n' first' package') := by
  have hb (c : Node) : isBody n c = false := by
    have hkind := List.contains_iff_mem.mp ht
    exact isBody_of_kind ((by decide : ∀ k ∈ typeKinds, k ≠ .objectCreation) _ hkind)
      ((by decide : ∀ k ∈ typeKinds, k ≠ .enumConstant) _ hkind) c
  rw [typeMoves] at hf
  rw [typeMoves, typeMoves]
  rcases child hn .name (by decide) with ⟨hm, hm'⟩ | ⟨m, m', hm, hm', hmm⟩
  · rw [hm, hm']
    exact childMoves_alike hp hn hb
  · have hword := isSpelled_of_child? hm (.inl rfl)
    have htext := texts_eq hp hmm hword
    rw [hm] at hf
    have hown := hf ⟨_, _, rfl⟩
    have hid := typeIdIn_legible hp hl (legible_name_of_child? hp hm hmm)
    rw [hm, hm']
    dsimp only
    rw [← typeIdIn_eq hp hk htext]
    generalize typeIdIn p package (p.text m) = id at hid
    have hq := hp.inType hn hid hown
    refine .cons rfl rfl (.declare ?_) (.flatMap (Parts.named hn) (fun c hc => ?_) (fun c hc => ?_)
      fun {c c'} hcc => ?_)
    · rw [typeDeclaration, typeDeclaration, ← implicitSuper?_eq hn, ← (L.alike hn).kind_eq]
      refine declared hp hn hmm hword .none ?_ (fun _ => hid) fun hk => ?_
      · exact rel_append (forall₂_same.mpr fun a _ => L.written_refl a) (writtenSupers_rel hp hn)
      · exact absurd (typeKind_isType n.kind) (by simp [hk])
    · simp [typePart, kind_of_isRemark hc, Move.isRemark]
    · simp [typePart, kind_of_isRemark hc, Move.isRemark]
    · rw [typePart, typePart, ← hcc.kind_eq, ← (L.alike hn).kind_eq]
      split
      · exact .nil
      · next hk =>
        split
        · have hnode := hcc.node_of_kind (by rw [hk]; decide)
          exact componentMoves_alike hq hnode (by simp [Place.typeId?, Place.inType])
        · exact .visit hq hcc (hb c)
      · exact .visit hq hcc (hb c)

lemma methodMoves_alike (hp : L.Beside own p p') (hn : L.node n n')
    (hf : Declares (methodMoves p n first) → own first first') (hb : ∀ c, isBody n c = false) :
    L.Moves own (methodMoves p n first) (methodMoves p' n' first') := by
  have hother := namedMoves_alike hp hn (· != .identifier) hb
  rw [methodMoves] at hf
  rw [methodMoves, methodMoves, ← hp.typeId?_eq, ← hp.anonymous_eq]
  rcases child hn .name (by decide) with ⟨hm, hm'⟩ | ⟨m, m', hm, hm', hmm⟩
  · rw [hm, hm']
    cases p.typeId? <;> exact hother
  · rw [hm] at hf
    rw [hm, hm']
    cases hid : p.typeId? with
    | none => exact hother
    | some typeId =>
      cases hz : p.anonymous with
      | succ k => exact hother
      | zero =>
        have hword := isName_of_child? hm
        have htext := texts_eq hp hmm (isSpelled_of_isName hword)
        rw [hid, hz] at hf
        have hown := hf ⟨_, _, rfl⟩
        have hkind : (methodKind n).isMethod = true := by
          rw [methodKind]
          split <;> rfl
        refine .cons rfl rfl (.declare ?_)
          (namedMoves_alike (hp.withOwner hown) hn (· != .identifier) hb)
        rw [methodDeclaration, methodDeclaration, ← signatureOf_eq hp hn, ← htext]
        have hkinds : methodKind n = methodKind n' := by rw [methodKind, methodKind, (L.alike hn).kind_eq]
        rw [← hkinds]
        refine declared_member hp hn hmm hword hid ?_
          (.inr ⟨hkind, joinWith "," (signatureOf p n).1, rfl⟩) (typeText hp hn)
        simp only [String.append_assoc]

lemma constantMoves_alike (hp : L.Beside own p p') (hn : L.node n n')
    (hf : Declares (constantMoves p n first) → own first first') (hk : n.kind = .enumConstant) :
    L.Moves own (constantMoves p n first) (constantMoves p' n' first') := by
  rw [constantMoves] at hf
  rw [constantMoves, constantMoves, ← hp.typeId?_eq]
  rcases child hn .name (by decide) with ⟨hm, hm'⟩ | ⟨m, m', hm, hm', hmm⟩
  · rw [hm, hm']
    cases p.typeId? <;> exact .nil
  · rw [hm, hm']
    cases hid : p.typeId? with
    | none => exact .nil
    | some typeId =>
      have hword := isName_of_child? hm
      have htext := texts_eq hp hmm (isSpelled_of_isName hword)
      rw [hid, hm] at hf
      have hq := (hp.withOwner (hf ⟨_, _, rfl⟩)).inside hn
      refine .cons rfl rfl (.declare ?_) (.flatMap (Parts.named hn) (fun c hc => ?_) (fun c hc => ?_)
        fun {c c'} hcc => ?_)
      · rw [constantDeclaration, constantDeclaration, ← htext]
        exact declared_member hp hn hmm hword hid String.append_empty.symm (.inl ⟨rfl, rfl⟩)
          (.some (L.written_refl _))
      · simp [constantPart, kind_of_isRemark hc, Move.isRemark]
      · simp [constantPart, kind_of_isRemark hc, Move.isRemark]
      · rw [constantPart, constantPart, ← hcc.kind_eq]
        split
        · exact .nil
        · next hbody => exact .body hq hcc hbody
        · next hc => exact .visit hq hcc (by simpa [isBody, hk] using hc)

end Declarations

section Fields

lemma declarators_rel (hn : L.node n n') : Forall₂ L.node (declarators n) (declarators n') := by
  have hs : L.Parts n (declarators n) (declarators n') :=
    (Parts.named hn).filter (· == .variableDeclarator)
  have hkind {n c : Node} (hc : c ∈ declarators n) : c.kind = .variableDeclarator := by
    simpa using (mem_filter.mp hc).2
  have hcode (n : Node) : Node.code (declarators n) = declarators n := by
    refine filter_eq_self.mpr fun c hc => ?_
    simp [Node.isRemark, hkind hc]
  rw [Likeness.Parts, hcode, hcode] at hs
  refine ((forall₂_and_left _ _).mpr ⟨fun c hc => hkind hc, hs⟩).imp fun c c' hcc => ?_
  exact hcc.2.node_of_kind (by rw [hcc.1]; decide)

lemma declaredNames_rel (hn : L.node n n') :
    Forall₂ (fun m m' => L.node m m' ∧ m.isName = true) (declaredNames n) (declaredNames n') := by
  refine rel_filterMap (fun c c' hcc => ?_) (declarators_rel hn)
  rcases child hcc .name (by decide) with ⟨hm, hm'⟩ | ⟨m, m', hm, hm', hmm⟩
  · rw [hm, hm']
    exact .none
  · rw [hm, hm']
    exact .some ⟨hmm, isName_of_child? hm⟩

lemma fieldHead_alike (hp : L.Beside own p p') (hn : L.node n n') (hc : L.node c c')
    (hs : c.isName = true) : L.Moves own [fieldHead p n c] [fieldHead p' n' c'] := by
  have htext := texts_eq hp hc (isSpelled_of_isName hs)
  have hbind : L.Moves own [.bind (p.text c) (.variable ((n.child? .type).map p.text))]
      [.bind (p'.text c') (.variable ((n'.child? .type).map p'.text))] := by
    rw [← htext]
    exact .cons rfl rfl (.bind _ (.variable (typeText hp hn))) .nil
  rw [fieldHead, fieldHead, ← hp.typeId?_eq, ← hp.anonymous_eq]
  cases hid : p.typeId? with
  | none => exact hbind
  | some typeId =>
    cases p.anonymous with
    | succ k => exact hbind
    | zero =>
      refine .cons rfl rfl (.declare ?_) .nil
      rw [fieldDeclaration, fieldDeclaration, ← htext]
      exact declared_member hp hn hc hs hid String.append_empty.symm (.inl ⟨rfl, rfl⟩)
        (typeText hp hn)

lemma fieldMoves_alike (hp : L.Beside own p p') (hn : L.node n n')
    (hf : Declares (fieldMoves p n first) → own first first') (hb : ∀ c, isBody n c = false) :
    L.Moves own (fieldMoves p n first) (fieldMoves p' n' first') := by
  have hnames := declaredNames_rel hn
  have hq : L.Beside own (fieldPlace p n first) (fieldPlace p' n' first') := by
    have hempty : (declaredNames n).isEmpty = (declaredNames n').isEmpty := by
      rw [Bool.eq_iff_iff, isEmpty_iff_length_eq_zero, isEmpty_iff_length_eq_zero, hnames.length_eq]
    rw [fieldPlace, fieldPlace, ← hp.typeId?_eq, ← hp.anonymous_eq, ← hempty]
    split
    · next hdeclares =>
      simp only [Bool.and_eq_true, beq_iff_eq, Bool.not_eq_true', isEmpty_eq_false_iff] at hdeclares
      obtain ⟨⟨htype, hz⟩, hne⟩ := hdeclares
      obtain ⟨typeId, hid⟩ := Option.isSome_iff_exists.mp htype
      obtain ⟨name, names, hnames⟩ := exists_cons_of_ne_nil hne
      refine hp.withOwner (hf ?_)
      rw [fieldMoves, hnames, map_cons, fieldHead, hid, hz]
      exact ⟨_, _, rfl⟩
    · exact hp
  rw [fieldMoves, fieldMoves]
  refine .append (.append ?_ (namedMoves_alike hq hn (· != .variableDeclarator) hb)) ?_
  · generalize declaredNames n = ms, declaredNames n' = ms' at hnames
    induction hnames with
    | nil => exact .nil
    | cons hm _ ih => exact .append (fieldHead_alike hp hn hm.1 hm.2) ih
  · have hds := declarators_rel hn
    generalize hms : declarators n = ms at hds
    have hkind : ∀ c ∈ ms, c.kind = .variableDeclarator := fun c hc => by
      rw [← hms] at hc
      simpa using (mem_filter.mp hc).2
    clear hms
    generalize declarators n' = ms' at hds
    induction hds with
    | nil => exact .nil
    | @cons c c' ms ms' hcc _ ih =>
      have hk := hkind c mem_cons_self
      rw [flatMap_cons, flatMap_cons]
      refine .append ?_ (ih fun c hc => hkind c (mem_cons_of_mem _ hc))
      exact slotMoves_alike (hq.inside hn) hcc .value fun b =>
        isBody_of_kind (by simp [hk]) (by simp [hk]) b

end Fields

section Locals

lemma createdType?_rel (hp : L.Beside own p p') (hc : L.node c c') :
    Option.Rel L.written (createdType? p c) (createdType? p' c') := by
  rw [createdType?, createdType?]
  rcases slot_part hc .value with ⟨hv, hv'⟩ | ⟨v, v', hv, hv', hvv⟩
  · rw [hv, hv']
    exact .none
  · rw [hv, hv']
    dsimp only
    rw [← hvv.kind_eq]
    split
    · next hk => exact typeText hp (hvv.node_of_kind (by rw [eq_of_beq hk]; decide))
    · exact .none

lemma localType_rel (hp : L.Beside own p p') (hc : L.node c c') {w w' : Option String}
    (hw : Option.Rel L.written w w') :
    Option.Rel L.written (localType p c w) (localType p' c' w') := by
  have hvar : (w == some "var") = (w' == some "var") := by
    cases hw with
    | none => rfl
    | some hw =>
      rw [Bool.eq_iff_iff]
      simpa using L.written_var hw
  rw [localType, localType, ← hvar]
  split
  · exact createdType?_rel hp hc
  · exact hw

lemma localParts_code (p : Place) (n : Node) (w : Option String) (ns : List Node) :
    (localParts p n w (Node.code ns)).filter (!·.isRemark) =
      (localParts p n w ns).filter (!·.isRemark) := by
  induction ns generalizing w with
  | nil => rfl
  | cons c ns ih =>
    rw [Node.code] at ih ⊢
    cases hc : c.isRemark with
    | true =>
      rw [filter_cons_of_neg (by simp [hc]), ih]
      simp [localParts, kind_of_isRemark hc, Move.isRemark]
    | false =>
      rw [filter_cons_of_pos (by simp [hc]), localParts, localParts]
      split
      · rw [filter_append, filter_append, ih]
      · rw [filter_cons, filter_cons, ih]

lemma localMoves_alike (hp : L.Beside own p p') (hn : L.node n n') (hb : ∀ c, isBody n c = false) :
    L.Moves own (localMoves p n) (localMoves p' n') := by
  have hs := Parts.named hn
  have hw := typeText hp hn
  rw [localMoves, localMoves, Moves, ← localParts_code, ← localParts_code p']
  rw [Likeness.Parts] at hs
  generalize (n.child? .type).map p.text = w, (n'.child? .type).map p'.text = w' at hw
  generalize Node.code n.named = cs, Node.code n'.named = cs' at hs
  change L.Moves own _ _
  induction hs generalizing w w' with
  | nil => exact .nil
  | @cons c c' cs cs' hcc _ ih =>
    rw [localParts, localParts, ← hcc.kind_eq]
    split
    · next hk =>
      have hk := eq_of_beq hk
      have hnode := hcc.node_of_kind (by rw [hk]; decide)
      have hl := localType_rel hp hnode hw
      refine .append (.append ?_ (bindMoves_alike hp (named_child hnode) hl)) (ih _ _ hl)
      exact slotMoves_alike (hp.inside hn) hnode .value fun b =>
        isBody_of_kind (by simp [hk]) (by simp [hk]) b
    · exact .append (.visit (hp.inside hn) hcc (hb c)) (ih _ _ hw)

lemma parameterType?_rel (hp : L.Beside own p p') (hn : L.node n n') :
    Option.Rel L.written ((parameterType? n).map p.text) ((parameterType? n').map p'.text) := by
  rw [parameterType?, parameterType?, ← (L.alike hn).kind_eq]
  split
  · rcases (Parts.children hn).ofKind (· == .catchType) rfl with
      ⟨hc, hc'⟩ | ⟨c, c', hc, hc', hcc⟩
    · rw [Node.firstOf?, Node.firstOf?, hc, hc']
      exact .none
    · have hk : c.kind = .catchType := by simpa using List.find?_some hc
      rw [Node.firstOf?, Node.firstOf?, hc, hc', hp.text_eq, hp.text_eq']
      exact (L.alike (hcc.node_of_kind (by rw [hk]; decide))).caught_text hk
  · next hk =>
    rw [hp.text_eq, hp.text_eq']
    exact (L.alike hn).spread_text hk
  · exact typeText hp hn

lemma parameterName?_rel (hn : L.node n n') :
    parameterName? n = none ∧ parameterName? n' = none ∨ ∃ m m', parameterName? n = some m ∧
      parameterName? n' = some m' ∧ L.node m m' ∧ m.isSpelled = true := by
  rw [parameterName?, parameterName?, ← (L.alike hn).kind_eq]
  split
  · rw [Node.firstOf?, Node.firstOf?]
    rcases (Parts.children hn).ofKind (· == .variableDeclarator) rfl with
      ⟨hc, hc'⟩ | ⟨c, c', hc, hc', hcc⟩
    · rw [hc, hc']
      exact .inl ⟨rfl, rfl⟩
    · have hk : c.kind = .variableDeclarator := by simpa using List.find?_some hc
      rw [hc, hc']
      exact named_child (hcc.node_of_kind (by rw [hk]; decide))
  · exact named_child hn

lemma parameterMoves_alike (hp : L.Beside own p p') (hn : L.node n n')
    (hb : ∀ c, isBody n c = false) : L.Moves own (parameterMoves p n) (parameterMoves p' n') :=
  .append (namedMoves_alike hp hn (fun k => k != .identifier && k != .variableDeclarator) hb)
    (bindMoves_alike hp (parameterName?_rel hn) (parameterType?_rel hp hn))

lemma resourceMoves_alike (hp : L.Beside own p p') (hn : L.node n n')
    (hb : ∀ c, isBody n c = false) : L.Moves own (resourceMoves p n) (resourceMoves p' n') := by
  have hbind := bindMoves_alike hp (named_child hn) (typeText hp hn)
  rw [resourceMoves, resourceMoves]
  rw [bindMoves, bindMoves] at hbind
  rcases child hn .name (by decide) with ⟨hm, hm'⟩ | ⟨m, m', hm, hm', hmm⟩
  · rw [hm, hm']
    exact childMoves_alike hp hn hb
  · rw [hm, hm'] at hbind ⊢
    exact .append (.append (slotMoves_alike hp hn .type hb) (slotMoves_alike hp hn .value hb)) hbind

lemma lambdaMoves_alike (hp : L.Beside own p p') (hn : L.node n n')
    (hb : ∀ c, isBody n c = false) : L.Moves own (lambdaMoves p n) (lambdaMoves p' n') := by
  refine .append ?_ (slotMoves_alike hp hn .body hb)
  rw [lambdaHeads, lambdaHeads]
  rcases child hn .parameters (by decide) with ⟨hc, hc'⟩ | ⟨c, c', hc, hc', hcc⟩
  · rw [hc, hc']
    exact .nil
  · rw [hc, hc']
    dsimp only
    rw [← (L.alike hcc).kind_eq]
    split
    · next hk =>
      rw [← texts_eq hp hcc (by simp [Node.isSpelled, Node.isName, hk])]
      exact .cons rfl rfl (.bind _ (.variable .none)) .nil
    · next hk =>
      have htexts := (L.alike hcc).inferred_eq hk
      rw [← hp.text_eq, ← hp.text_eq'] at htexts
      have hnames (p : Place) (c : Node) :
          (c.named.map fun c => Move.bind (p.text c) (.variable none)) =
            (c.named.map p.text).map fun name => Move.bind name (.variable none) := by
        rw [map_map]
        rfl
      rw [hnames, hnames, ← htexts]
      generalize c.named.map p.text = names
      induction names with
      | nil => exact .nil
      | cons name names ih => exact .cons rfl rfl (.bind name (.variable .none)) ih
    · exact .visit (hp.inside hn) (.inl hcc) (hb c)

lemma enhancedForMoves_alike (hp : L.Beside own p p') (hn : L.node n n')
    (hb : ∀ c, isBody n c = false) : L.Moves own (enhancedForMoves p n) (enhancedForMoves p' n') :=
  .append (.append (.append (slotMoves_alike hp hn .type hb) (slotMoves_alike hp hn .value hb))
    (bindMoves_alike hp (named_child hn) (typeText hp hn))) (slotMoves_alike hp hn .body hb)

lemma instanceTestMoves_alike (hp : L.Beside own p p') (hn : L.node n n')
    (hk : n.kind = .instanceTest) (hb : ∀ c, isBody n c = false) :
    L.Moves own (instanceTestMoves p n) (instanceTestMoves p' n') := by
  refine .append (.append (.append (slotMoves_alike hp hn .left hb) (slotMoves_alike hp hn .right hb))
    (slotMoves_alike hp hn .pattern hb)) ?_
  rw [testedName, testedName]
  rcases child hn .name (by decide) with ⟨hm, hm'⟩ | ⟨m, m', hm, hm', hmm⟩
  · rw [hm, hm']
    exact .nil
  · rcases slot_part hn .right with ⟨ht, ht'⟩ | ⟨t, t', ht, ht', -⟩
    · rw [hm, hm', ht, ht']
      exact .nil
    · have htext := (L.alike hn).test_text hk t t' ht ht'
      rw [← hp.text_eq, ← hp.text_eq'] at htext
      rw [hm, hm', ht, ht']
      dsimp only
      rw [← child_text_eq hp hm hmm (.inl rfl)]
      exact .cons rfl rfl (.bind _ (.variable (.some htext))) .nil

lemma typeParameterMoves_alike (hp : L.Beside own p p') (hn : L.node n n')
    (hb : ∀ c, isBody n c = false) :
    L.Moves own (typeParameterMoves p n) (typeParameterMoves p' n') := by
  refine .append ?_ (namedMoves_alike hp hn (· == .typeBound) hb)
  rw [Node.firstOf?, Node.firstOf?]
  rcases (Parts.children hn).ofKind (· == .typeIdentifier) rfl with
    ⟨hc, hc'⟩ | ⟨c, c', hc, hc', hcc⟩
  · rw [hc, hc']
    exact .nil
  · have hk : c.kind = .typeIdentifier := by simpa using List.find?_some hc
    rw [hc, hc', Option.map_some, Option.map_some,
      ← texts_eq hp (hcc.node_of_kind (by rw [hk]; decide)) (by simp [Node.isSpelled, hk])]
    exact .cons rfl rfl (.bind _ .typeParameter) .nil

end Locals

section Mentions

lemma creationMoves_alike (hp : L.Beside own p p') (hn : L.node n n')
    (hk : n.kind = .objectCreation) : L.Moves own (creationMoves p n) (creationMoves p' n') := by
  have hq := hp.inside hn
  refine .append ?_ (.map (Parts.named hn) (fun c hc => ?_) (fun c hc => ?_) fun {c c'} hcc => ?_)
  · rcases child hn .type (by decide) with ⟨ht, ht'⟩ | ⟨t, t', ht, ht', htt⟩
    · rw [ht, ht']
      exact .nil
    · rw [ht, ht', Option.map_some, Option.map_some, ← erased_type hp hn ht ht',
        ← argumentCount_eq hn]
      exact .cons rfl rfl (.mention hp (shown_anchor htt (.inl (Node.slot?_of_child? ht))) fun _ _ _ => rfl) .nil
  · simp [creationPart, kind_of_isRemark hc, Move.isRemark]
  · simp [creationPart, kind_of_isRemark hc, Move.isRemark]
  · rw [creationPart, creationPart, ← hcc.kind_eq]
    split
    · next hbody => exact .body hq hcc (eq_of_beq hbody)
    · next hc => exact .visit hq hcc (by simpa [isBody, hk] using hc)

lemma constructorCallMoves_alike (hp : L.Beside own p p') (hn : L.node n n')
    (hb : ∀ c, isBody n c = false) :
    L.Moves own (constructorCallMoves p n) (constructorCallMoves p' n') := by
  refine .append (.append ?_ (slotMoves_alike hp hn .object hb)) (slotMoves_alike hp hn .arguments hb)
  rw [calledConstructor, calledConstructor, ← hp.typeId?_eq]
  rcases slot_part hn .constructor with ⟨hc, hc'⟩ | ⟨c, c', hc, hc', hcc⟩
  · rw [hc, hc']
    exact .nil
  · rw [hc, hc']
    cases p.typeId? with
    | none => exact .nil
    | some typeId =>
      dsimp only
      rw [← hcc.kind_eq, ← argumentCount_eq hn]
      split
      · next hk =>
        have hnode := hcc.node_of_kind (by rw [eq_of_beq hk]; decide)
        exact .cons rfl rfl (.mention hp (shown hnode (.inr (eq_of_beq hk))) fun _ _ _ => rfl) .nil
      · exact .nil

lemma invocationMoves_alike (hp : L.Beside own p p') (hn : L.node n n')
    (hb : ∀ c, isBody n c = false) :
    L.Moves own (invocationMoves p n) (invocationMoves p' n') := by
  refine .append (.append (.append ?_ (slotMoves_alike hp hn .object hb))
    (slotMoves_alike hp hn .typeArguments hb)) (slotMoves_alike hp hn .arguments hb)
  rcases child hn .name (by decide) with ⟨hm, hm'⟩ | ⟨m, m', hm, hm', hmm⟩
  · rw [hm, hm']
    exact .nil
  · have hword := isSpelled_of_child? hm (.inl rfl)
    rw [hm, hm', Option.map_some, Option.map_some, ← texts_eq hp hmm hword, ← argumentCount_eq hn]
    refine .cons rfl rfl (.mention hp (shown hmm (.inl hword)) fun g g' hg => ?_) .nil
    rw [receiverOf_child_eq hp hg hn]

lemma fieldAccessMoves_alike (hp : L.Beside own p p') (hn : L.node n n')
    (hb : ∀ c, isBody n c = false) :
    L.Moves own (fieldAccessMoves p n) (fieldAccessMoves p' n') := by
  refine .append ?_ (slotMoves_alike hp hn .object hb)
  rcases child hn .field (by decide) with ⟨hm, hm'⟩ | ⟨m, m', hm, hm', hmm⟩
  · rw [hm, hm']
    exact .nil
  · have hword := isSpelled_of_child? hm (.inr (.inl rfl))
    rw [hm, hm', Option.map_some, Option.map_some, ← texts_eq hp hmm hword, ← accessRole_eq hp hn]
    refine .cons rfl rfl (.mention hp (shown hmm (.inl hword)) fun g g' hg => ?_) .nil
    rw [receiverOf_child_eq hp hg hn]

lemma annotationMoves_alike (hp : L.Beside own p p') (hn : L.node n n')
    (hb : ∀ c, isBody n c = false) :
    L.Moves own (annotationMoves p n) (annotationMoves p' n') := by
  refine .append ?_ (slotMoves_alike hp hn .arguments hb)
  rcases child hn .name (by decide) with ⟨hm, hm'⟩ | ⟨m, m', hm, hm', hmm⟩
  · rw [hm, hm']
    exact .nil
  · have hword := isSpelled_of_child? hm (.inl rfl)
    rw [hm, hm', Option.map_some, Option.map_some, ← texts_eq hp hmm hword]
    refine .cons rfl rfl (.mention hp ?_ fun _ _ _ => rfl) .nil
    rw [annotationAnchor, annotationAnchor, ← (L.alike hmm).kind_eq]
    split
    · rcases named_child hmm with ⟨hc, hc'⟩ | ⟨c, c', hc, hc', hcc, hs⟩
      · rw [hc, hc']
        exact shown hmm (.inl hword)
      · rw [hc, hc']
        exact shown hcc (.inl hs)
    · exact shown hmm (.inl hword)

lemma identifierMoves_alike (hp : L.Beside own p p') (hn : L.node n n')
    (hk : n.kind = .identifier) : L.Moves own (identifierMoves p n) (identifierMoves p' n') := by
  have hword : n.isSpelled = true := by simp [Node.isSpelled, Node.isName, hk]
  rw [identifierMoves, identifierMoves, ← hp.isNaming_eq hn, ← accessRole_eq hp hn]
  split
  · exact .nil
  · refine .cons rfl rfl (.mention hp (shown hn (.inl hword)) fun g g' hg => ?_) .nil
    rw [← texts_eq hp hn hword, hg.local?_isSome_eq]

lemma typeIdentifierMoves_alike (hp : L.Beside own p p') (hn : L.node n n')
    (hk : n.kind = .typeIdentifier) :
    L.Moves own (typeIdentifierMoves p n) (typeIdentifierMoves p' n') := by
  have hword : n.isSpelled = true := by simp [Node.isSpelled, hk]
  rw [typeIdentifierMoves, typeIdentifierMoves, ← hp.parentKind?_eq, ← Beside.typeRole_eq hp.trail hn]
  split
  · exact .nil
  · refine .cons rfl rfl (.mention hp (shown hn (.inl hword)) fun g g' hg => ?_) .nil
    rw [← texts_eq hp hn hword, hg.local?_typeParameter]

lemma scopedTypeMoves_alike (hp : L.Beside own p p') (hn : L.node n n')
    (hk : n.kind = .scopedType) : L.Moves own (scopedTypeMoves p n) (scopedTypeMoves p' n') := by
  have htext := (L.alike hn).erased_eq (by simp [hk])
  rw [← hp.text_eq, ← hp.text_eq'] at htext
  rw [scopedTypeMoves, scopedTypeMoves, ← hp.parentKind?_eq, ← Beside.typeRole_eq hp.trail hn, ← htext]
  split
  · exact .nil
  · refine .cons rfl rfl (.mention hp (shown_anchor hn (.inr hk)) fun _ _ _ => rfl) ?_
    refine .flatMap (Parts.named hn) (fun c hc => ?_) (fun c hc => ?_) fun {c c'} hcc => ?_
    · simp [qualifierPart, kind_of_isRemark hc]
    · simp [qualifierPart, kind_of_isRemark hc]
    · rw [qualifierPart, qualifierPart, ← hcc.kind_eq]
      split
      · next hc =>
        have hc := eq_of_beq hc
        exact namedMoves_alike (hp.inside hn) (hcc.node_of_kind (by rw [hc]; decide))
          (· == .typeArguments) (isBody_of_kind (by simp [hc]) (by simp [hc]))
      · exact .nil

lemma isMark_of_isRemark (hc : c.isRemark = true) (p : Place) (text : String) :
    isMark p text c = false := by
  rw [isMark, kind_of_isRemark hc]
  rfl

lemma isMark_eq (hp : L.Beside own p p') (hc : L.Part n c c') (text : String) :
    isMark p text c = isMark p' text c' := by
  rw [isMark, isMark, ← hc.kind_eq]
  by_cases hk : c.kind = .mark
  · rw [texts_eq hp (hc.node_of_kind (by rw [hk]; decide)) (by simp [Node.isSpelled, hk])]
  · rw [beq_eq_false_iff_ne.mpr hk]
    rfl

lemma isMember_eq (hp : L.Beside own p p') (hc : L.Part n c c') :
    isMember p c = isMember p' c' := by
  rw [isMember, isMember, isMark_eq hp hc, hc.kind_eq]

lemma referred?_cons (p : Place) (c : Node) (rest : List Node) :
    referred? p (c :: rest) =
      if isMark p "::" c then rest.find? (isMember p) else referred? p rest := by
  rw [referred?, dropWhile_cons]
  cases isMark p "::" c <;> rfl

lemma referred?_code (p : Place) (ns : List Node) : referred? p (Node.code ns) = referred? p ns := by
  have hr (c : Node) (hc : c.isRemark = true) : isMember p c = false := by
    rw [isMember, isMark_of_isRemark hc, kind_of_isRemark hc]
    rfl
  induction ns with
  | nil => rfl
  | cons c ns ih =>
    rw [referred?_cons, ← ih, ← find?_code hr ns]
    cases hc : c.isRemark with
    | true =>
      rw [isMark_of_isRemark hc, Node.code, filter_cons_of_neg (by simp [hc])]
      rfl
    | false => rw [Node.code, filter_cons_of_pos (by simp [hc]), referred?_cons, Node.code]

lemma referred?_rel (hp : L.Beside own p p') (hs : L.Parts n ns ns') :
    referred? p ns = none ∧ referred? p' ns' = none ∨ ∃ c c', referred? p ns = some c ∧
      referred? p' ns' = some c' ∧ L.node c c' ∧ c.isSpelled = true := by
  rw [← referred?_code p ns, ← referred?_code p' ns']
  rw [Likeness.Parts] at hs
  generalize Node.code ns = cs, Node.code ns' = cs' at hs
  induction hs with
  | nil => exact .inl ⟨rfl, rfl⟩
  | @cons c c' cs cs' hc hs ih =>
    rw [referred?_cons, referred?_cons, ← isMark_eq hp hc]
    split
    · rcases forall₂_find? (fun _ _ hc => isMember_eq hp hc) hs with hm | ⟨m, m', hm, hm', hmm⟩
      · exact .inl hm
      · have hk := List.find?_some hm
        simp only [isMember, isMark, Bool.or_eq_true, Bool.and_eq_true, beq_iff_eq] at hk
        refine .inr ⟨m, m', hm, hm', hmm.node_of_kind ?_, ?_⟩
        · rcases hk with hk | ⟨hk, -⟩ <;> rw [hk] <;> decide
        · rcases hk with hk | ⟨hk, -⟩ <;> simp [Node.isSpelled, Node.isName, hk]
    · exact ih

lemma qualifierOf_eq (hp : L.Beside own p p') {g g' : Gathered} (hg : L.Binds g g')
    (hc : L.Part n c c') : qualifierOf p g c = qualifierOf p' g' c' := by
  have herased (he : [Kind.typeIdentifier, .scopedType, .genericType, .arrayType].contains c.kind =
      true) (hk : c.kind ∉ scopeKinds) : eraseType (p.text c) = eraseType (p'.text c') := by
    rw [hp.text_eq, hp.text_eq']
    exact (L.alike (hc.node_of_kind hk)).erased_eq he
  rw [qualifierOf, qualifierOf, ← hc.kind_eq]
  split
  · next hk => rw [herased (by simp [hk]) (by rw [hk]; decide)]
  · next hk => rw [herased (by simp [hk]) (by rw [hk]; decide)]
  · next hk => rw [herased (by simp [hk]) (by rw [hk]; decide)]
  · next hk => rw [herased (by simp [hk]) (by rw [hk]; decide)]
  · exact receiverOf_eq hp hg hc

lemma methodReferenceMoves_alike (hp : L.Beside own p p') (hn : L.node n n')
    (hk : n.kind = .methodReference) (hb : ∀ c, isBody n c = false) :
    L.Moves own (methodReferenceMoves p n) (methodReferenceMoves p' n') := by
  rw [methodReferenceMoves, methodReferenceMoves]
  rcases (L.alike hn).qualifier hk with ⟨hc, hc'⟩ | ⟨q, q', rest, rest', hc, hc', hq, hrest⟩
  · rw [hc, hc']
    exact .nil
  · have hparts : L.Parts n rest rest' := hrest
    rw [hc, hc']
    refine .append ?_ (.append (.visit (hp.inside hn) hq (hb q))
      (.visits (hp.inside hn) (hparts.filter (· == .typeArguments)) hb))
    rcases referred?_rel hp hparts with ⟨hm, hm'⟩ | ⟨m, m', hm, hm', hmm, hs⟩
    · rw [hm, hm']
      exact .nil
    · rw [hm, hm', Option.map_some, Option.map_some, ← texts_eq hp hmm hs]
      refine .cons rfl rfl (.mention hp (shown hmm (.inl hs)) fun g g' hg => ?_) .nil
      rw [qualifierOf_eq hp hg hq]

end Mentions

/-- What is done at two nodes that are alike is alike. -/
lemma moves_alike {first first' : Nat} {package package' : String} (hp : L.Beside own p p')
    (hn : L.node n n') (hf : Declares (moves p n first package) → own first first')
    (hk : package = package') (hl : package = "" ∨ L.legible package) :
    L.Moves own (moves p n first package) (moves p' n' first' package') := by
  have hb (h : n.kind ≠ .objectCreation ∧ n.kind ≠ .enumConstant) (c : Node) :
      isBody n c = false := isBody_of_kind h.1 h.2 c
  rw [moves] at hf
  rw [moves, moves, ← (L.alike hn).kind_eq]
  split
  · exact .nil
  · exact packageMoves_alike hp hn
  · exact importMoves_alike hp hn
  · next h =>
    rw [h] at hf
    exact typeMoves_alike hp hn hf hk hl (by simp [isTypeDeclaration, typeKinds, h])
  · next h =>
    rw [h] at hf
    exact typeMoves_alike hp hn hf hk hl (by simp [isTypeDeclaration, typeKinds, h])
  · next h =>
    rw [h] at hf
    exact typeMoves_alike hp hn hf hk hl (by simp [isTypeDeclaration, typeKinds, h])
  · next h =>
    rw [h] at hf
    exact typeMoves_alike hp hn hf hk hl (by simp [isTypeDeclaration, typeKinds, h])
  · next h =>
    rw [h] at hf
    exact typeMoves_alike hp hn hf hk hl (by simp [isTypeDeclaration, typeKinds, h])
  · next h =>
    rw [h] at hf
    exact methodMoves_alike hp hn hf (hb (by simp [h]))
  · next h =>
    rw [h] at hf
    exact methodMoves_alike hp hn hf (hb (by simp [h]))
  · next h =>
    rw [h] at hf
    exact methodMoves_alike hp hn hf (hb (by simp [h]))
  · next h =>
    rw [h] at hf
    exact fieldMoves_alike hp hn hf (hb (by simp [h]))
  · next h =>
    rw [h] at hf
    exact fieldMoves_alike hp hn hf (hb (by simp [h]))
  · next h =>
    rw [h] at hf
    exact constantMoves_alike hp hn hf h
  · next h => exact lambdaMoves_alike hp hn (hb (by simp [h]))
  · next h => exact enhancedForMoves_alike hp hn (hb (by simp [h]))
  · next h => exact localMoves_alike hp hn (hb (by simp [h]))
  · next h => exact parameterMoves_alike hp hn (hb (by simp [h]))
  · next h => exact parameterMoves_alike hp hn (hb (by simp [h]))
  · next h => exact parameterMoves_alike hp hn (hb (by simp [h]))
  · next h => exact resourceMoves_alike hp hn (hb (by simp [h]))
  · next h => exact instanceTestMoves_alike hp hn h (hb (by simp [h]))
  · next h => exact typeParameterMoves_alike hp hn (hb (by simp [h]))
  · next h => exact creationMoves_alike hp hn h
  · next h => exact constructorCallMoves_alike hp hn (hb (by simp [h]))
  · next h => exact invocationMoves_alike hp hn (hb (by simp [h]))
  · next h => exact methodReferenceMoves_alike hp hn h (hb (by simp [h]))
  · next h => exact fieldAccessMoves_alike hp hn (hb (by simp [h]))
  · next h => exact annotationMoves_alike hp hn (hb (by simp [h]))
  · next h => exact annotationMoves_alike hp hn (hb (by simp [h]))
  · next h => exact slotMoves_alike hp hn .value (hb (by simp [h]))
  · next h => exact namedMoves_alike hp hn (· != .identifier) (hb (by simp [h]))
  · exact .nil
  · exact .nil
  · exact .nil
  · next h => exact identifierMoves_alike hp hn h
  · next h => exact typeIdentifierMoves_alike hp hn h
  · next h => exact scopedTypeMoves_alike hp hn h
  · exact childMoves_alike hp hn (hb ⟨‹_›, ‹_›⟩)

end Likeness

end JavaAtlas.Outline
