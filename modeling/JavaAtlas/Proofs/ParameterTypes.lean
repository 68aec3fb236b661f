import JavaAtlas.Proofs.PlacedMatches
import JavaAtlas.Proofs.TiledTrees

/-! Types of parameters. Wherever a parameter stands in a tree, its type begins with a word, and what
follows it there are names, type arguments, annotations, points and square brackets: commas stand
inside type arguments and annotations only. -/

namespace JavaAtlas.Syntax

open List Text

/-- Neither angle brackets nor commas. -/
def quiet (cs : List Char) : Bool := cs.all fun c => c != '<' && c != '>' && c != ','

/-- The node covers one token, without angle brackets and commas. -/
def Single (ts : List Token) (n : Node) : Prop :=
  ∃ t ∈ ts, quiet t.spelling.toList = true ∧ n.start = t.start ∧ n.stop = t.stop

/-- What may follow the first word of a type, apart from the dimensions of an array. -/
def TypePiece (ts : List Token) (n : Node) : Prop :=
  n.kind ∈ [Kind.typeIdentifier, .typeArguments] ++ annotationKinds ∨ Single ts n

def Dimensions (ts : List Token) (n : Node) : Prop :=
  n.kind = .dimensions ∧ ∀ c ∈ n.children, TypePiece ts c

/-- A type of one word, or one that has another type first. -/
inductive TypeTree (ts : List Token) : Node → Prop
  | word {n : Node} : n.kind ∈ [Kind.typeIdentifier, .primitiveType] → TypeTree ts n
  | composed {n first : Node} {rest : List Node} :
      n.kind ∈ [Kind.scopedType, .genericType, .arrayType] → n.children = first :: rest →
      TypeTree ts first → (∀ c ∈ rest, TypePiece ts c ∨ Dimensions ts c) → TypeTree ts n

variable {ts us rest : List Token} {n : Node} {fuel : Nat} {siblings : List Node} {r : Reading}

lemma kind_withSlot (n : Node) (s : Option Slot) : (n.withSlot s).kind = n.kind := by
  cases n
  rfl

lemma children_withSlot (n : Node) (s : Option Slot) : (n.withSlot s).children = n.children := by
  cases n
  rfl

lemma TypeTree.withSlot (h : TypeTree ts n) (s : Option Slot) : TypeTree ts (n.withSlot s) := by
  cases h with
  | word hk => exact .word (kind_withSlot n s ▸ hk)
  | composed hk hc hfirst hrest =>
    exact .composed (kind_withSlot n s ▸ hk) ((children_withSlot n s).trans hc) hfirst hrest

lemma Dimensions.withSlot (h : Dimensions ts n) (s : Option Slot) : Dimensions ts (n.withSlot s) :=
  ⟨(kind_withSlot n s).trans h.1, children_withSlot n s ▸ h.2⟩

/-! ### Types -/

section Types

lemma makes_typeName : Makes ts (TypePiece ts) Rule.typeName :=
  .leaf fun _ hk _ => .inl (by rw [hk]; decide)

lemma makes_mark {text : String} (h : quiet text.toList = true) :
    Makes ts (TypePiece ts) (.word text) :=
  .word fun t ht heq => .inr ⟨t, ht, heq ▸ h, rfl, rfl⟩

lemma pushes_annotations : Pushes ts (TypePiece ts) Rule.annotations :=
  .many (makes_annotationMark.mono fun _ hk => .inl (mem_append_right _ hk)).pushes

lemma makes_dimensions : Makes ts (Dimensions ts) (.rule .dimensions) := by
  have hpair : Pushes ts (TypePiece ts) (Form.seqs [Rule.annotations, .word "[", .word "]"]) :=
    pushes_annotations.seq ((makes_mark (by decide)).pushes.seq (makes_mark (by decide)).pushes)
  exact .rule (.node_pushes (hpair.seq hpair.many) fun _ hk hc => ⟨hk, hc⟩)

lemma makes_simpleType : Makes ts (TypeTree ts) (.rule .simpleType) := by
  have hprimitive : ∀ b ∈ Rule.primitiveNames.map fun w => Form.leaf .primitiveType (.spelled w),
      Makes ts (TypeTree ts) b := fun b hb => by
    obtain ⟨w, -, rfl⟩ := mem_map.mp hb
    exact .leaf fun _ hk _ => .word (by rw [hk]; decide)
  have hname : Makes ts (TypeTree ts) Rule.typeName :=
    .leaf fun _ hk _ => .word (by rw [hk]; decide)
  have harguments : Makes ts (TypePiece ts) (.rule .typeArguments) :=
    .rule (.node fun _ hk _ => .inl (by rw [hk]; decide))
  have hpoint : Pushes ts (TypePiece ts) (Form.seqs [.word ".", Rule.annotations, Rule.typeName]) :=
    (makes_mark (by decide)).pushes.seq (pushes_annotations.seq makes_typeName.pushes)
  -- the name so far goes first in the next larger type
  have hgrows {kind : Kind} {a : Form Rule} (ha : Pushes ts (TypePiece ts) a)
      (hk : kind ∈ [Kind.scopedType, .genericType, .arrayType]) :
      Turns ts (TypeTree ts) (.wrap kind none a) :=
    .wrap ha (fun _ _ _ hkind hc hfirst hrest =>
      .composed (hkind ▸ hk) hc hfirst fun c hc => .inl (hrest c hc)) fun _ h => h.withSlot none
  obtain ⟨hfirst, hothers⟩ := forall_mem_cons.mp hprimitive
  exact .rule (.alt (.alts hfirst hothers) (hname.seq_turns (.many
    (.alt (.seq .lastIs (hgrows harguments.pushes (by decide))) (hgrows hpoint (by decide))))))

lemma makes_type : Makes ts (TypeTree ts) (.rule .unannotatedType) := by
  have harray : Turns ts (TypeTree ts) (.wrap .arrayType none (.rule .dimensions)) :=
    .wrap makes_dimensions.pushes (fun _ _ _ hk hc hfirst hrest =>
      .composed (by rw [hk]; decide) hc hfirst fun c hc => .inr (hrest c hc))
      fun _ h => h.withSlot none
  exact .rule (makes_simpleType.seq_turns (.alt harray .done))

end Types

/-! ### Parameters -/

section Parameters

def signatureKinds : List Kind := [.formalParameter, .spreadParameter]

/-- What the children of a parameter are that its type is read from. -/
structure ParameterTypes (ts : List Token) (n : Node) : Prop where
  type : n.kind = .formalParameter → ∀ c ∈ n.children, c.slot? = some .type → TypeTree ts c
  dimensions : n.kind = .formalParameter → ∀ c ∈ n.children, c.slot? = some .dimensions →
    Dimensions ts c
  spread : n.kind = .spreadParameter → ∀ c ∈ n.children,
    c.kind ∈ [Kind.mark, .modifiers, .variableDeclarator] ++ annotationKinds ∨ TypeTree ts c

lemma ParameterTypes.of_kind (hk : n.kind ∉ signatureKinds) : ParameterTypes ts n where
  type h := absurd (by rw [h]; decide) hk
  dimensions h := absurd (by rw [h]; decide) hk
  spread h := absurd (by rw [h]; decide) hk

lemma ParameterTypes.withSlot (h : ParameterTypes ts n) (s : Option Slot) :
    ParameterTypes ts (n.withSlot s) := by
  cases n
  exact ⟨h.type, h.dimensions, h.spread⟩

lemma makes_formalParameter : Makes ts (ParameterTypes ts) (.node .formalParameter
    (Form.seqs [Rule.optModifiers, .slot .type (.rule .unannotatedType), .rule .variableName])) := by
  let Q (c : Node) : Prop := (c.slot? = some .type → TypeTree ts c) ∧
    (c.slot? = some .dimensions → Dimensions ts c)
  have hmodifiers : Pushes ts Q Rule.optModifiers :=
    .opt (Makes.rule (.node fun n _ hs => ⟨by simp [hs], by simp [hs]⟩)).pushes
  have htype : Pushes ts Q (.slot .type (.rule .unannotatedType)) :=
    .slot makes_type.pushes fun c hc => ⟨fun _ => hc.withSlot _, by simp [slot?_withSlot]⟩
  have hword : Makes ts (fun _ => True) (.alt (.leaf .underscore (.spelled "_")) Rule.ident) :=
    .alt (.leaf fun _ _ _ => trivial) (.leaf fun _ _ _ => trivial)
  have hname : Pushes ts Q (.slot .name (.alt (.leaf .underscore (.spelled "_")) Rule.ident)) :=
    .slot hword.pushes fun c _ => ⟨by simp [slot?_withSlot], by simp [slot?_withSlot]⟩
  have hdimensions : Pushes ts Q (.slot .dimensions (.rule .dimensions)) :=
    .slot makes_dimensions.pushes fun c hc => ⟨by simp [slot?_withSlot], fun _ => hc.withSlot _⟩
  exact .node_pushes (hmodifiers.seq (htype.seq (.rule (hname.seq hdimensions.opt))))
    fun n hk hc => ⟨fun _ c hm => (hc c hm).1, fun _ c hm => (hc c hm).2, by simp [hk]⟩

lemma makes_spreadParameter : Makes ts (ParameterTypes ts) (.node .spreadParameter
    (Form.seqs [Rule.optModifiers, .rule .unannotatedType, .word "...", Rule.annotations,
      .rule .variableDeclarator])) := by
  let Q (c : Node) : Prop :=
    c.kind ∈ [Kind.mark, .modifiers, .variableDeclarator] ++ annotationKinds ∨ TypeTree ts c
  have hmodifiers : Pushes ts Q Rule.optModifiers :=
    .opt (Makes.rule (.node fun n hk _ => .inl (by rw [hk]; decide))).pushes
  have htype : Pushes ts Q (.rule .unannotatedType) := (makes_type.mono fun _ h => .inr h).pushes
  have hmark : Pushes ts Q (.word "...") :=
    (Makes.word fun t _ _ => .inl (by simp [Token.leaf, Node.kind])).pushes
  have hannotations : Pushes ts Q Rule.annotations :=
    .many (makes_annotationMark.mono fun _ hk => .inl (mem_append_right _ hk)).pushes
  have hvariable : Pushes ts Q (.rule .variableDeclarator) :=
    (Makes.rule (.node fun n hk _ => .inl (by rw [hk]; decide))).pushes
  exact .node_pushes (hmodifiers.seq (htype.seq (hmark.seq (hannotations.seq hvariable))))
    fun n hk hc => ⟨by simp [hk], by simp [hk], fun _ => hc⟩

namespace Form

def readsParameter : Kind → Form Rule → Bool
  | .formalParameter, seq (alt (rule .modifiers) done)
      (seq (slot .type (rule .unannotatedType)) (rule .variableName)) => true
  | .spreadParameter, seq (alt (rule .modifiers) done) (seq (rule .unannotatedType)
      (seq (word "...") (seq (many (rule .annotationUse)) (rule .variableDeclarator)))) => true
  | _, _ => false

/-- Parameters are made in no other way. -/
def plainParameters : Form Rule → Bool
  | seq a b | alt a b => a.plainParameters && b.plainParameters
  | many a | slot _ a => a.plainParameters
  | leaf kind _ => !signatureKinds.contains kind
  | node kind a => (!signatureKinds.contains kind || readsParameter kind a) && a.plainParameters
  | wrap kind _ a => !signatureKinds.contains kind && a.plainParameters
  | _ => true

lemma body_plainParameters (r : Rule) : (Rule.body r).plainParameters = true := by
  cases r with
  | level n arrow =>
    rw [Rule.body]
    split
    · exact levelTail_of (P := (plainParameters · = true)) rfl
        (fun _ _ ha hb => Bool.and_eq_true_iff.mpr ⟨ha, hb⟩) (fun _ => rfl) rfl
    · rfl
  | expression arrow => cases arrow <;> rfl
  | operandCore arrow => cases arrow <;> rfl
  | _ => rfl

end Form

lemma makes_of_readsParameter {kind : Kind} {a : Form Rule}
    (h : Form.readsParameter kind a = true) : Makes ts (ParameterTypes ts) (.node kind a) := by
  unfold Form.readsParameter at h
  split at h
  · exact makes_formalParameter
  · exact makes_spreadParameter
  · cases h

lemma all_leaf {kind : Kind} {slot : Option Slot} {start stop : Nat} (hk : kind ∉ signatureKinds) :
    (Node.mk kind slot start stop []).All (ParameterTypes ts) :=
  (Node.all_iff _).mpr ⟨.of_kind hk, by simp [Node.children]⟩

lemma all_withSlot (h : n.All (ParameterTypes ts)) (s : Option Slot) :
    (n.withSlot s).All (ParameterTypes ts) := by
  obtain ⟨hn, hc⟩ := (Node.all_iff n).mp h
  exact (Node.all_iff _).mpr ⟨hn.withSlot s, children_withSlot n s ▸ hc⟩

lemma all_ofReversed {kind : Kind} {found : List Node} {origin : Nat}
    (hn : ParameterTypes ts (Node.ofReversed kind origin found))
    (h : ∀ m ∈ found, m.All (ParameterTypes ts)) :
    (Node.ofReversed kind origin found).All (ParameterTypes ts) :=
  (Node.all_iff _).mpr ⟨hn, fun c hc => h c (mem_reverse.mp hc)⟩

/-- Whatever is read, the types of the parameters in it are types. -/
lemma reads_parameterTypes {form : Form Rule} (hform : form.plainParameters = true) (hs : us <:+ ts)
    (hsib : ∀ m ∈ siblings, m.All (ParameterTypes ts))
    (h : Form.Reads Rule.body fuel form siblings us r) : ∀ m ∈ r.1, m.All (ParameterTypes ts) := by
  induction h with
  | done | enough | ahead | notAhead | lastIs | lastHolds => exact hsib
  | word | operator | adjoined => exact forall_mem_cons.mpr ⟨all_leaf (by decide), hsib⟩
  | leaf =>
    exact forall_mem_cons.mpr ⟨all_leaf (by simpa [Form.plainParameters] using hform), hsib⟩
  | @rule _ _ _ _ r' _ ih => exact ih (Form.body_plainParameters r') hs hsib
  | seq hmid _ ihmid ih =>
    obtain ⟨ha, hb⟩ := Bool.and_eq_true_iff.mp hform
    exact ih hb (hmid.suffix.trans hs) (ihmid ha hs hsib)
  | first _ ih => exact ih (Bool.and_eq_true_iff.mp hform).1 hs hsib
  | second _ _ ih => exact ih (Bool.and_eq_true_iff.mp hform).2 hs hsib
  | more hmid _ ihmid ih => exact ih hform (hmid.suffix.trans hs) (ihmid hform hs hsib)
  | slot _ ih =>
    have hfound := ih hform hs (by simp)
    exact forall_mem_append.mpr ⟨forall_mem_map.mpr fun c hc => all_withSlot (hfound c hc) _, hsib⟩
  | @node _ _ siblings _ _ _ kind hinner ih =>
    obtain ⟨hmade, ha⟩ := Bool.and_eq_true_iff.mp hform
    refine forall_mem_cons.mpr ⟨all_ofReversed ?_ (ih ha hs (by simp)), hsib⟩
    rcases Bool.or_eq_true_iff.mp hmade with hno | hread
    · exact .of_kind (show kind ∉ signatureKinds by simpa using hno)
    · obtain ⟨m, heq, hm⟩ :=
        makes_of_readsParameter hread _ siblings _ _ hs (Form.Reads.node hinner).read_eq
      exact (cons.inj heq).1 ▸ hm
  | @wrap _ _ last _ _ _ _ kind s _ ih =>
    obtain ⟨hno, ha⟩ := Bool.and_eq_true_iff.mp hform
    obtain ⟨hlast, hbefore⟩ := forall_mem_cons.mp hsib
    have hfound := ih ha hs (by simpa using all_withSlot hlast s)
    have hkind : kind ∉ signatureKinds := by simpa using hno
    exact forall_mem_cons.mpr ⟨all_ofReversed (.of_kind hkind) hfound, hbefore⟩

lemma parameterTypes_parseTokens (ts : List Token) : (parseTokens ts).All (ParameterTypes ts) := by
  have hform : (Form.rule Rule.program).plainParameters = true := rfl
  exact parseTokens_of (all_leaf (by decide)) fun _ _ h =>
    reads_parameterTypes hform (suffix_refl ts) (by simp) h

end Parameters

/-! ### Sources -/

section Sources

variable {source : List Char} {c : Node} {cm : List Token}

/-- The node is one of this sort over the code of the source, with comments put into it. -/
def InCode (source : List Char) (Q : Node → Prop) (n : Node) : Prop :=
  ∃ m us cm, n = m.weave cm ∧ Tiled m us ∧ us <:+: codeTokens source ∧ Q m

/-- What the children of a parameter in a source are that its type is read from. -/
structure ParameterCode (source : List Char) (n : Node) : Prop where
  type : n.kind = .formalParameter → ∀ c ∈ n.children, c.slot? = some .type →
    InCode source (TypeTree (codeTokens source)) c
  dimensions : n.kind = .formalParameter → ∀ c ∈ n.children, c.slot? = some .dimensions →
    InCode source (Dimensions (codeTokens source)) c
  spread : n.kind = .spreadParameter → ∀ c ∈ n.children,
    c.kind ∈ [Kind.mark, .modifiers, .variableDeclarator] ++ annotationKinds ∨
      (∃ t ∈ lex source, t.cls = .comment ∧ c = t.leaf .comment) ∨
      InCode source (TypeTree (codeTokens source)) c

lemma ParameterCode.of_kind (hk : n.kind ∉ signatureKinds) : ParameterCode source n where
  type h := absurd (by rw [h]; decide) hk
  dimensions h := absurd (by rw [h]; decide) hk
  spread h := absurd (by rw [h]; decide) hk

lemma Tiled.child (h : Tiled n us) (hc : c ∈ n.children) : ∃ vs, Tiled c vs ∧ vs <:+: us := by
  cases h with
  | leaf => cases hc
  | node _ _ _ htiles _ _ =>
    obtain ⟨x, hx, rfl⟩ := mem_map.mp hc
    exact ⟨x.2, htiles x hx, infix_tokensOf hx⟩

lemma slot?_weave (comments : List Token) (n : Node) : (n.weave comments).slot? = n.slot? := by
  rw [weave_eq]
  rfl

lemma parameterCode_weave (h : ParameterTypes (codeTokens source) n) (ht : Tiled n us)
    (hus : us <:+: codeTokens source) (hcm : ∀ t ∈ cm, t ∈ lex source ∧ t.cls = .comment) :
    ParameterCode source (n.weave cm) := by
  have hpart {P : Node → Prop} {m : Node} {cs : List Token} (hm : m ∈ n.children) (hP : P m) :
      InCode source P (m.weave cs) := by
    obtain ⟨vs, hvs, hin⟩ := ht.child hm
    exact ⟨m, vs, cs, rfl, hvs, hin.trans hus, hP⟩
  have hslotted {P : Node → Prop} {c : Node} {s : Slot} (hc : c ∈ (n.weave cm).children)
      (hs : c.slot? = some s) (hP : ∀ m ∈ n.children, m.slot? = some s → P m) :
      InCode source P c := by
    rw [weave_eq] at hc
    rcases mem_weaveList hc with ⟨t, rfl⟩ | ⟨m, hm, cs, rfl⟩
    · cases hs
    · exact hpart hm (hP m hm (slot?_weave cs m ▸ hs))
  refine ⟨fun hk c hc hs => hslotted hc hs (h.type (kind_weave cm n ▸ hk)),
    fun hk c hc hs => hslotted hc hs (h.dimensions (kind_weave cm n ▸ hk)), fun hk c hc => ?_⟩
  rw [weave_eq] at hc
  rcases mem_weaveList_of hc with ⟨t, ht, rfl⟩ | ⟨m, hm, cs, -, rfl⟩
  · exact .inr (.inl ⟨t, (hcm t ht).1, (hcm t ht).2, rfl⟩)
  · rw [kind_weave]
    exact (h.spread (kind_weave cm n ▸ hk) m hm).imp id fun hm' => .inr (hpart hm hm')

lemma all_comment (t : Token) : (t.leaf .comment).All (ParameterCode source) := by
  have hkind : (t.leaf .comment).kind ∉ signatureKinds := by
    simp [Token.leaf, Node.kind, signatureKinds]
  exact (Node.all_iff _).mpr ⟨.of_kind hkind, by simp [Token.leaf, Node.children]⟩

lemma all_parameterCode (h : n.All (ParameterTypes (codeTokens source))) (ht : Tiled n us)
    (hus : us <:+: codeTokens source) (hcm : ∀ t ∈ cm, t ∈ lex source ∧ t.cls = .comment) :
    (n.weave cm).All (ParameterCode source) := by
  induction n using Node.induct generalizing us cm with
  | _ n ih =>
    obtain ⟨hn, hc⟩ := (Node.all_iff n).mp h
    refine (Node.all_iff _).mpr ⟨parameterCode_weave hn ht hus hcm, fun c hm => ?_⟩
    rw [weave_eq] at hm
    rcases mem_weaveList_of hm with ⟨t, -, rfl⟩ | ⟨m, hmem, cs, hcs, rfl⟩
    · exact all_comment t
    · obtain ⟨vs, hvs, hin⟩ := ht.child hmem
      exact ih m hmem (hc m hmem) hvs (hin.trans hus) fun t ht => hcm t (hcs ht)

/-- Wherever a parameter stands in the tree of a source, its type is laid over the code. -/
theorem parse_parameterCode (source : List Char) : (parse source).All (ParameterCode source) := by
  have hwords : ∀ t ∈ codeTokens source, t.cls = .word → IsWord t.spelling := fun t ht =>
    isWord_of_word (mem_of_mem_filter ht)
  obtain ⟨xs, hnodes, htiles, hprefix⟩ := parseTokens_tiles hwords
  obtain ⟨-, hall⟩ := (Node.all_iff _).mp (parameterTypes_parseTokens (codeTokens source))
  refine (Node.all_iff _).mpr ⟨.of_kind (by rw [kind_parse]; decide), fun c hc => ?_⟩
  rw [parse_eq, ← codeTokens, weave_eq] at hc
  change c ∈ Node.weaveList _ (parseTokens (codeTokens source)).children at hc
  rcases mem_weaveList_of hc with ⟨t, -, rfl⟩ | ⟨m, hm, cs, hcs, rfl⟩
  · exact all_comment t
  · have htile := hm
    rw [hnodes] at htile
    obtain ⟨x, hx, rfl⟩ := mem_map.mp htile
    refine all_parameterCode (hall x.1 hm) (htiles x hx)
      ((infix_tokensOf hx).trans hprefix.isInfix) fun t ht => ?_
    simpa using mem_filter.mp (hcs ht)

end Sources

end JavaAtlas.Syntax
