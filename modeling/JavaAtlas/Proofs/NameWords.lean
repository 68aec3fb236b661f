import JavaAtlas.Proofs.LegibleNames

/-! What a declaration is named by is one word. Only annotations and modules go by names with points
in them; any other name is a single token, in which nothing stands but the characters of names. -/

namespace JavaAtlas.Syntax

open Text

/-- A word as the grammar takes it. -/
def IsWord (s : String) : Prop :=
  ∃ c cs, s.toList = c :: cs ∧ isIdentifierStart c = true ∧ ∀ d ∈ cs, isIdentifierPart d = true

lemma IsWord.ne_nil {s : String} (h : IsWord s) : s.toList ≠ [] := by
  obtain ⟨c, cs, hs, -⟩ := h
  simp [hs]

lemma IsWord.isIdentifier {s : String} (h : IsWord s) {c : Char} (hc : c ∈ s.toList) :
    (isIdentifierStart c || isIdentifierPart c) = true := by
  obtain ⟨a, cs, hs, ha, hcs⟩ := h
  rw [hs] at hc
  rcases List.mem_cons.mp hc with rfl | hc
  · rw [ha, Bool.true_or]
  · rw [hcs c hc, Bool.or_true]

/-- The node covers one token, which is a word. -/
def Worded (ts : List Token) (n : Node) : Prop :=
  ∃ t ∈ ts, (t.cls = .word ∨ t.spelling = "_") ∧ n.start = t.start ∧ n.stop = t.stop

/-- Kinds of nodes that go by qualified names. -/
def qualifiedKinds : List Kind := [.annotationUse, .markerUse, .moduleDeclaration]

/-- Whatever names the node is a word, unless it goes by a qualified name. -/
def NamedByWord (ts : List Token) (n : Node) : Prop :=
  n.kind ∉ qualifiedKinds → ∀ c ∈ n.children, c.slot? = some .name → Worded ts c

variable {ts us : List Token} {n m : Node} {fuel : Nat} {siblings found : List Node} {r : Reading}
variable {top : Bool}

lemma worded_slice {source : List Char} (h : Worded ((lex source).filter (!·.cls == .comment)) n) :
    IsWord (slice source n.start n.stop) := by
  obtain ⟨t, ht, hword, hstart, hstop⟩ := h
  obtain ⟨ht, -⟩ := List.mem_filter.mp ht
  rw [hstart, hstop, slice_token ht]
  rcases hword with hc | hs
  · obtain ⟨splices, rest, hat⟩ := tokenAt_of_mem_lex ht
    obtain ⟨c, cs, hcs, hstart, hpart, -⟩ := hat.word hc
    exact ⟨c, cs, hcs, hstart, hpart⟩
  · rw [hs]
    exact ⟨'_', [], by decide, by decide, by simp⟩

namespace Form

/-- Forms that read one word. -/
def readsWord : Form Rule → Bool
  | leaf _ .name => true
  | leaf _ (.spelled text) => text == "_"
  | alt a b => a.readsWord && b.readsWord
  | _ => false

/-- Forms that name every node by a word, the node around them only if `top` holds. -/
def namesByWord : Bool → Form Rule → Bool
  | top, seq a b | top, alt a b => a.namesByWord top && b.namesByWord top
  | top, many a => a.namesByWord top
  | top, slot s a => if top && s == .name then a.readsWord else a.namesByWord false
  | _, node kind a => a.namesByWord (!qualifiedKinds.contains kind)
  | _, wrap kind s a => s != some .name && a.namesByWord (!qualifiedKinds.contains kind)
  | _, _ => true

lemma namesByWord_of_readsWord {form : Form Rule} (h : form.readsWord = true) (top : Bool) :
    form.namesByWord top = true := by
  induction form with
  | leaf kind x => rfl
  | alt a b iha ihb =>
    obtain ⟨ha, hb⟩ := Bool.and_eq_true_iff.mp h
    exact Bool.and_eq_true_iff.mpr ⟨iha ha, ihb hb⟩
  | _ => simp [readsWord] at h

lemma namesByWord_false {form : Form Rule} (h : form.namesByWord true = true) :
    form.namesByWord false = true := by
  induction form with
  | seq a b iha ihb | alt a b iha ihb =>
    obtain ⟨ha, hb⟩ := Bool.and_eq_true_iff.mp h
    exact Bool.and_eq_true_iff.mpr ⟨iha ha, ihb hb⟩
  | many a ih => exact ih h
  | slot s a ih =>
    rw [namesByWord] at h ⊢
    split at h
    · exact namesByWord_of_readsWord h false
    · exact h
  | node kind a ih => exact h
  | wrap kind s a ih => exact h
  | _ => rfl

lemma body_namesByWord (r : Rule) : (Rule.body r).namesByWord true = true := by
  cases r with
  | level n arrow =>
    rw [Rule.body]
    split
    · exact levelTail_of (P := (namesByWord true · = true)) rfl
        (fun _ _ ha hb => Bool.and_eq_true_iff.mpr ⟨ha, hb⟩) (fun _ => rfl) rfl
    · rfl
  | expression arrow => cases arrow <;> rfl
  | operandCore arrow => cases arrow <;> rfl
  | _ => rfl

end Form

/-- What reads one word reads a node over it. -/
lemma reads_readsWord {form : Form Rule} (hs : us <:+ ts) (hform : form.readsWord = true)
    (h : Form.Reads Rule.body fuel form [] us r) : ∀ m ∈ r.1, Worded ts m ∧ m.children = [] := by
  generalize hnone : ([] : List Node) = siblings at h
  induction h with
  | @leaf _ _ t rest kind x hx =>
    subst hnone
    refine List.forall_mem_singleton.mpr ⟨⟨t, hs.subset List.mem_cons_self, ?_, rfl, rfl⟩, rfl⟩
    cases x with
    | name => exact .inl (by simpa using (Bool.and_eq_true_iff.mp hx).1)
    | spelled text =>
      obtain rfl : text = "_" := by simpa [Form.readsWord] using hform
      exact .inr (by simpa [Lexeme.matches] using hx)
    | ofClass cls => simp [Form.readsWord] at hform
  | first _ ih => exact ih hs (Bool.and_eq_true_iff.mp hform).1 hnone
  | second _ _ ih => exact ih hs (Bool.and_eq_true_iff.mp hform).2 hnone
  | _ => simp [Form.readsWord] at hform

/-- A sibling in a tree whose names are words; its own name counts if `top` holds. -/
structure WordTree (ts : List Token) (top : Bool) (n : Node) : Prop where
  all : n.All (NamedByWord ts)
  word : top = true → n.slot? = some .name → Worded ts n

namespace WordTree

lemma leaf {kind : Kind} {start stop : Nat} : WordTree ts top (.mk kind none start stop []) where
  all := (Node.all_iff _).mpr ⟨fun _ c hc => (List.not_mem_nil hc).elim, fun c hc =>
    (List.not_mem_nil hc).elim⟩
  word _ h := by cases h

lemma withSlot (h : WordTree ts false n) {s : Option Slot}
    (hw : top = true → s = some .name → Worded ts n) : WordTree ts top (n.withSlot s) := by
  obtain ⟨kind, slot, start, stop, children⟩ := n
  exact ⟨(Node.all_iff _).mpr ((Node.all_iff _).mp h.all), hw⟩

lemma ofReversed {kind : Kind} (origin : Nat)
    (h : ∀ m ∈ found, WordTree ts (!qualifiedKinds.contains kind) m) :
    WordTree ts top (Node.ofReversed kind origin found) where
  all := by
    refine (Node.all_iff _).mpr ⟨fun hk c hc => ?_, fun c hc => (h c (List.mem_reverse.mp hc)).all⟩
    exact (h c (List.mem_reverse.mp hc)).word (by simpa [Node.ofReversed, Node.kind] using hk)
  word _ hs := by cases hs

lemma cons (hm : WordTree ts top m) (hs : ∀ n ∈ siblings, WordTree ts top n) :
    ∀ n ∈ m :: siblings, WordTree ts top n := List.forall_mem_cons.mpr ⟨hm, hs⟩

end WordTree

/-- Whatever is read, nodes are named by words. -/
lemma reads_wordTree {form : Form Rule} (hform : form.namesByWord top = true) (hs : us <:+ ts)
    (hsib : ∀ m ∈ siblings, WordTree ts top m)
    (h : Form.Reads Rule.body fuel form siblings us r) : ∀ m ∈ r.1, WordTree ts top m := by
  induction h generalizing top with
  | done | enough | ahead | notAhead | lastIs | lastHolds => exact hsib
  | word | operator | adjoined | leaf => exact WordTree.leaf.cons hsib
  | @rule _ _ _ _ r' _ ih =>
    refine ih ?_ hs hsib
    cases top with
    | true => exact Form.body_namesByWord r'
    | false => exact Form.namesByWord_false (Form.body_namesByWord r')
  | seq hmid _ ihmid ih =>
    obtain ⟨ha, hb⟩ := Bool.and_eq_true_iff.mp hform
    exact ih hb (hmid.suffix.trans hs) (ihmid ha hs hsib)
  | first _ ih => exact ih (Bool.and_eq_true_iff.mp hform).1 hs hsib
  | second _ _ ih => exact ih (Bool.and_eq_true_iff.mp hform).2 hs hsib
  | more hmid _ ihmid ih => exact ih hform (hmid.suffix.trans hs) (ihmid hform hs hsib)
  | @slot _ a _ _ found _ s hinner ih =>
    refine List.forall_mem_append.mpr ⟨List.forall_mem_map.mpr fun m hm => ?_, hsib⟩
    rw [Form.namesByWord] at hform
    split at hform
    · obtain ⟨hw, hnone⟩ := reads_readsWord hs hform hinner m hm
      have hleaf : WordTree ts false m :=
        ⟨(Node.all_iff m).mpr ⟨fun _ c hc => by simp [hnone] at hc, by simp [hnone]⟩, by simp⟩
      exact hleaf.withSlot fun _ _ => hw
    · next hne =>
      refine (ih hform hs (by simp) m hm).withSlot fun ht heq => absurd ?_ hne
      rw [ht, Option.some.inj heq]
      rfl
  | node _ ih =>
    rw [Form.namesByWord] at hform
    exact (WordTree.ofReversed _ (ih hform hs (by simp))).cons hsib
  | @wrap _ _ last _ _ _ _ kind s _ ih =>
    obtain ⟨hslot, ha⟩ := Bool.and_eq_true_iff.mp hform
    obtain ⟨hlast, hbefore⟩ := List.forall_mem_cons.mp hsib
    have hwrapped : WordTree ts (!qualifiedKinds.contains kind) (last.withSlot s) :=
      WordTree.withSlot ⟨hlast.all, by simp⟩ fun _ heq => absurd heq (by simpa using hslot)
    exact (WordTree.ofReversed _ (ih ha hs (by simpa using hwrapped))).cons hbefore

lemma namedByWord_parseTokens (tokens : List Token) :
    (parseTokens tokens).All (NamedByWord tokens) := by
  have hform : (Form.rule Rule.program).namesByWord true = true := rfl
  exact parseTokens_of (WordTree.leaf : WordTree _ true _).all fun _ _ h m hm =>
    (reads_wordTree hform (List.suffix_refl tokens) (by simp) h m hm).all

lemma namedByWord_weave (h : n.All (NamedByWord ts)) (comments : List Token) :
    (n.weave comments).All (NamedByWord ts) := by
  induction n using Node.induct generalizing comments with
  | _ n ih =>
    obtain ⟨hn, hc⟩ := (Node.all_iff _).mp h
    rw [weave_eq]
    refine (Node.all_iff _).mpr ⟨fun hk m hm hslot => ?_, fun m hm => ?_⟩
    · rcases mem_weaveList hm with ⟨t, rfl⟩ | ⟨c, hmem, cs, rfl⟩
      · cases hslot
      · rw [weave_eq] at hslot ⊢
        exact hn hk c hmem hslot
    · rcases mem_weaveList hm with ⟨t, rfl⟩ | ⟨c, hmem, cs, rfl⟩
      · exact (WordTree.leaf : WordTree _ true _).all
      · exact ih c hmem (hc c hmem) cs

/-- The text that names the node is a word, unless the node goes by a qualified name. -/
def WordNamed (source : List Char) (n : Node) : Prop :=
  n.kind ∉ qualifiedKinds → ∀ c ∈ n.children, c.slot? = some .name →
    IsWord (slice source c.start c.stop)

/-- Every node in the tree of a source that is not an annotation or a module is named by a word. -/
theorem parse_wordNamed (source : List Char) : (parse source).All (WordNamed source) := by
  rw [parse_eq]
  have hall := namedByWord_weave (namedByWord_parseTokens ((lex source).filter (!·.cls == .comment)))
    ((lex source).filter (·.cls == .comment))
  have htext (m : Node) (hm : NamedByWord ((lex source).filter (!·.cls == .comment)) m) :
      WordNamed source m := fun hk c hc hs => worded_slice (hm hk c hc hs)
  have hwords := hall.mono htext
  rw [weave_eq] at hwords ⊢
  exact (Node.all_iff _).mpr ((Node.all_iff _).mp hwords)

end JavaAtlas.Syntax
