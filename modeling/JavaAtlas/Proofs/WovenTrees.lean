import JavaAtlas.Proofs.TwinTrees

/-! Two sources with the same code and other comments. Their trees have one shape, comments apart, and
what stands between corresponding tokens differs in white space only, where no comment stands. -/

namespace JavaAtlas.Syntax

open List Text

variable {zs : List TokenPair}

section Weaving

/-- Trees of one shape over corresponding tokens, comments apart. -/
inductive Woven (zs : List TokenPair) : Node → Node → Prop
  | mk {n n' : Node} (kind_eq : n.kind = n'.kind) (slot_eq : n.slot? = n'.slot?)
      (spans : Spans zs n.start n.stop n'.start n'.stop)
      (qualified : n.kind = .methodReference →
        (∃ c ∈ n.children.head?, c.kind ≠ .comment) ∧ ∃ c ∈ n'.children.head?, c.kind ≠ .comment)
      (parts : Forall₂ (Woven zs) (Node.code n.children) (Node.code n'.children)) : Woven zs n n'

variable {comments comments' : List Token} {n n' : Node} {ns ns' : List Node}

lemma kind_weave (comments : List Token) (n : Node) : (n.weave comments).kind = n.kind := by
  rw [weave_eq]
  rfl

lemma start_le_of_mem_head? {start stop : Nat} {t : Token}
    (h : t ∈ ((comments.dropWhile (·.start < start)).takeWhile (·.start < stop)).head?) :
    start ≤ t.start := by
  have hnot := head?_dropWhile_not (fun t : Token => decide (t.start < start)) comments
  cases hd : comments.dropWhile (·.start < start) with
  | nil => simp [hd] at h
  | cons u us =>
    rw [hd, takeWhile_cons] at h
    split at h
    · obtain rfl : u = t := by simpa using h
      rw [hd] at hnot
      simpa using hnot
    · simp at h

lemma code_weaveList_cons {c : Node} (hc : c.kind ≠ .comment) (comments : List Token)
    (ns : List Node) : ∃ inner after, Node.code (Node.weaveList comments (c :: ns)) =
      c.weave inner :: Node.code (Node.weaveList after ns) ∧ ∀ t ∈ inner.head?, c.start ≤ t.start := by
  have hleaves (ts : List Token) : Node.code (ts.map (·.leaf .comment)) = [] :=
    filter_eq_nil_iff.mpr fun m hm => by
      obtain ⟨t, -, rfl⟩ := mem_map.mp hm
      simp [Node.isRemark, Token.leaf, Node.kind, Node.slot?, Node.children]
  refine ⟨(comments.dropWhile (·.start < c.start)).takeWhile (·.start < c.stop),
    (comments.dropWhile (·.start < c.start)).dropWhile (·.start < c.stop), ?_,
    fun t ht => start_le_of_mem_head? ht⟩
  rw [Node.weaveList, Node.code, filter_append]
  change Node.code _ ++ _ = _
  rw [hleaves, nil_append, filter_cons_of_pos (by simp [Node.isRemark, kind_weave, hc])]
  rfl

lemma weaveList_woven (hs : Forall₂ (Twin zs) ns ns')
    (ih : ∀ c ∈ ns, ∀ c' cm cm', Twin zs c c' → (∀ t ∈ cm.head?, c.start ≤ Token.start t) →
      (∀ t ∈ cm'.head?, c'.start ≤ Token.start t) → Woven zs (c.weave cm) (c'.weave cm')) :
    Forall₂ (Woven zs) (Node.code (Node.weaveList comments ns))
      (Node.code (Node.weaveList comments' ns')) := by
  induction hs generalizing comments comments' with
  | nil =>
    have hnone (ts : List Token) : Node.code (Node.weaveList ts []) = [] := by
      rw [Node.weaveList]
      refine filter_eq_nil_iff.mpr fun m hm => ?_
      obtain ⟨t, -, rfl⟩ := mem_map.mp hm
      simp [Node.isRemark, Token.leaf, Node.kind, Node.slot?, Node.children]
    rw [hnone, hnone]
    exact .nil
  | @cons c c' ns ns' hc _ ihs =>
    obtain ⟨inner, after, hcode, hin⟩ := code_weaveList_cons hc.kind_ne comments ns
    obtain ⟨inner', after', hcode', hin'⟩ :=
      code_weaveList_cons (hc.kind_eq ▸ hc.kind_ne) comments' ns'
    rw [hcode, hcode']
    exact .cons (ih c mem_cons_self c' inner inner' hc hin hin')
      (ihs fun d hd => ih d (mem_cons_of_mem _ hd))

/-- No comment comes before the first part of a node. -/
lemma head?_weaveList {c : Node} (hc : c.kind ≠ .comment)
    (hcm : ∀ t ∈ comments.head?, c.start ≤ t.start) :
    ∃ m ∈ (Node.weaveList comments (c :: ns)).head?, m.kind ≠ .comment := by
  have hbefore : comments.takeWhile (·.start < c.start) = [] := by
    cases comments with
    | nil => rfl
    | cons t ts =>
      have hle := hcm t rfl
      rw [takeWhile_cons_of_neg]
      simpa using hle
  rw [Node.weaveList, hbefore]
  exact ⟨_, rfl, by rwa [kind_weave]⟩

lemma weave_woven (h : Twin zs n n') (hcm : ∀ t ∈ comments.head?, n.start ≤ t.start)
    (hcm' : ∀ t ∈ comments'.head?, n'.start ≤ t.start) :
    Woven zs (n.weave comments) (n'.weave comments') := by
  induction n using Node.induct generalizing n' comments comments' with
  | _ n ih =>
    rw [weave_eq, weave_eq]
    refine .mk h.kind_eq h.slot_eq h.spans (fun hk => ?_) ?_
    · obtain ⟨c, cs, hcs⟩ := exists_cons_of_ne_nil (h.qualified hk)
      have hparts := h.children
      rw [hcs] at hparts
      obtain ⟨c', cs', hc, -, hcs'⟩ := forall₂_cons_left_iff.mp hparts
      have hfirst := h.first.1 c (by rw [hcs]; rfl)
      have hfirst' := h.first.2 c' (by rw [hcs']; rfl)
      change (∃ m ∈ (Node.weaveList comments n.children).head?, _) ∧
        ∃ m ∈ (Node.weaveList comments' n'.children).head?, _
      rw [hcs, hcs']
      exact ⟨head?_weaveList hc.kind_ne (hfirst ▸ hcm),
        head?_weaveList (hc.kind_eq ▸ hc.kind_ne) (hfirst' ▸ hcm')⟩
    · exact weaveList_woven h.children fun c hc c' cm cm' hcc hin hin' => ih c hc hcc hin hin'

end Weaving

/-- The tokens of a source that are no comments. -/
def codeTokens (source : List Char) : List Token := (lex source).filter fun t => !(t.cls == .comment)

/-- Two sources that a reader cannot tell apart by their code. -/
theorem parse_woven {source source' : List Char} (hm : Matched zs)
    (hs : zs.map Prod.fst = codeTokens source) (hs' : zs.map Prod.snd = codeTokens source') :
    (parse source).kind = .program ∧ (parse source').kind = .program ∧
      (parse source).slot? = none ∧ (parse source').slot? = none ∧
      Forall₂ (Woven zs) (Node.code (parse source).children)
        (Node.code (parse source').children) := by
  have hroot (source : List Char) : (parse source).kind = .program ∧ (parse source).slot? = none ∧
      (parse source).children =
        Node.weaveList ((lex source).filter (·.cls == .comment))
          (parseTokens (codeTokens source)).children := by
    obtain ⟨hkind, hslot⟩ := kind_parseTokens (codeTokens source)
    rw [parse_eq, ← codeTokens, weave_eq, hkind, hslot]
    exact ⟨rfl, rfl, rfl⟩
  obtain ⟨hkind, hslot, hchildren⟩ := hroot source
  obtain ⟨hkind', hslot', hchildren'⟩ := hroot source'
  refine ⟨hkind, hkind', hslot, hslot', ?_⟩
  rw [hchildren, hchildren', ← hs, ← hs']
  exact weaveList_woven (parseTokens_twin hm) fun c _ c' cm cm' hc hin hin' => weave_woven hc hin hin'

section Texts

variable {source source' : List Char} {t last u : Token} {us ts : List Token}

/-- The text without its white space. -/
def squeeze (cs : List Char) : List Char := cs.filter fun c => !isBlank c

lemma Laid.squeeze_eq {body : List Char} (h : Laid us body) :
    squeeze body = us.flatMap fun t => squeeze t.spelling.toList := by
  induction h with
  | one t => simp
  | @cons t u us gap body hgap _ _ _ _ ih =>
    have hnone : squeeze gap = [] := filter_eq_nil_iff.mpr fun c hc => by simp [hgap c hc]
    rw [flatMap_cons, ← ih]
    change filter _ (_ ++ _ ++ _) = _
    rw [filter_append, filter_append]
    change _ ++ squeeze gap ++ _ = _
    rw [hnone, append_nil]
    rfl

lemma lexFrom_ordered (ts : List Token) {fuel pos : Nat} {splices : Splices} {cs : List Char}
    (h : lexFrom fuel splices pos cs = ts) :
    (∀ t ∈ ts, pos ≤ t.start ∧ t.start < t.stop) ∧ ts.Pairwise fun a b => a.stop ≤ b.start := by
  induction ts generalizing fuel splices pos cs with
  | nil => exact ⟨by simp, .nil⟩
  | cons t ts ih =>
    obtain ⟨lead, rest, fuel', splices', -, -, hstart, ht, hrest⟩ := lexFrom_eq_cons h
    obtain ⟨hts, hpair⟩ := ih hrest.symm
    have hpos : 0 < byteLength t.spelling.toList :=
      Nat.pos_of_ne_zero fun hz => ht.ne_nil (byteLength_eq_zero hz)
    have hstop := ht.stop_eq
    have hself : pos ≤ t.start ∧ t.start < t.stop := ⟨by omega, by omega⟩
    refine ⟨fun u hu => ?_, .cons (fun u hu => (hts u hu).1) hpair⟩
    rcases mem_cons.mp hu with rfl | hu
    · exact hself
    · have hlt := (hts u hu).1
      exact ⟨by omega, (hts u hu).2⟩

lemma lex_ordered (source : List Char) : (∀ t ∈ lex source, t.start < t.stop) ∧
    (lex source).Pairwise fun a b => a.stop ≤ b.start := by
  obtain ⟨hts, hpair⟩ := lexFrom_ordered (lex source) rfl
  exact ⟨fun t ht => (hts t ht).2, hpair⟩

/-- No comment begins in these bytes. -/
def Uncommented (source : List Char) (a b : Nat) : Prop :=
  ∀ t ∈ lex source, t.cls = .comment → ¬(a ≤ t.start ∧ t.start < b)

instance (source : List Char) (a b : Nat) : Decidable (Uncommented source a b) :=
  inferInstanceAs (Decidable (∀ t ∈ _, _))

/-- The code between two tokens, where no comment stands. -/
lemma slice_code {pre post : List Token} (h : codeTokens source = pre ++ (t :: us) ++ post)
    (hl : (t :: us).getLast? = some last) (hu : Uncommented source t.start last.stop) :
    ∃ body, slice source t.start last.stop = String.ofList body ∧ Laid (t :: us) body := by
  obtain ⟨before, stretch, after, hlex, hfilter, hlast⟩ := filter_eq_stretch h
  obtain ⟨hlt, hpair⟩ := lex_ordered source
  have hmem {v : Token} (hv : v ∈ t :: stretch) : v ∈ lex source := by
    rw [hlex]
    simp only [mem_append]
    exact .inl (.inr hv)
  rw [hlex, append_assoc, pairwise_append] at hpair
  have hinner := (pairwise_append.mp hpair.2.1).1
  have hcode : ∀ v ∈ t :: stretch, (!(v.cls == .comment)) = true := by
    intro v hv
    by_contra hc
    refine hu v (hmem hv) (by simpa using hc) ⟨?_, ?_⟩
    · rcases mem_cons.mp hv with rfl | hv
      · exact Nat.le_refl _
      · have hle := (pairwise_cons.mp hinner).1 v hv
        have htt := hlt t (hmem mem_cons_self)
        omega
    · have hvv := hlt v (hmem hv)
      rw [hl] at hlast
      obtain ⟨others, hothers⟩ := getLast?_eq_some_iff.mp hlast
      rw [hothers] at hv hinner
      rcases mem_append.mp hv with hv | hv
      · have hle := (pairwise_append.mp hinner).2.2 v hv last (by simp)
        have hll := hlt last (hmem (by rw [hothers]; simp))
        omega
      · obtain rfl := mem_singleton.mp hv
        exact hvv
  rw [filter_eq_self.mpr hcode] at hfilter
  obtain rfl : stretch = us := (cons.inj hfilter).2
  exact slice_laid hlex hl

/-- A text that reads like one word is one token. -/
lemma Laid.eq_nil_of_word {body : List Char} (h : Laid (t :: us) body) (ht : t ∈ lex source)
    (hus : ∀ u ∈ us, u.spelling.toList ≠ [])
    (hstart : ∀ c ∈ body.head?, isIdentifierStart c = true)
    (hpart : ∀ c ∈ body, isIdentifierPart c = true) : us = [] := by
  obtain ⟨splices, rest, htoken⟩ := tokenAt_of_mem_lex ht
  obtain ⟨c, cs, hspell⟩ := exists_cons_of_ne_nil htoken.ne_nil
  cases h with
  | one => rfl
  | @cons _ u us gap body _ _ _ hword hlaid =>
    have hcls : t.cls = .word := by
      refine htoken.cls_eq_word (by rw [hspell]; rfl) (hstart c ?_)
      rw [hspell]
      rfl
    have hne : body ≠ [] := hlaid.ne_nil fun v hv => hus v hv
    obtain ⟨d, hd⟩ : ∃ d, d ∈ (gap ++ body).head? :=
      ⟨(gap ++ body).head (by simp [hne]), head_mem_head? _⟩
    have hends := hword hcls d hd
    rw [hpart d] at hends
    · cases hends
    · rw [append_assoc]
      exact mem_append_right _ (mem_of_mem_head? hd)

end Texts

/-- Types that are written alike but for white space. -/
structure SameType (a b : String) : Prop where
  squeeze_eq : squeeze a.toList = squeeze b.toList
  var_iff : a = "var" ↔ b = "var"

section Pairs

variable {source source' : List Char} {p q : TokenPair → Token} {z w : TokenPair}

lemma stretch_or_reversed (hz : z ∈ zs) (hw : w ∈ zs) :
    (∃ pre us post, zs = pre ++ (z :: us) ++ post ∧ (z :: us).getLast? = some w) ∨
      ∃ pre mid post, zs = pre ++ (w :: mid) ++ z :: post := by
  obtain ⟨pre, post, rfl⟩ := append_of_mem hz
  rcases mem_append.mp hw with hw | hw
  · obtain ⟨before, mid, rfl⟩ := append_of_mem hw
    exact .inr ⟨before, mid, post, rfl⟩
  · rcases mem_cons.mp hw with rfl | hw
    · exact .inl ⟨pre, [], post, by simp, rfl⟩
    · obtain ⟨mid, after, rfl⟩ := append_of_mem hw
      exact .inl ⟨pre, mid ++ [w], after, by simp, by simp [getLast?_cons]⟩

lemma slice_stretch {pre us post : List TokenPair} (hp : zs.map p = codeTokens source)
    (h : zs = pre ++ (z :: us) ++ post) (hl : (z :: us).getLast? = some w)
    (hu : Uncommented source (p z).start (p w).stop) :
    ∃ body, slice source (p z).start (p w).stop = String.ofList body ∧
      Laid ((z :: us).map p) body := by
  rw [h, map_append, map_append, map_cons] at hp
  have hlast : (p z :: us.map p).getLast? = some (p w) := by
    rw [← map_cons, getLast?_map, hl]
    rfl
  exact slice_code hp.symm hlast hu

lemma slice_reversed {pre mid post : List TokenPair} (hp : zs.map p = codeTokens source)
    (h : zs = pre ++ (w :: mid) ++ z :: post) : slice source (p z).start (p w).stop = "" := by
  have hpair := (lex_ordered source).2.filter fun t => !(t.cls == .comment)
  change (codeTokens source).Pairwise _ at hpair
  rw [← hp, h, map_append, pairwise_append] at hpair
  have hle : (p w).stop ≤ (p z).start := hpair.2.2 (p w) (by simp) (p z) (by simp)
  rw [slice, sliceBytes, Nat.sub_eq_zero_of_le hle, takeBytes]

lemma mem_lex (hp : zs.map p = codeTokens source) (hz : z ∈ zs) : p z ∈ lex source := by
  have hmem : p z ∈ codeTokens source := hp ▸ mem_map_of_mem hz
  exact mem_of_mem_filter hmem

variable (hp : zs.map p = codeTokens source) (hq : zs.map q = codeTokens source')
variable (hspell : ∀ z ∈ zs, (p z).spelling = (q z).spelling) (hz : z ∈ zs) (hw : w ∈ zs)
variable (hu : Uncommented source (p z).start (p w).stop)
variable (hu' : Uncommented source' (q z).start (q w).stop)
include hp hq hspell hz hw hu hu'

lemma squeeze_slice_eq : squeeze (slice source (p z).start (p w).stop).toList =
    squeeze (slice source' (q z).start (q w).stop).toList := by
  rcases stretch_or_reversed hz hw with ⟨pre, us, post, h, hl⟩ | ⟨pre, mid, post, h⟩
  · obtain ⟨body, hslice, hlaid⟩ := slice_stretch hp h hl hu
    obtain ⟨body', hslice', hlaid'⟩ := slice_stretch hq h hl hu'
    rw [hslice, hslice', String.toList_ofList, String.toList_ofList, hlaid.squeeze_eq,
      hlaid'.squeeze_eq, flatMap_map, flatMap_map]
    refine flatMap_congr fun v hv => ?_
    rw [hspell v]
    rw [h]
    simp only [mem_append]
    exact .inl (.inr hv)
  · rw [slice_reversed hp h, slice_reversed hq h]

lemma slice_eq_var (hvar : slice source (p z).start (p w).stop = "var") :
    slice source' (q z).start (q w).stop = "var" := by
  rcases stretch_or_reversed hz hw with ⟨pre, us, post, h, hl⟩ | ⟨pre, mid, post, h⟩
  · obtain ⟨body, hslice, hlaid⟩ := slice_stretch hp h hl hu
    have hbody : body = ['v', 'a', 'r'] := by
      rw [hslice] at hvar
      simpa using congrArg String.toList hvar
    have hmem {v : TokenPair} (hv : v ∈ us) : v ∈ zs := by
      rw [h]
      simp [hv]
    rw [map_cons] at hlaid
    have hnil : us.map p = [] := by
      refine hlaid.eq_nil_of_word (mem_lex hp hz) (fun u hu => ?_) ?_ ?_
      · obtain ⟨v, hv, rfl⟩ := mem_map.mp hu
        obtain ⟨_, _, htoken⟩ := tokenAt_of_mem_lex (mem_lex hp (hmem hv))
        exact htoken.ne_nil
      · rw [hbody]
        intro c hc
        obtain rfl : 'v' = c := Option.some.inj hc
        decide +kernel
      · rw [hbody, ← all_eq_true]
        decide +kernel
    obtain rfl : us = [] := map_eq_nil_iff.mp hnil
    obtain rfl : z = w := by simpa using hl
    rw [slice_token (mem_lex hp hz)] at hvar
    rw [slice_token (mem_lex hq hz), ← hspell z hz, hvar]
  · rw [slice_reversed hp h] at hvar
    simp at hvar

end Pairs

/-- Between corresponding tokens, with no comment there, stand types that are written alike. -/
lemma Spans.sameType {source source' : List Char} {a b a' b' : Nat} (h : Spans zs a b a' b')
    (hm : Matched zs) (hs : zs.map Prod.fst = codeTokens source)
    (hs' : zs.map Prod.snd = codeTokens source') (hu : Uncommented source a b)
    (hu' : Uncommented source' a' b') : SameType (slice source a b) (slice source' a' b') := by
  obtain ⟨z, hz, rfl, rfl⟩ := h.first
  obtain ⟨w, hw, rfl, rfl⟩ := h.last
  have hspell : ∀ z ∈ zs, z.1.spelling = z.2.spelling := fun z hz => by
    obtain ⟨pre, post, hsplit⟩ := append_of_mem hz
    exact (hm.suffix ⟨pre, hsplit.symm⟩).cons.2.1
  exact ⟨squeeze_slice_eq hs hs' hspell hz hw hu hu', slice_eq_var hs hs' hspell hz hw hu hu',
    slice_eq_var hs' hs (fun z hz => (hspell z hz).symm) hz hw hu' hu⟩

end JavaAtlas.Syntax
