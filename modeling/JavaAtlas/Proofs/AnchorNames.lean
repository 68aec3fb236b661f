import JavaAtlas.Proofs.ErasedNames
import JavaAtlas.Proofs.PlacedMatches

/-! Uses stand at the name of what they mean. The place of a use is found by going down the tree, and the
name by erasing the text of the whole type; the two agree where nothing but white space stands between the
last point and the name, and the erasure meets no stray angle bracket. -/

namespace JavaAtlas.Syntax

open List Text

section Weaving

variable {n m : Node} {ns : List Node} {cm : List Token}

/-- Chosen nodes of a woven list are those of the list, woven. -/
lemma filter_weaveList {p : Node → Bool} (hleaf : ∀ t : Token, p (t.leaf .comment) = false)
    (hweave : ∀ (n : Node) cs, p (n.weave cs) = p n) (cm : List Token) (ns : List Node) :
    Forall₂ (fun m n => ∃ cs, m = Node.weave cs n) ((Node.weaveList cm ns).filter p) (ns.filter p) := by
  have hleaves (ts : List Token) : (ts.map (·.leaf .comment)).filter p = [] :=
    filter_eq_nil_iff.mpr fun m hm => by
      obtain ⟨t, -, rfl⟩ := mem_map.mp hm
      simp [hleaf t]
  induction ns generalizing cm with
  | nil => rw [Node.weaveList, hleaves]; exact .nil
  | cons n ns ih =>
    rw [Node.weaveList, filter_append, hleaves, nil_append, filter_cons, filter_cons, hweave]
    split
    · exact .cons ⟨_, rfl⟩ (ih _)
    · exact ih _

lemma find?_weaveList {p : Node → Bool} (hleaf : ∀ t : Token, p (t.leaf .comment) = false)
    (hweave : ∀ (n : Node) cs, p (n.weave cs) = p n) (h : ns.find? p = some n) (cm : List Token) :
    ∃ cs, (Node.weaveList cm ns).find? p = some (n.weave cs) := by
  have hfilter := filter_weaveList hleaf hweave cm ns
  rw [← head?_filter] at h ⊢
  obtain ⟨rest, hrest⟩ := head?_eq_some_iff.mp h
  rw [hrest] at hfilter
  obtain ⟨m, ms, ⟨cs, rfl⟩, -, heq⟩ := forall₂_cons_right_iff.mp hfilter
  exact ⟨cs, by rw [heq]; rfl⟩

lemma reverse_find?_weaveList {p : Node → Bool} (hleaf : ∀ t : Token, p (t.leaf .comment) = false)
    (hweave : ∀ (n : Node) cs, p (n.weave cs) = p n) (h : ns.reverse.find? p = some n)
    (cm : List Token) : ∃ cs, (Node.weaveList cm ns).reverse.find? p = some (n.weave cs) := by
  have hfilter := forall₂_reverse_iff.mpr (filter_weaveList hleaf hweave cm ns)
  rw [← filter_reverse, ← filter_reverse] at hfilter
  rw [← head?_filter] at h ⊢
  obtain ⟨rest, hrest⟩ := head?_eq_some_iff.mp h
  rw [hrest] at hfilter
  obtain ⟨m, ms, ⟨cs, rfl⟩, -, heq⟩ := forall₂_cons_right_iff.mp hfilter
  exact ⟨cs, by rw [heq]; rfl⟩

lemma exists_weave_mem (h : n ∈ ns) (cm : List Token) : ∃ cs, n.weave cs ∈ Node.weaveList cm ns := by
  induction ns generalizing cm with
  | nil => cases h
  | cons m ns ih =>
    rw [Node.weaveList]
    rcases mem_cons.mp h with rfl | h
    · exact ⟨_, mem_append_right _ mem_cons_self⟩
    · obtain ⟨cs, hcs⟩ := ih h _
      exact ⟨cs, mem_append_right _ (mem_cons_of_mem _ hcs)⟩

lemma forall₂_weaveList (h : ∀ m ∈ Node.weaveList cm ns, m.kind ≠ .comment) :
    Forall₂ (fun m n => ∃ cs, m = Node.weave cs n) (Node.weaveList cm ns) ns := by
  have hall : ∀ n ∈ ns, n.kind ≠ .comment := fun n hn => by
    obtain ⟨cs, hcs⟩ := exists_weave_mem hn cm
    exact kind_weave cs n ▸ h _ hcs
  have hf := filter_weaveList (p := (·.kind != .comment)) (fun _ => rfl)
    (fun n cs => by rw [kind_weave]) cm ns
  rwa [filter_eq_self.mpr fun m hm => by simpa using h m hm,
    filter_eq_self.mpr fun n hn => by simpa using hall n hn] at hf

lemma everywhere_of_weave {test : Node → Bool} (hweave : ∀ (n : Node) cs, test (n.weave cs) = test n)
    (h : (n.weave cm).everywhere test = true) : n.everywhere test = true := by
  induction n using Node.induct generalizing cm with
  | _ n ih =>
    obtain ⟨hn, hc⟩ := (Node.everywhere_iff test _).mp h
    refine (Node.everywhere_iff test n).mpr ⟨hweave n cm ▸ hn, fun c hmem => ?_⟩
    rw [weave_eq] at hc
    obtain ⟨cs, hcs⟩ := exists_weave_mem hmem cm
    exact ih c hmem (hc _ hcs)

end Weaving

section Runs

variable {source : List Char} {n m : Node} {us vs : List Token}

lemma Uncommented.mono {a b c d : Nat} (h : Uncommented source a b) (ha : a ≤ c) (hb : d ≤ b) :
    Uncommented source c d :=
  fun t ht hc hin => h t ht hc ⟨ha.trans hin.1, hin.2.trans_le hb⟩

lemma Tiled.span_mono (h : Tiled n us) (h' : Tiled m vs) (hus : us <:+: codeTokens source)
    (hvs : vs <:+: us) : n.start ≤ m.start ∧ m.stop ≤ n.stop := by
  obtain ⟨⟨t, ht, hstart⟩, u, hu, hstop⟩ := h.span
  obtain ⟨⟨t', ht', hstart'⟩, u', hu', hstop'⟩ := h'.span
  have hmem {v : Token} (hv : v ∈ us) : v.start < v.stop :=
    (lex_ordered source).1 v (mem_of_mem_filter (hus.subset hv))
  have hpair : us.Pairwise fun a b => a.stop ≤ b.start :=
    ((lex_ordered source).2.filter _).sublist hus.sublist
  rw [hstart, hstart', hstop, hstop']
  constructor
  · obtain ⟨rest, rfl⟩ := head?_eq_some_iff.mp ht
    rcases mem_cons.mp (hvs.subset (mem_of_mem_head? ht')) with rfl | hrest
    · exact le_rfl
    · exact (hmem mem_cons_self).le.trans ((pairwise_cons.mp hpair).1 _ hrest)
  · obtain ⟨front, rfl⟩ := getLast?_eq_some_iff.mp hu
    rcases mem_append.mp (hvs.subset (mem_of_getLast? hu')) with hfront | hlast
    · have hle := (pairwise_append.mp hpair).2.2 _ hfront u (by simp)
      exact hle.trans (hmem (by simp)).le
    · rw [mem_singleton.mp hlast]

lemma Laid.spelling_subset {body : List Char} (h : Laid us body) {t : Token} (ht : t ∈ us) :
    t.spelling.toList ⊆ body := by
  induction h with
  | one u =>
    rw [mem_singleton.mp ht]
    exact Subset.refl _
  | @cons u v us gap body _ _ _ _ _ ih =>
    rcases mem_cons.mp ht with rfl | ht
    · exact fun c hc => mem_append_left _ (mem_append_left _ hc)
    · exact fun c hc => mem_append_right _ (ih ht hc)

end Runs

end JavaAtlas.Syntax

namespace JavaAtlas.Outline

open Syntax Text List

section Words

variable {s : String}

lemma isKept_of_isWord (h : IsWord s) : ∀ c ∈ s.toList, isKept c = true :=
  fun _ hc => isKept_of_isIdentifier (h.isIdentifier hc)

lemma squeeze_of_isWord (h : IsWord s) : squeeze s.toList = s.toList :=
  filter_eq_self.mpr fun c hc => by
    have hkept := isKept_of_isWord h c hc
    simp only [isKept, Bool.and_eq_true] at hkept
    exact hkept.2

lemma afterLast_erase_of_isWord (h : IsWord s) : afterLast '.' (eraseType s) = s := by
  have hpoint : '.' ∉ s.toList := fun hmem => absurd (isKept_of_isWord h _ hmem) (by decide)
  have hwhole : s.toList.reverse.dropWhile (· == '.') = s.toList.reverse := by
    rw [dropWhile_eq_self_iff]
    intro hpos heq
    exact hpoint (mem_reverse.mp (eq_of_beq heq ▸ getElem_mem hpos))
  rw [eraseType, eraseFrom_kept (isKept_of_isWord h), append_nil, hwhole, reverse_reverse,
    String.ofList_toList, afterLast_of_not_mem hpoint]

end Words

section Texts

variable {source : List Char} {n m : Node} {us vs : List Token} {xs : List Tile}

/-- The characters of the tokens, without white space. -/
def spelt (us : List Token) : List Char := us.flatMap fun t => squeeze t.spelling.toList

@[simp] lemma spelt_append : spelt (us ++ vs) = spelt us ++ spelt vs := flatMap_append

@[simp] lemma spelt_cons (t : Token) : spelt (t :: us) = squeeze t.spelling.toList ++ spelt us :=
  flatMap_cons

@[simp] lemma spelt_nil : spelt [] = [] := rfl

lemma spelt_tokensOf (xs : List Tile) : spelt (tokensOf xs) = xs.flatMap fun x => spelt x.2 :=
  flatMap_assoc

lemma textIn_weave (source : List Char) (n : Node) (cm : List Token) :
    textIn source (n.weave cm) = textIn source n := by
  rw [weave_eq]
  rfl

/-- No annotation in the node has an angle bracket. -/
def PlainMarks (source : List Char) (n : Node) : Prop :=
  n.everywhere (fun m => !annotationKinds.contains m.kind || bracketless (textIn source m).toList) = true

instance : Decidable (PlainMarks source n) := inferInstanceAs (Decidable (_ = true))

lemma PlainMarks.self (h : PlainMarks source n) (hk : n.kind ∈ annotationKinds) :
    bracketless (textIn source n).toList = true := by
  have hself := ((Node.everywhere_iff _ n).mp h).1
  simpa [hk] using hself

lemma PlainMarks.child (h : PlainMarks source n) (hm : m ∈ n.children) : PlainMarks source m :=
  ((Node.everywhere_iff _ n).mp h).2 m hm

lemma PlainMarks.of_weave {cm : List Token} (h : PlainMarks source (n.weave cm)) :
    PlainMarks source n :=
  everywhere_of_weave (fun m cs => by rw [kind_weave, textIn_weave]) h

/-- The node covers a run of code with no comment in it and no angle bracket in its annotations. -/
structure PlainRun (source : List Char) (n : Node) (us : List Token) : Prop where
  tiled : Tiled n us
  run : us <:+: codeTokens source
  uncommented : Uncommented source n.start n.stop
  marks : PlainMarks source n

namespace PlainRun

lemma part {kind : Kind} {slot : Option Slot} {start stop : Nat}
    (h : PlainRun source (.mk kind slot start stop (nodesOf xs)) (tokensOf xs)) {x : Tile}
    (hx : x ∈ xs) (htiled : Tiled x.1 x.2) : PlainRun source x.1 x.2 := by
  have hrun : x.2 <:+: tokensOf xs := infix_tokensOf hx
  obtain ⟨ha, hb⟩ := h.tiled.span_mono htiled h.run hrun
  exact ⟨htiled, hrun.trans h.run, h.uncommented.mono ha hb, h.marks.child (mem_map_of_mem hx)⟩

lemma exists_laid (h : PlainRun source n us) :
    ∃ body, textIn source n = String.ofList body ∧ Laid us body := by
  obtain ⟨⟨t, ht, hstart⟩, last, hlast, hstop⟩ := h.tiled.span
  obtain ⟨rest, rfl⟩ := head?_eq_some_iff.mp ht
  obtain ⟨pre, post, hcode⟩ := h.run
  have hu := h.uncommented
  rw [hstart, hstop] at hu
  rw [textIn, hstart, hstop]
  exact slice_code hcode.symm hlast hu

lemma eraseType_text (h : PlainRun source n us) :
    eraseType (textIn source n) = String.ofList (eraseFrom 0 [] (spelt us)) := by
  obtain ⟨body, htext, hlaid⟩ := h.exists_laid
  rw [htext, eraseType, String.toList_ofList, ← eraseFrom_squeeze, hlaid.squeeze_eq]
  rfl

lemma bracketless_of_mark (h : PlainRun source n us) (hk : n.kind ∈ annotationKinds) :
    ∀ t ∈ us, t.Bracketless := by
  obtain ⟨body, htext, hlaid⟩ := h.exists_laid
  have hbody := h.marks.self hk
  rw [htext, String.toList_ofList] at hbody
  exact fun t ht => all_eq_true.mpr fun c hc => all_eq_true.mp hbody c (hlaid.spelling_subset ht hc)

end PlainRun

lemma balanced_of_bracketless (h : ∀ t ∈ us, t.Bracketless) : Balanced (spelt us) :=
  .flatMap fun t ht => .of_bracketless (all_eq_true.mpr fun c hc =>
    all_eq_true.mp (h t ht) c (mem_of_mem_filter hc))

lemma spelt_one {t : Token} {text : String} (h : t.spelling = text)
    (htext : squeeze text.toList = text.toList) : spelt [t] = text.toList := by
  rw [spelt_cons, h, htext, spelt_nil, append_nil]

lemma spelt_arguments {l g : Node} {t u : Token} (ht : t.spelling = "<") (hu : u.spelling = ">") :
    spelt (tokensOf ((l, [t]) :: xs ++ [(g, [u])])) =
      '<' :: (xs.flatMap fun x => spelt x.2) ++ ['>'] := by
  rw [spelt_tokensOf, flatMap_append, flatMap_cons, flatMap_singleton, spelt_one ht (by decide),
    spelt_one hu (by decide)]
  rfl

lemma PlainRun.balanced (h : PlainRun source n us) (hq : SelfContained (n, us)) : Balanced (spelt us) := by
  induction n using Node.induct generalizing us with
  | _ n ih =>
    rcases hq with hpart | hmark | hless
    -- only type arguments bring angle brackets of their own, one pair around the rest
    · cases h.tiled with
      | leaf _ _ _ hleaf => exact absurd hpart hleaf.not_part
      | @node kind slot start stop xs hne hstart hstop htiles hshape hword =>
        have hinner (x : Tile) (hx : x ∈ xs) (hxq : SelfContained x) : Balanced (spelt x.2) :=
          ih x.1 (mem_map_of_mem hx) (h.part hx (htiles x hx)) hxq
        cases hshape with
        | other hno => exact absurd hpart hno
        | closed _ _ hall =>
          rw [spelt_tokensOf]
          exact .flatMap fun x hx => hinner x hx (hall x hx)
        | arguments ht hu hall =>
          rw [spelt_arguments ht hu]
          exact .brackets (.flatMap fun x hx => hinner x (by simp [hx]) (hall x hx))
        | @pointed _ xs q point name marks t w hp =>
          have hpoint : t.Bracketless := by rw [Token.Bracketless, hp.spelled]; decide
          have hname := bracketless_of_isWord hp.word
          rw [spelt_tokensOf]
          refine .flatMap fun x hx => hinner x hx ?_
          simp only [hp.tiles, mem_append, mem_cons, not_mem_nil, or_false] at hx
          rcases hx with (rfl | rfl | hx) | rfl
          · exact hp.selfContained
          · exact .inr (.inr (by simpa using hpoint))
          · exact .inr (.inl (hp.annotations x hx))
          · exact .inr (.inr (by simpa using hname))
    · exact balanced_of_bracketless (h.bracketless_of_mark hmark)
    · exact balanced_of_bracketless hless

lemma PlainRun.arguments (h : PlainRun source n us) (hk : n.kind = .typeArguments) :
    ∃ cs, Balanced cs ∧ spelt us = '<' :: cs ++ ['>'] := by
  cases h.tiled with
  | @leaf kind _ _ _ _ _ _ _ hleaf =>
    obtain rfl : kind = .typeArguments := hk
    exact absurd (by decide) hleaf.not_part
  | @node kind slot start stop xs hne hstart hstop htiles hshape hword =>
    obtain rfl : kind = .typeArguments := hk
    cases hshape with
    | other hno => exact absurd (by decide) hno
    | closed _ hno => exact absurd rfl hno
    | @arguments l g t u xs ht hu hall =>
      refine ⟨_, .flatMap fun x hx => ?_, spelt_arguments ht hu⟩
      have hmem : x ∈ (l, [t]) :: xs ++ [(g, [u])] := by simp [hx]
      exact (h.part hmem (htiles x hmem)).balanced (hall x hx)
    | pointed hp =>
      rcases hp.named with ⟨hno, -⟩ | ⟨hno, -⟩ <;> cases hno

end Texts

section Names

variable {source : List Char} {n : Node} {us : List Token} {xs : List Tile} {cm : List Token}

/-- No annotation stands right before the last part of the name. -/
def Unmarked (n : Node) : Prop := ∀ c ∈ n.children, c.kind ∉ annotationKinds

instance : DecidablePred Unmarked := fun n => inferInstanceAs (Decidable (∀ _ ∈ n.children, _))

def IsGenericName : List Node → Prop
  | [head, arguments] => (head.kind = .typeIdentifier ∨ head.kind = .scopedType ∧ Unmarked head) ∧
      arguments.kind = .typeArguments
  | _ => False

instance : DecidablePred IsGenericName
  | [_, _] => inferInstanceAs (Decidable (_ ∧ _))
  | [] | [_] | _ :: _ :: _ :: _ => isFalse id

/-- The type is one word, or a name of several parts with no comment in it, with no annotation right
before the last part, and with no angle bracket in the annotations it has elsewhere. -/
def PlainlyWritten (source : List Char) (n : Node) : Prop :=
  n.kind ∈ oneWordKinds ∨
    (n.kind = .scopedType ∧ Unmarked n ∨ n.kind = .genericType ∧ IsGenericName n.children) ∧
      Uncommented source n.start n.stop ∧ PlainMarks source n

instance : Decidable (PlainlyWritten source n) := inferInstanceAs (Decidable (_ ∨ _))

lemma anchorOf_woven {parts : List Node} {name : Node} (hk : n.kind = .scopedType)
    (hn : n.children = Node.weaveList cm (parts ++ [name])) (hname : name.kind = .typeIdentifier) :
    ∃ cs, anchorOf n = name.weave cs := by
  have hlast : (parts ++ [name]).reverse.find? (·.kind == .typeIdentifier) = some name := by
    rw [reverse_append, reverse_singleton, singleton_append, find?_cons_of_pos (by simp [hname])]
  obtain ⟨cs, hcs⟩ := reverse_find?_weaveList (fun _ => rfl)
    (fun m cs => by rw [kind_weave]) hlast cm
  have hnamed : n.named.reverse.find? (·.kind == .typeIdentifier) = some (name.weave cs) := by
    rw [Node.named, ← filter_reverse, find?_filter, hn, ← hcs]
    congr 1
    funext c
    by_cases hc : c.kind = .typeIdentifier <;> simp [hc]
  exact ⟨cs, by rw [← typeAnchor_eq_anchorOf (Nat.le_succ n.height), typeAnchor, hk]; simp [hnamed]⟩

lemma child?_woven {parts : List Node} {name : Node} {slot : Slot}
    (hn : n.children = Node.weaveList cm (parts ++ [name])) (hname : name.slot? = some slot)
    (hparts : ∀ c ∈ parts, c.slot? ≠ some slot) : ∃ cs, n.child? slot = some (name.weave cs) := by
  have hfirst : (parts ++ [name]).find? (·.slot? == some slot) = some name := by
    rw [find?_append, find?_eq_none.mpr fun c hc => by simpa using hparts c hc]
    simp [hname]
  rw [Node.child?, hn]
  exact find?_weaveList (fun _ => rfl) (fun m cs => by rw [weave_eq]; rfl) hfirst cm

lemma textIn_word {w : Token} (h : Tiled n [w]) (hw : w ∈ Syntax.lex source) :
    textIn source n = w.spelling := by
  obtain ⟨⟨v, hv, hstart⟩, v', hv', hstop⟩ := h.span
  obtain rfl : w = v := by simpa using hv
  obtain rfl : w = v' := by simpa using hv'
  rw [textIn, hstart, hstop, slice_token hw]

lemma inside_word (h : Inside source n) (hk : n.kind ∈ oneWordKinds) :
    IsWord (textIn source n) ∧ (n.kind = .thisName → textIn source n = "this") := by
  cases h with
  | comment => exact absurd hk (by simp [oneWordKinds, Token.leaf, Node.kind])
  | @code n us cm ht hus hcm =>
    rw [kind_weave] at hk
    rw [kind_weave, textIn_weave]
    obtain ⟨w, rfl, hword, hthis⟩ := ht.word hk
    rw [textIn_word ht (mem_of_mem_filter (hus.subset mem_cons_self))]
    exact ⟨hword, hthis⟩

lemma exists_plainRun (h : Inside source n) (hk : n.kind ≠ .comment)
    (hu : Uncommented source n.start n.stop) (hm : PlainMarks source n) :
    ∃ m us cm, n = Node.weave cm m ∧ PlainRun source m us := by
  cases h with
  | comment => exact absurd rfl hk
  | @code m us cm ht hus hcm =>
    rw [weave_eq] at hu
    exact ⟨m, us, cm, rfl, ht, hus, hu, hm.of_weave⟩

lemma exists_pointed (h : Tiled n us) (hk : n.kind ∈ pointedKinds) :
    ∃ xs q point name marks t w, us = tokensOf xs ∧ n.children = nodesOf xs ∧
      (∀ x ∈ xs, Tiled x.1 x.2) ∧ Pointed n.kind xs q point name marks t w := by
  have hpart : n.kind ∈ typeParts := by
    revert hk
    cases n.kind <;> decide
  cases h with
  | leaf _ _ _ hleaf => exact absurd hpart hleaf.not_part
  | node hne hstart hstop htiles hshape hword =>
    cases hshape with
    | other hno => exact absurd hpart hno
    | closed hno => exact absurd hk hno
    | arguments => exact absurd hk (by simp [pointedKinds, Node.kind])
    | pointed hp => exact ⟨_, _, _, _, _, _, _, rfl, rfl, htiles, hp⟩

lemma PlainRun.afterLast_erase {q : Tile} {point name : Node} {t w : Token}
    (h : PlainRun source n (tokensOf xs)) (hn : n.children = nodesOf xs)
    (htiles : ∀ x ∈ xs, Tiled x.1 x.2) (hp : Pointed n.kind xs q point name [] t w) :
    afterLast '.' (eraseType (textIn source n)) = textIn source name := by
  obtain rfl : xs = [q, (point, [t]), (name, [w])] := hp.tiles
  have hspelt : spelt (tokensOf [q, (point, [t]), (name, [w])]) =
      spelt q.2 ++ '.' :: w.spelling.toList := by
    simp only [tokensOf_cons, spelt_append, spelt_one hp.spelled (by decide),
      spelt_one rfl (squeeze_of_isWord hp.word)]
    simp [tokensOf]
  have hbalanced : Balanced (spelt q.2) := by
    obtain ⟨kind, slot, start, stop, children⟩ := n
    obtain rfl : children = nodesOf _ := hn
    exact (h.part (by simp) (htiles q (by simp))).balanced hp.selfContained
  have hword : w ∈ Syntax.lex source := mem_of_mem_filter (h.run.subset (by simp [tokensOf]))
  rw [h.eraseType_text, hspelt, afterLast_erase_pointed hbalanced (isKept_of_isWord hp.word)
    hp.word.ne_nil, String.ofList_toList, textIn_word (htiles (name, [w]) (by simp)) hword]

lemma marks_eq_nil {q : Tile} {point name : Node} {marks : List Tile} {t w : Token}
    (hp : Pointed n.kind xs q point name marks t w) (hn : n.children = nodesOf xs)
    (hb : n.kind = .scopedType → Unmarked (n.weave cm)) : marks = [] := by
  rcases hp.named with ⟨hscoped, -⟩ | ⟨-, -, hnone⟩
  · refine eq_nil_iff_forall_not_mem.mpr fun a ha => ?_
    have hmem : a.1 ∈ n.children := hn ▸ mem_map_of_mem (by simp [hp.tiles, ha])
    obtain ⟨cs, hcs⟩ := exists_weave_mem hmem cm
    have hwoven : a.1.weave cs ∈ (n.weave cm).children := by
      rw [weave_eq]
      exact hcs
    exact hb hscoped _ hwoven (kind_weave cs a.1 ▸ hp.annotations a ha)
  · exact hnone

lemma pointed_named (h : Inside source n) (hk : n.kind ∈ pointedKinds)
    (hb : n.kind = .scopedType → Unmarked n)
    (hu : Uncommented source n.start n.stop) (hm : PlainMarks source n) :
    ∃ name, afterLast '.' (eraseType (textIn source n)) = textIn source name ∧
      (n.kind = .scopedType → anchorOf n = name) ∧
      (n.kind = .scopedIdentifier → n.child? .name = some name) := by
  have hcomment : n.kind ≠ .comment := fun hc => absurd (hc ▸ hk) (by decide)
  -- with no comment in the node its text is that of the code, whatever is woven in
  obtain ⟨m, us, cm, rfl, hrun⟩ := exists_plainRun h hcomment hu hm
  rw [kind_weave] at hk hb ⊢
  obtain ⟨xs, q, point, name, marks, t, w, rfl, hnodes, htiles, hp⟩ := exists_pointed hrun.tiled hk
  obtain rfl := marks_eq_nil hp hnodes hb
  have hn : (m.weave cm).children = Node.weaveList cm ([q.1, point] ++ [name]) := by
    have hxs : m.children = [q.1, point] ++ [name] := hnodes.trans (by rw [hp.tiles]; rfl)
    rw [weave_eq, ← hxs]
    rfl
  rw [textIn_weave, hrun.afterLast_erase hnodes htiles hp]
  rcases hp.named with ⟨hk, hnamed⟩ | ⟨hk, hnamed, -⟩
  · obtain ⟨cs, hcs⟩ := anchorOf_woven ((kind_weave cm m).trans hk) hn hnamed
    exact ⟨name.weave cs, (textIn_weave ..).symm, fun _ => hcs, fun hno => by simp [hk] at hno⟩
  · obtain ⟨cs, hcs⟩ := child?_woven hn hnamed fun c hc => by
      rcases mem_pair.mp hc with rfl | rfl
      · simp [hp.unslotted.1]
      · simp [hp.unslotted.2]
    exact ⟨name.weave cs, (textIn_weave ..).symm, fun hno => by simp [hk] at hno, fun _ => hcs⟩

lemma pair_of_weaveList {ns : List Node} {a b : Node} (h : Node.weaveList cm ns = [a, b])
    (ha : a.kind ≠ .comment) (hb : b.kind ≠ .comment) :
    ∃ c d cs cs', ns = [c, d] ∧ a = c.weave cs ∧ b = d.weave cs' := by
  have hcode : ∀ m ∈ Node.weaveList cm ns, m.kind ≠ .comment := fun m hm => by
    rw [h] at hm
    rcases mem_pair.mp hm with rfl | rfl
    · exact ha
    · exact hb
  have hparts := forall₂_weaveList hcode
  rw [h] at hparts
  obtain ⟨c, rest, ⟨cs, rfl⟩, hrest, rfl⟩ := forall₂_cons_left_iff.mp hparts
  obtain ⟨d, none, ⟨cs', rfl⟩, hnone, rfl⟩ := forall₂_cons_left_iff.mp hrest
  obtain rfl := forall₂_nil_left_iff.mp hnone
  exact ⟨c, d, cs, cs', rfl, rfl, rfl⟩

/-- Type arguments change nothing about the name before them. -/
lemma PlainRun.generic_erased {head arguments : Node} (h : PlainRun source n us)
    (hn : n.children = [head, arguments]) (ha : arguments.kind = .typeArguments) :
    Uncommented source head.start head.stop ∧
      eraseType (textIn source n) = eraseType (textIn source head) := by
  cases h.tiled with
  | leaf => cases hn
  | @node kind slot start stop xs hne hstart hstop htiles hshape hword =>
    obtain ⟨x, ys, rfl, rfl, hys⟩ := map_eq_cons_iff.mp hn
    obtain ⟨y, zs, rfl, rfl, hzs⟩ := map_eq_cons_iff.mp hys
    obtain rfl := map_eq_nil_iff.mp hzs
    have hx : PlainRun source x.1 x.2 := h.part mem_cons_self (htiles x mem_cons_self)
    have hy : PlainRun source y.1 y.2 := h.part (by simp) (htiles y (by simp))
    obtain ⟨cs, hcs, hspelt⟩ := hy.arguments ha
    have hnone (depth : Nat) (kept : List Char) :
        eraseFrom depth kept (spelt y.2) = eraseFrom depth kept [] := by
      rw [hspelt]
      exact eraseFrom_brackets hcs []
    have hall : spelt (tokensOf [x, y]) = spelt x.2 ++ spelt y.2 := by simp [tokensOf]
    refine ⟨hx.uncommented, ?_⟩
    rw [h.eraseType_text, hx.eraseType_text, hall, eraseFrom_append_congr hnone, append_nil]

lemma generic_named {head arguments : Node} (h : Inside source n) (hk : n.kind = .genericType)
    (hn : n.children = [head, arguments]) (hh : head.kind ≠ .comment)
    (ha : arguments.kind = .typeArguments) (hu : Uncommented source n.start n.stop)
    (hm : PlainMarks source n) : Uncommented source head.start head.stop ∧
      eraseType (textIn source n) = eraseType (textIn source head) := by
  obtain ⟨m, us, cm, rfl, hrun⟩ := exists_plainRun h (by simp [hk]) hu hm
  have hwoven : Node.weaveList cm m.children = [head, arguments] := by
    rw [← hn, weave_eq]
    rfl
  obtain ⟨first, second, cs, cs', hch, rfl, rfl⟩ := pair_of_weaveList hwoven hh (by simp [ha])
  rw [kind_weave] at ha
  obtain ⟨hcode, herase⟩ := hrun.generic_erased hch ha
  rw [textIn_weave, textIn_weave]
  refine ⟨?_, herase⟩
  rw [weave_eq]
  exact hcode

lemma anchorOf_eq_self (h : n.kind ∈ oneWordKinds) : anchorOf n = n := by
  rw [← typeAnchor_eq_anchorOf (Nat.le_succ n.height), typeAnchor]
  simp only [oneWordKinds, mem_cons, not_mem_nil, or_false] at h
  rcases h with hk | hk | hk | hk <;> rw [hk]

/-- In a type that is written plainly the erasure keeps the word at which the walk says it stands. -/
theorem afterLast_erase_written (h : Inside source n) (hw : PlainlyWritten source n) :
    afterLast '.' (eraseType (textIn source n)) = textIn source (anchorOf n) := by
  have hone (m : Node) (hm : Inside source m) (hk : m.kind ∈ oneWordKinds) :
      afterLast '.' (eraseType (textIn source m)) = textIn source (anchorOf m) := by
    rw [anchorOf_eq_self hk, afterLast_erase_of_isWord (inside_word hm hk).1]
  have hscoped (m : Node) (hm : Inside source m) (hk : m.kind = .scopedType) (hu : Unmarked m)
      (hcode : Uncommented source m.start m.stop) (hmarks : PlainMarks source m) :
      afterLast '.' (eraseType (textIn source m)) = textIn source (anchorOf m) := by
    obtain ⟨name, htext, hanchor, -⟩ := pointed_named hm (by simp [hk, pointedKinds]) (fun _ => hu) hcode
      hmarks
    rw [htext, hanchor hk]
  rcases hw with hk | ⟨⟨hk, hu⟩ | ⟨hk, hg⟩, hcode, hmarks⟩
  · exact hone n h hk
  · exact hscoped n h hk hu hcode hmarks
  · unfold IsGenericName at hg
    split at hg
    · next head arguments hch =>
      obtain ⟨hhead, harguments⟩ := hg
      have hmem : head ∈ n.children := by simp [hch]
      have hin : Inside source head := h.child hmem
      have hne : head.kind ≠ .comment := by
        rcases hhead with hk | ⟨hk, -⟩ <;> simp [hk]
      obtain ⟨hcode', herase⟩ := generic_named h hk hch hne harguments hcode hmarks
      have hanchor : anchorOf n = anchorOf head := by
        have hheight := (Node.height_lt_of_mem hmem).le
        rw [← typeAnchor_eq_anchorOf (Nat.le_succ n.height), typeAnchor, hk, Node.named, hch,
          ← typeAnchor_eq_anchorOf hheight]
        rcases hhead with hk | ⟨hk, -⟩ <;> simp [hk]
      rw [herase, hanchor]
      rcases hhead with hk | ⟨hk, hu⟩
      · exact hone head hin (by simp [hk, oneWordKinds])
      · exact hscoped head hin hk hu hcode' (hmarks.child hmem)
    · exact hg.elim

example :
    let source := "class A{B<@D C[]>.E x;}".toList
    (parse source).everywhere (fun n => !([.scopedType, .genericType] : List Kind).contains n.kind ||
      decide (PlainlyWritten source n)) = true := by
  decide +kernel

/-- The name of an annotation is one word, or several with no comment between them. -/
def PlainlyQualified (source : List Char) (n : Node) : Prop :=
  n.kind = .identifier ∨
    n.kind = .scopedIdentifier ∧ Uncommented source n.start n.stop ∧ PlainMarks source n

instance : Decidable (PlainlyQualified source n) := inferInstanceAs (Decidable (_ ∨ _))

theorem afterLast_erase_qualified (h : Inside source n) (hw : PlainlyQualified source n) :
    afterLast '.' (eraseType (textIn source n)) = textIn source (annotationAnchor n) := by
  rcases hw with hk | ⟨hk, hcode, hmarks⟩
  · rw [annotationAnchor, if_neg (by simp [hk])]
    exact afterLast_erase_of_isWord (inside_word h (by simp [hk, oneWordKinds])).1
  · obtain ⟨name, htext, -, hname⟩ := pointed_named h (by simp [hk, pointedKinds])
      (fun hno => by simp [hk] at hno) hcode hmarks
    rw [htext, annotationAnchor, if_pos (by simp [hk]), hname hk]
    rfl

end Names

end JavaAtlas.Outline

namespace JavaAtlas.Index

open Binding Lexicon Outline Syntax Text

variable {files : List (String × String)} {u : Use} {trail : List Node} {n a type : Node} {p : Place}
variable {role : Role} {target : Gathered → Option Target} {g : Gathered} {t : Target}

def anchorText (source : String) (u : Use) : String := slice source.toList u.offset (u.offset + u.length)

/-- The text of a use of constructors of a type. -/
inductive StandsForNew (source : String) (u : Use) (n : Node) (owner : String) : Prop
  | reference : n.kind = .methodReference → anchorText source u = "new" → StandsForNew source u n owner
  | call : n.kind = .constructorCall → anchorText source u = "this" → StandsForNew source u n owner
  | creation {type : Node} : n.kind = .objectCreation → n.child? .type = some type →
      (PlainlyWritten source.toList type → anchorText source u = afterLast '.' owner) →
      StandsForNew source u n owner

/-- The text of a use and the name of what it means, by what is mentioned at the node. -/
inductive StandsAt (index : Index) (source : String) (u : Use) (n : Node) : Prop
  | field : u.family = .field → anchorText source u = u.targetName → StandsAt index source u n
  | method {members : List Declaration} : u.family = .method → members ≠ [] →
      members ⊆ index.declarations → u.targets = members.map (·.id) →
      (∀ d ∈ members, d.element.kind = .method) → anchorText source u = u.targetName →
      StandsAt index source u n
  | constructor {members : List Declaration} {owner : String} : u.family = .method → members ≠ [] →
      members ⊆ index.declarations → u.targets = members.map (·.id) →
      (∀ d ∈ members, d.element.kind = .constructor ∧ d.element.declaringType = some owner) →
      StandsForNew source u n owner → StandsAt index source u n
  | type : u.family = .type → n.kind ∈ [.identifier, .typeIdentifier, .scopedType] →
      (PlainlyWritten source.toList n → anchorText source u = u.targetName) → StandsAt index source u n
  | annotated {name : Node} : u.family = .type → n.kind ∈ annotationKinds → n.child? .name = some name →
      (PlainlyQualified source.toList name → anchorText source u = u.targetName) →
      StandsAt index source u n

lemma text_of_said {name : String} (h : Mentions p n a role target) (ht : target g = some t)
    (hs : said? t = some name) : p.text a = name := by
  cases h with
  | creation | call | annotated | scopedType =>
    obtain rfl := Option.some.inj ht
    cases hs
  | invocation | methodReference | fieldAccess =>
    obtain rfl := Option.some.inj ht
    exact Option.some.inj hs
  | identifier | typeIdentifier =>
    dsimp only at ht
    split at ht
    · cases ht
    · obtain rfl := Option.some.inj ht
      first | exact Option.some.inj hs | cases hs

section Uses

variable {path source : String} {μ : Mention} {lex : Lexicon} {start : Nat}
variable (hused : UsedIn files u path source μ lex start)
variable (hmade : MadeAt source.toList (parse source.toList) μ p n a role target g)
include hmade

lemma text_eq (m : Node) : p.text m = textIn source.toList m := by
  rw [Place.text, hmade.reaches.source_eq]
  rfl

lemma inside_of_madeAt : Inside source.toList n :=
  hmade.reaches.around.inside fun hk => absurd (hk ▸ hmade.mentions.kind_mem) (by decide)

lemma inside_child {slot : Slot} {c : Node} (h : n.child? slot = some c) : Inside source.toList c :=
  (inside_of_madeAt hmade).child (Node.mem_children_of_child? h)

include hused

lemma anchorText_eq : anchorText source u = textIn source.toList a := by
  have hbound := Lexicon.bind?_boundFrom _ hused.bound
  have hoffset : u.offset = a.start := by rw [hbound.offset_eq, hmade.mention_eq]; rfl
  have hlength : u.length = a.stop - a.start := by rw [hbound.length_eq, hmade.mention_eq]; rfl
  rw [anchorText, hoffset, hlength, textIn, slice, slice, sliceBytes, sliceBytes,
    Nat.add_sub_cancel_left]

lemma standsForNew {owner : String}
    (hnew : (∃ receiver, μ.target = .methodRef "new" receiver) ∨ ∃ typeName arity,
      μ.target = .constructor typeName arity ∧ owner = (lex.resolve typeName u.unit μ.chain).id) :
    StandsForNew source u n owner := by
  have htext := anchorText_eq hused hmade
  have htarget := hmade.target_eq
  cases hmade.mentions with
  | @creation type hk htype =>
    rcases hnew with ⟨receiver, hno⟩ | ⟨typeName, arity, heq, rfl⟩
    · rw [hno] at htarget
      cases htarget
    rw [heq] at htarget
    obtain ⟨rfl, -⟩ := Target.constructor.inj (Option.some.inj htarget)
    -- the name that is resolved was erased before; erasing it again changes nothing
    refine .creation hk htype fun hw => ?_
    rw [htext, ← afterLast_erase_written (inside_child hmade htype) hw, Lexicon.resolve,
      afterLast_resolveType, eraseType_eraseType, text_eq hmade]
  | @call c typeId hk hc hid hthis =>
    have hword := inside_word (inside_child hmade hc) (by simp [hthis, oneWordKinds])
    exact .call hk (htext.trans (hword.2 hthis))
  | methodReference hk =>
    rcases hnew with ⟨receiver, heq⟩ | ⟨typeName, arity, hno, -⟩
    · rw [heq] at htarget
      obtain ⟨hname, -⟩ := Target.methodRef.inj (Option.some.inj htarget)
      exact .reference hk (htext.trans ((text_eq hmade a).symm.trans hname))
    · rw [hno] at htarget
      cases htarget
  | invocation | fieldAccess | annotated | scopedType =>
    rcases hnew with ⟨receiver, hno⟩ | ⟨typeName, arity, hno, -⟩ <;> rw [hno] at htarget <;>
      cases htarget
  | identifier | typeIdentifier =>
    rcases hnew with ⟨receiver, hno⟩ | ⟨typeName, arity, hno, -⟩ <;> rw [hno] at htarget <;>
      dsimp only at htarget <;> split at htarget <;> cases htarget

/-- A use of a type stands at the last word of the name by which the type was resolved. -/
lemma standsAt_type (hf : u.family = .type) : StandsAt (ofFiles files) source u n := by
  have htext := anchorText_eq hused hmade
  have htarget := hmade.target_eq
  have hinside := inside_of_madeAt hmade
  obtain ⟨name, hname, hsaid⟩ := Lexicon.bind?_family_type hused.bound hf
  rw [Lexicon.resolve, afterLast_resolveType] at hname
  have hsaid : μ.target = .type name ∨ μ.target = .name name := hsaid.imp And.left And.left
  cases hmade.mentions with
  | creation | call | invocation | methodReference | fieldAccess =>
    rcases hsaid with hno | hno <;> rw [hno] at htarget <;> cases htarget
  | @annotated named hk hchild =>
    rcases hsaid with heq | hno
    · rw [heq] at htarget
      obtain rfl := Target.type.inj (Option.some.inj htarget)
      have hkind : n.kind ∈ annotationKinds := by
        rcases hk with hk | hk <;> simp [hk, annotationKinds]
      refine .annotated hf hkind hchild fun hw => ?_
      rw [htext, hname, text_eq hmade, afterLast_erase_qualified (inside_child hmade hchild) hw]
    · rw [hno] at htarget
      cases htarget
  | identifier hk | typeIdentifier hk =>
    have hword : n.kind ∈ oneWordKinds := by simp [hk, oneWordKinds]
    have hself : p.text n = name := by
      rcases hsaid with heq | heq <;> rw [heq] at htarget <;> dsimp only at htarget <;>
        split at htarget <;> cases htarget
      all_goals rfl
    refine .type hf (by simp [hk]) fun hw => ?_
    rw [htext, hname, ← hself, text_eq hmade, afterLast_erase_of_isWord (inside_word hinside hword).1]
  | scopedType hk =>
    rcases hsaid with heq | hno
    · rw [heq] at htarget
      obtain rfl := Target.type.inj (Option.some.inj htarget)
      refine .type hf (by simp [hk]) fun hw => ?_
      rw [htext, hname, eraseType_eraseType, text_eq hmade, afterLast_erase_written hinside hw]
    · rw [hno] at htarget
      cases htarget

/-- A use of members stands at the name they were sought by, or for constructors at their type. -/
lemma standsAt_members (hf : u.family ≠ .type) : StandsAt (ofFiles files) source u n := by
  have htext := anchorText_eq hused hmade
  obtain ⟨members, htargets, hfirst, hne, hsub, hanswers⟩ := bind?_answers hused.bound hf
  rw [hused.declarations_eq] at hsub
  have hnamed {name : String} (hs : said? μ.target = some name)
      (hall : ∀ d ∈ members, d.element.name = name) : anchorText source u = u.targetName := by
    obtain ⟨d, ds, rfl⟩ := List.exists_cons_of_ne_nil hne
    have hd : u.targetName = d.element.name := hfirst
    rw [htext, ← text_eq hmade, text_of_said hmade.mentions hmade.target_eq hs, hd,
      hall d List.mem_cons_self]
  generalize hfamily : u.family = family at hanswers
  cases hanswers with
  | field hs hall => exact .field hfamily (hnamed hs hall)
  | method hs hall =>
    exact .method hfamily hne hsub htargets (fun d hd => (hall d hd).2)
      (hnamed hs fun d hd => (hall d hd).1)
  | constructor hnew hall =>
    exact .constructor hfamily hne hsub htargets hall (standsForNew hused hmade hnew)

end Uses

/-- Every use stands at the word that names what it means: fields and methods always, constructors at
the type that is created or at a word for it, and types wherever their name is written plainly. -/
theorem uses_stand_at_names (files : List (String × String)) (u : Use) (hu : u ∈ (ofFiles files).uses) :
    (∃ trail n, RecordedAt files u trail n) ∧ ∀ trail n, RecordedAt files u trail n →
      ∃ path source, files[u.unit]? = some (path, source) ∧ Around (parse source.toList) trail n ∧
        StandsAt (ofFiles files) source u n := by
  refine ⟨exists_recordedAt hu, fun trail n h => ?_⟩
  cases h with
  | @mk path source μ lex start p n a role target g hused hmade =>
    refine ⟨path, source, hused.file_eq, hmade.reaches.around, ?_⟩
    by_cases hf : u.family = .type
    · exact standsAt_type hused hmade hf
    · exact standsAt_members hused hmade hf

/-- All uses of this file stand at their names but the one whose name is annotated. -/
theorem uses_stand_at_names_annotatedList :
    let source := "class A { java.util.@B List x; java.util.List<A> y; A z = new A(); A() {} }"
    let index := ofFiles [("A.java", source)]
    (index.uses.map fun u => (anchorText source u, u.targetName)) =
        [("List", "@BList"), ("List", "List"), ("A", "A"), ("A", "A"), ("A", "A"), ("A", "A")] ∧
      ∀ u ∈ index.uses, ∃ trail n, RecordedAt [("A.java", source)] u trail n ∧
        Around (parse source.toList) trail n ∧ StandsAt index source u n := by
  intro source index
  refine ⟨by decide +kernel, fun u hu => ?_⟩
  obtain ⟨⟨trail, n, hrecorded⟩, hall⟩ := uses_stand_at_names [("A.java", source)] u hu
  obtain ⟨path, text, hfile, haround, hstands⟩ := hall trail n hrecorded
  obtain ⟨-, rfl⟩ : path = "A.java" ∧ text = source := by
    obtain ⟨hunit, hget⟩ := List.getElem?_eq_some_iff.mp hfile
    have hmem : (path, text) ∈ [("A.java", source)] := hget ▸ List.getElem_mem hunit
    simpa using hmem
  exact ⟨trail, n, hrecorded, haround, hstands⟩

end JavaAtlas.Index
