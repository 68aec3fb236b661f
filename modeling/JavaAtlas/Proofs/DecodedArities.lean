import JavaAtlas.Proofs.AnchorNames
import JavaAtlas.Proofs.ImplementationSearch
import JavaAtlas.Proofs.ParameterTypes
import JavaAtlas.Proofs.SupertypeSources
import Mathlib.Data.String.Basic

/-! Numbers of parameters that are read off identifiers. The commas between the parentheses are counted,
so the number is the declared one exactly if no parameter type keeps a comma of its own and the type
around brings no parenthesis. Commas of type arguments are erased; those of annotations and comments,
which the text of a type has too, are not. -/

namespace JavaAtlas.Text

open List

lemma length_splitChars (sep : Char) (cs : List Char) :
    (splitChars sep cs).length = cs.count sep + 1 := by
  induction cs with
  | nil => rfl
  | cons c cs ih =>
    rw [splitChars]
    split
    · next hc => rw [length_cons, ih, hc, count_cons_self]
    · next hc =>
      rw [count_cons_of_ne hc, ← ih]
      split
      · next h => exact absurd h (splitChars_ne_nil sep cs)
      · next h => rw [h, length_cons, length_cons]

/-- Joined pieces have the commas of the pieces and those between them. -/
lemma count_joinWith (pieces : List String) : (joinWith "," pieces).toList.count ',' =
    (pieces.length - 1) + (pieces.map (·.toList.count ',')).sum := by
  induction pieces with
  | nil => rfl
  | cons piece pieces ih =>
    cases pieces with
    | nil => simp [joinWith]
    | cons next pieces =>
      have hcomma : (",".toList).count ',' = 1 := by decide
      rw [joinWith, String.toList_append, String.toList_append, count_append, count_append, ih,
        hcomma]
      · simp only [length_cons, map_cons, sum_cons]
        omega
      · simp

lemma joinWith_eq_empty_iff {pieces : List String} (h : ∀ q ∈ pieces, q ≠ "") :
    joinWith "," pieces = "" ↔ pieces = [] := by
  cases pieces with
  | nil => simp [joinWith]
  | cons piece pieces =>
    cases pieces with
    | nil => simpa [joinWith] using h
    | cons next pieces => simp [joinWith, String.append_eq_empty_iff]

end JavaAtlas.Text

namespace JavaAtlas

open List Text

variable {id head params : String}

lemma arityOfId?_append (h : '(' ∉ head.toList) : arityOfId? (head ++ "(" ++ params ++ ")") =
    some (if params = "" then 0 else params.toList.count ',' + 1) := by
  have hcut : cutFirst? '(' (head ++ "(" ++ (params ++ ")")) = some (head, params ++ ")") :=
    cutFirst?_append h _
  have hlast : (params ++ ")").toList.reverse = ')' :: params.toList.reverse := by simp
  rw [arityOfId?, String.append_assoc, hcut]
  simp only [hlast, length_splitChars, count_reverse, isEmpty_reverse, List.isEmpty_iff,
    String.toList_eq_nil_iff]

lemma exists_first_parenthesis {s : String} (h : '(' ∈ s.toList) : ∃ a b, s = a ++ "(" ++ b ∧
    '(' ∉ a.toList ∧ s.toList.dropWhile (· != '(') = '(' :: b.toList := by
  obtain ⟨front, rest, heq, hfront⟩ := eq_append_cons_of_mem h
  have hall : ∀ c ∈ front, (c != '(') = true := fun c hc => by
    simpa using fun hp : c = '(' => hfront (hp ▸ hc)
  refine ⟨String.ofList front, String.ofList rest, String.toList_injective (by simp [heq]),
    by simpa using hfront, ?_⟩
  rw [heq, dropWhile_append_of_pos hall, dropWhile_cons_of_neg (by simp), String.toList_ofList]

lemma arityOfId?_eq_none (h : id.toList.getLast? ≠ some ')') : arityOfId? id = none := by
  by_cases hparen : '(' ∈ id.toList
  · obtain ⟨front, rest, rfl, hfront, -⟩ := exists_first_parenthesis hparen
    have hcut : cutFirst? '(' (front ++ "(" ++ rest) = some (front, rest) := cutFirst?_append hfront _
    simp only [arityOfId?, hcut]
    split
    · next params hrest =>
      have hends : rest.toList = params.reverse ++ [')'] := by simpa using congrArg reverse hrest
      rw [String.toList_append, hends, ← append_assoc, getLast?_concat] at h
      exact absurd rfl h
    · rfl
  · rw [arityOfId?, Binding.cutFirst?_eq_none_iff.mpr hparen]

/-- The parameters that the identifier of a method spells out can be told apart. -/
structure Separable (type : String) (params : List String) : Prop where
  apart : ∀ q ∈ params, ',' ∉ q.toList
  owner : '(' ∈ type.toList → params ≠ [] ∧ ',' ∉ type.toList.dropWhile (· != '(')

instance (type : String) (params : List String) : Decidable (Separable type params) :=
  decidable_of_iff ((∀ q ∈ params, ',' ∉ q.toList) ∧
    ('(' ∈ type.toList → params ≠ [] ∧ ',' ∉ type.toList.dropWhile (· != '(')))
    ⟨fun ⟨h, h'⟩ => ⟨h, h'⟩, fun ⟨h, h'⟩ => ⟨h, h'⟩⟩

/-- As many parameters are read off the identifier of a method as it has exactly if they can be told
apart. -/
lemma arityOfId?_method_iff {type name : String} {params : List String} (hname : '(' ∉ name.toList)
    (hname' : ',' ∉ name.toList) (hparams : ∀ q ∈ params, q ≠ "") :
    arityOfId? (type ++ "#" ++ name ++ "(" ++ joinWith "," params ++ ")") = some params.length ↔
      Separable type params := by
  have hcount := count_joinWith params
  have hempty := joinWith_eq_empty_iff hparams
  have hnone : (params.map (·.toList.count ',')).sum = 0 ↔ ∀ q ∈ params, ',' ∉ q.toList := by
    rw [List.sum_eq_zero_iff_forall_eq_nat]
    simp [count_eq_zero]
  have hlength : params = [] ↔ params.length = 0 := length_eq_zero_iff.symm
  by_cases hparen : '(' ∈ type.toList
  · -- what follows the first parenthesis of the type is counted with the parameters
    obtain ⟨front, rest, rfl, hfront, hdrop⟩ := exists_first_parenthesis hparen
    have hid : front ++ "(" ++ rest ++ "#" ++ name ++ "(" ++ joinWith "," params ++ ")" =
        front ++ "(" ++ (rest ++ "#" ++ name ++ "(" ++ joinWith "," params) ++ ")" := by
      simp only [String.append_assoc]
    have htail : (rest ++ "#" ++ name ++ "(" ++ joinWith "," params).toList.count ',' =
        rest.toList.count ',' + (joinWith "," params).toList.count ',' := by
      simp [String.toList_append, count_append, count_eq_zero.mpr hname']
    have hrest : ',' ∉ '(' :: rest.toList ↔ rest.toList.count ',' = 0 := by
      simp [count_eq_zero]
    rw [hid, arityOfId?_append hfront, if_neg (by simp [String.append_eq_empty_iff]), Option.some_inj,
      htail, hcount]
    constructor
    · intro h
      refine ⟨hnone.mp (by omega), fun _ => ⟨?_, ?_⟩⟩
      · rw [Ne, hlength]
        omega
      · rw [hdrop, hrest]
        omega
    · rintro ⟨hall, howner⟩
      obtain ⟨hne, hno⟩ := howner hparen
      rw [hdrop, hrest] at hno
      rw [Ne, hlength] at hne
      have hsum := hnone.mpr hall
      omega
  · have hhead : '(' ∉ (type ++ "#" ++ name).toList := by simp [hparen, hname]
    rw [arityOfId?_append hhead, Option.some_inj]
    constructor
    · intro h
      refine ⟨hnone.mp ?_, fun hmem => absurd hmem hparen⟩
      split at h
      · next he =>
        obtain rfl := hempty.mp he
        rfl
      · omega
    · rintro ⟨hall, -⟩
      have hsum := hnone.mpr hall
      split
      · next h => rw [hempty.mp h, length_nil]
      · next h =>
        rw [hempty, hlength] at h
        omega

example : Separable "p.A" ["List[]", "int[]"] ∧ ¬Separable "p.A" ["@B(1,2)List"] := by
  decide

end JavaAtlas

namespace JavaAtlas.Outline

open Syntax Text List

section Erasure

variable {c : Char} {cs ds kept : List Char} {depth : Nat}

lemma mem_of_mem_eraseFrom (h : c ∈ eraseFrom depth kept cs) : c ∈ kept ∨ c ∈ cs := by
  induction cs generalizing depth kept with
  | nil =>
    rw [eraseFrom, mem_reverse] at h
    exact .inl (dropWhile_subset _ h)
  | cons d cs ih =>
    have hlater {kept' : List Char} {depth' : Nat} (hk : kept' ⊆ d :: kept)
        (h : c ∈ eraseFrom depth' kept' cs) : c ∈ kept ∨ c ∈ d :: cs := by
      rcases ih h with h | h
      · rcases mem_cons.mp (hk h) with rfl | h
        · exact .inr mem_cons_self
        · exact .inl h
      · exact .inr (mem_cons_of_mem d h)
    rw [eraseFrom] at h
    have hkept : kept ⊆ d :: kept := subset_cons_self d kept
    split_ifs at h
    all_goals first | exact hlater hkept h | exact hlater (Subset.refl _) h

lemma mem_eraseFrom_of_kept (h : c ∈ kept) (hc : c ≠ '.') : c ∈ eraseFrom depth kept cs := by
  induction cs generalizing depth kept with
  | nil =>
    rw [eraseFrom, mem_reverse]
    rw [← takeWhile_append_dropWhile (p := (· == '.')) (l := kept)] at h
    refine (mem_append.mp h).resolve_left fun hpoint => hc ?_
    simpa using mem_takeWhile_imp hpoint
  | cons d cs ih =>
    rw [eraseFrom]
    split_ifs
    all_goals first | exact ih h | exact ih (mem_cons_of_mem d h)

/-- The erasure keeps no comma that stands here. -/
structure CommaFree (cs : List Char) : Prop where
  balanced : Balanced cs
  erased : ∀ depth kept, ',' ∉ kept → ',' ∉ eraseFrom depth kept cs

namespace CommaFree

lemma append (h : CommaFree cs) (h' : CommaFree ds) : CommaFree (cs ++ ds) := by
  refine ⟨h.balanced.append h'.balanced, fun depth kept hk => ?_⟩
  obtain ⟨mid, -, hcs⟩ := h.balanced depth kept
  have hend := hcs []
  rw [append_nil] at hend
  rw [hcs]
  refine h'.erased depth mid fun hmid => h.erased depth kept hk ?_
  rw [hend]
  exact mem_eraseFrom_of_kept hmid (by decide)

lemma of_quiet (h : quiet cs = true) : CommaFree cs := by
  have hall := all_eq_true.mp h
  simp only [Bool.and_eq_true, bne_iff_ne] at hall
  refine ⟨.of_bracketless (all_eq_true.mpr fun c hc => ?_), fun depth kept hk hmem => ?_⟩
  · simpa using (hall c hc).1
  · rcases mem_of_mem_eraseFrom hmem with hmem | hmem
    · exact hk hmem
    · exact (hall _ hmem).2 rfl

lemma nil : CommaFree [] := of_quiet rfl

lemma angles (h : Balanced cs) : CommaFree ('<' :: cs ++ ['>']) := by
  refine ⟨h.brackets, fun depth kept hk hmem => ?_⟩
  rw [eraseFrom_brackets h []] at hmem
  exact (mem_of_mem_eraseFrom hmem).elim hk (not_mem_nil)

lemma flatMap {α : Type} {xs : List α} {f : α → List Char} (h : ∀ x ∈ xs, CommaFree (f x)) :
    CommaFree (xs.flatMap f) := by
  induction xs with
  | nil => exact nil
  | cons x xs ih =>
    obtain ⟨hx, hxs⟩ := forall_mem_cons.mp h
    exact hx.append (ih hxs)

end CommaFree

end Erasure

/-! ### Texts of types -/

section Texts

variable {source : List Char} {n t : Node} {us : List Token}

/-- No annotation in the node has an angle bracket or a comma. -/
def QuietMarks (source : List Char) (n : Node) : Prop :=
  n.everywhere (fun m => !annotationKinds.contains m.kind || quiet (textIn source m).toList) = true

instance : Decidable (QuietMarks source n) := inferInstanceAs (Decidable (_ = true))

lemma bracketless_of_quiet {cs : List Char} (h : quiet cs = true) : bracketless cs = true :=
  all_eq_true.mpr fun c hc => by
    have hquiet := all_eq_true.mp h c hc
    simp only [Bool.and_eq_true] at hquiet ⊢
    exact hquiet.1

lemma QuietMarks.plainMarks (h : QuietMarks source n) : PlainMarks source n := by
  refine Node.everywhere_mono (fun m hm => ?_) n h
  simp only [Bool.or_eq_true] at hm ⊢
  exact hm.imp_right bracketless_of_quiet

lemma QuietMarks.child (h : QuietMarks source n) (ht : t ∈ n.children) : QuietMarks source t :=
  ((Node.everywhere_iff _ n).mp h).2 t ht

lemma QuietMarks.self (h : QuietMarks source n) (hk : n.kind ∈ annotationKinds) :
    quiet (textIn source n).toList = true := by
  have hself := ((Node.everywhere_iff _ n).mp h).1
  simpa [hk] using hself

lemma quiet_of_isWord {s : String} (h : IsWord s) : quiet s.toList = true :=
  all_eq_true.mpr fun c hc => by
    have hname := h.isIdentifier hc
    simp only [Bool.and_eq_true, bne_iff_ne]
    refine ⟨⟨?_, ?_⟩, ?_⟩ <;> rintro rfl <;> exact absurd hname (by decide)

namespace PlainRun

lemma commaFree_of_quiet (h : PlainRun source n us) (hq : quiet (textIn source n).toList = true) :
    CommaFree (spelt us) := by
  obtain ⟨body, htext, hlaid⟩ := h.exists_laid
  rw [htext, String.toList_ofList] at hq
  have hsqueeze : squeeze body = spelt us := hlaid.squeeze_eq
  exact .of_quiet (hsqueeze ▸ all_eq_true.mpr fun c hc => all_eq_true.mp hq c (mem_of_mem_filter hc))

/-- The node is made up of others, from which no comma is kept. -/
lemma commaFree_of_children (h : PlainRun source n us) (hk : n.kind ∈ typeParts)
    (hc : ∀ c ∈ n.children, ∀ vs, PlainRun source c vs → CommaFree (spelt vs)) :
    CommaFree (spelt us) := by
  cases h.tiled with
  | leaf _ _ _ hleaf => exact absurd hk hleaf.not_part
  | node _ _ _ htiles _ _ =>
    rw [spelt_tokensOf]
    exact .flatMap fun x hx => hc x.1 (mem_map_of_mem hx) x.2 (h.part hx (htiles x hx))

end PlainRun

lemma PlainRun.commaFree_word (h : PlainRun source n us) (hk : n.kind ∈ oneWordKinds) :
    CommaFree (spelt us) := by
  obtain ⟨w, rfl, hword, -⟩ := h.tiled.word hk
  rw [spelt_one rfl (squeeze_of_isWord hword)]
  exact .of_quiet (quiet_of_isWord hword)

lemma TypePiece.commaFree (hp : TypePiece (codeTokens source) n) (h : PlainRun source n us)
    (hm : QuietMarks source n) : CommaFree (spelt us) := by
  rcases hp with hk | ⟨t, ht, hquiet, hstart, hstop⟩
  · simp only [mem_append, mem_cons, not_mem_nil, or_false] at hk
    rcases hk with (hk | hk) | hk
    · exact h.commaFree_word (by rw [hk]; decide)
    · obtain ⟨cs, hcs, hspelt⟩ := h.arguments hk
      exact hspelt ▸ .angles hcs
    · exact h.commaFree_of_quiet (hm.self hk)
  · refine h.commaFree_of_quiet ?_
    rwa [textIn, hstart, hstop, slice_token (mem_of_mem_filter ht)]

lemma Dimensions.commaFree (hd : Dimensions (codeTokens source) n) (h : PlainRun source n us)
    (hm : QuietMarks source n) : CommaFree (spelt us) :=
  h.commaFree_of_children (by rw [hd.1]; decide) fun c hc _ hrun =>
    TypePiece.commaFree (hd.2 c hc) hrun (hm.child hc)

lemma TypeTree.commaFree (ht : TypeTree (codeTokens source) n) (h : PlainRun source n us)
    (hm : QuietMarks source n) : CommaFree (spelt us) := by
  induction ht generalizing us with
  | word hk =>
    refine h.commaFree_word ?_
    simp only [mem_cons, not_mem_nil, or_false] at hk
    rcases hk with hk | hk <;> rw [hk] <;> decide
  | @composed n first rest hk hc _ hrest ih =>
    have hpart : n.kind ∈ typeParts := by
      simp only [mem_cons, not_mem_nil, or_false] at hk
      rcases hk with hk | hk | hk <;> rw [hk] <;> decide
    refine h.commaFree_of_children hpart fun c hmem vs hrun => ?_
    have hquiet := hm.child hmem
    rw [hc] at hmem
    rcases mem_cons.mp hmem with rfl | hmem
    · exact ih hrun hquiet
    · rcases hrest c hmem with hpiece | hdims
      · exact TypePiece.commaFree hpiece hrun hquiet
      · exact Dimensions.commaFree hdims hrun hquiet

lemma QuietMarks.of_weave {cm : List Token} (h : QuietMarks source (n.weave cm)) :
    QuietMarks source n :=
  everywhere_of_weave (fun m cs => by rw [kind_weave, textIn_weave]) h

/-- The text of such a node is free of commas if the code without comments in it is. -/
lemma commaFree_text {Q : Node → Prop}
    (hQ : ∀ m us, Q m → PlainRun source m us → QuietMarks source m → CommaFree (spelt us))
    (h : InCode source Q t) (hu : Uncommented source t.start t.stop) (hm : QuietMarks source t) :
    CommaFree (squeeze (textIn source t).toList) := by
  obtain ⟨m, us, cm, rfl, htiled, hus, hq⟩ := h
  rw [weave_eq] at hu
  have hrun : PlainRun source m us := ⟨htiled, hus, hu, hm.plainMarks.of_weave⟩
  obtain ⟨body, htext, hlaid⟩ := hrun.exists_laid
  have hsqueeze : squeeze body = spelt us := hlaid.squeeze_eq
  rw [textIn_weave, htext, String.toList_ofList, hsqueeze]
  exact hQ m us hq hrun hm.of_weave

lemma TypeTree.head (h : TypeTree (codeTokens source) n) (ht : Tiled n us) :
    ∃ w ∈ us.head?, IsWord w.spelling := by
  induction h generalizing us with
  | word hk =>
    obtain ⟨w, rfl, hw, -⟩ := ht.word (by
      simp only [mem_cons, not_mem_nil, or_false] at hk
      rcases hk with hk | hk <;> rw [hk] <;> decide)
    exact ⟨w, rfl, hw⟩
  | composed hk hc _ _ ih =>
    cases ht with
    | leaf => cases hc
    | node _ _ _ htiles _ _ =>
      obtain ⟨x, xs, rfl, rfl, -⟩ := map_eq_cons_iff.mp hc
      obtain ⟨w, hw, hword⟩ := ih (htiles x mem_cons_self)
      refine ⟨w, ?_, hword⟩
      rw [tokensOf_cons, head?_append, Option.mem_def.mp hw]
      rfl

lemma Laid.head_eq {w : Token} {us : List Token} {body : List Char} (h : Laid (w :: us) body)
    (hw : w.spelling.toList ≠ []) : body.head? = w.spelling.toList.head? := by
  obtain ⟨c, cs, hs⟩ := exists_cons_of_ne_nil hw
  cases h <;> simp [hs]

/-- Comments or not, the text of a type begins with the first word of the type. -/
lemma head_text (h : InCode source (TypeTree (codeTokens source)) t) :
    ∃ c ∈ (textIn source t).toList.head?, isKept c = true := by
  obtain ⟨m, us, cm, rfl, htiled, ⟨pre, post, hus⟩, htree⟩ := h
  obtain ⟨w, hw, hword⟩ := TypeTree.head htree htiled
  obtain ⟨rest, rfl⟩ := head?_eq_some_iff.mp hw
  obtain ⟨⟨_, hfirst, hstart⟩, last, hlast, hstop⟩ := htiled.span
  obtain rfl := Option.some.inj hfirst
  obtain ⟨before, stretch, after, hlex, -, hlast'⟩ := filter_eq_stretch hus.symm
  obtain ⟨body, hslice, hlaid⟩ := slice_laid hlex (hlast'.trans hlast)
  obtain ⟨c, cs, hs⟩ := exists_cons_of_ne_nil hword.ne_nil
  rw [textIn_weave, textIn, hstart, hstop, hslice, String.toList_ofList,
    Laid.head_eq hlaid hword.ne_nil, hs]
  exact ⟨c, rfl, isKept_of_isWord hword c (hs ▸ mem_cons_self)⟩

end Texts

/-! ### Signatures -/

section Signatures

variable {w : String} {varargs : Bool} {c : Char}

lemma mem_of_mem_afterLast {sep : Char} {s : String} (h : c ∈ (afterLast sep s).toList) :
    c ∈ s.toList := by
  rw [afterLast, String.toList_ofList, mem_reverse] at h
  exact mem_reverse.mp (takeWhile_subset _ h)

lemma not_mem_signatureType (h : CommaFree (squeeze w.toList)) :
    ',' ∉ (signatureType w varargs).toList := by
  intro hmem
  rw [signatureType, String.toList_append, mem_append] at hmem
  rcases hmem with hmem | hmem
  · have herased := mem_of_mem_afterLast hmem
    rw [eraseType, String.toList_ofList, ← eraseFrom_squeeze] at herased
    exact h.erased 0 [] not_mem_nil herased
  · simp [String.join_eq] at hmem

lemma signatureType_ne_empty (h : ∃ c ∈ w.toList.head?, isKept c = true) :
    signatureType w varargs ≠ "" := by
  obtain ⟨c, hc, hkept⟩ := h
  obtain ⟨cs, hw⟩ := head?_eq_some_iff.mp hc
  have hpoint : c ≠ '.' := by
    rintro rfl
    exact absurd hkept (by decide)
  have hone : Settled [c] := Settled.cons_kept ⟨by simp, .nil⟩ hkept
  obtain ⟨left, -, hlast, hleft⟩ := eraseFrom_settled 0 cs hone
  have hmem : c ∈ left := by
    rw [← mem_reverse, ← hleft]
    exact mem_eraseFrom_of_kept mem_cons_self hpoint
  obtain ⟨d, ds, rfl⟩ := exists_cons_of_ne_nil (ne_nil_of_mem hmem)
  have hname : (afterLast '.' (eraseType w)).toList ≠ [] := by
    rw [afterLast, eraseType, hw, eraseFrom_cons_kept hkept, hleft, String.toList_ofList,
      String.toList_ofList, reverse_reverse, takeWhile_cons_of_pos (by simpa using hlast)]
    simp
  rw [signatureType, Ne, String.append_eq_empty_iff, ← String.toList_eq_nil_iff]
  exact fun hempty => hname hempty.1

variable {p : Place} {n t : Node} {q : String} {source : List Char}

/-- A parameter type in a signature is that of a parameter, with its dimensions, or that of a parameter
which takes any number of arguments. -/
lemma exists_of_mem_signature (h : q ∈ (signatureOf p n).1) : ∃ ps ∈ n.children, ∃ c ∈ ps.children,
    (c.kind = .formalParameter ∧ ∃ type, c.child? .type = some type ∧
      q = signatureType (p.text type ++ c.bracketText p.text) false) ∨
    (c.kind = .spreadParameter ∧ ∃ type, spreadType? c = some type ∧
      q = signatureType (p.text type) true) := by
  rw [signatureOf] at h
  split at h
  · cases h
  · next ps hps =>
    obtain ⟨c, hc, hq⟩ := mem_flatMap.mp h
    refine ⟨ps, Node.mem_children_of_child? hps, c, Node.mem_children_of_mem_named hc, ?_⟩
    split at hq
    · next hk =>
      split at hq
      · next type htype => exact .inl ⟨hk, type, htype, mem_singleton.mp hq⟩
      · cases hq
    · next hk =>
      obtain ⟨type, htype, heq⟩ := Option.map_eq_some_iff.mp (Option.mem_toList.mp hq)
      exact .inr ⟨hk, type, htype, heq.symm⟩
    · cases hq

/-- The nodes from which the type of a parameter is read. -/
def parameterTypes (n : Node) : List Node :=
  match n.kind with
  | .formalParameter => (n.child? .type).toList ++ (n.child? .dimensions).toList
  | .spreadParameter => (spreadType? n).toList
  | _ => []

/-- Nothing in the node comes between the parameters of a method: no parenthesis in a name, and in the
types of parameters no comment, and no comma or angle bracket in an annotation. -/
structure Clear (source : List Char) (n : Node) : Prop where
  name : n.isName = true → '(' ∉ (textIn source n).toList
  types : ∀ t ∈ parameterTypes n, IsCode source t ∧ QuietMarks source t

instance (source : List Char) : DecidablePred (Clear source) := fun n =>
  decidable_of_iff ((n.isName = true → '(' ∉ (textIn source n).toList) ∧
      ∀ t ∈ parameterTypes n, IsCode source t ∧ QuietMarks source t)
    ⟨fun ⟨h, h'⟩ => ⟨h, h'⟩, fun ⟨h, h'⟩ => ⟨h, h'⟩⟩

lemma spreadType?_cases (hcode : ParameterCode source n) (hk : n.kind = .spreadParameter)
    (ht : spreadType? n = some t) :
    (∃ v ∈ Syntax.lex source, v.cls = .comment ∧ t = v.leaf .comment) ∨
      InCode source (TypeTree (codeTokens source)) t := by
  have hfound := find?_some ht
  obtain ⟨hmem, hmark⟩ := mem_filter.mp (mem_of_find?_eq_some ht)
  refine (hcode.spread hk t hmem).resolve_left fun hkind => ?_
  simp only [annotationKinds, mem_append, mem_cons, not_mem_nil, or_false] at hkind
  rcases hkind with (hk | hk | hk) | hk | hk <;> simp [hk] at hfound hmark

lemma commaFree_of_clear (hcode : ParameterCode source n) (hclear : Clear source n)
    (ht : t ∈ parameterTypes n) : CommaFree (squeeze (textIn source t).toList) := by
  obtain ⟨⟨hcomment, hu⟩, hmarks⟩ := hclear.types t ht
  have htype (h : InCode source (TypeTree (codeTokens source)) t) :
      CommaFree (squeeze (textIn source t).toList) :=
    commaFree_text (fun _ _ htree => TypeTree.commaFree htree) h hu hmarks
  rw [parameterTypes] at ht
  split at ht
  · next hk =>
    rcases mem_append.mp ht with ht | ht <;> have ht := Option.mem_toList.mp ht
    · exact htype (hcode.type hk t (Node.mem_children_of_child? ht) (Node.slot?_of_child? ht))
    · exact commaFree_text (fun _ _ hdims => Dimensions.commaFree hdims)
        (hcode.dimensions hk t (Node.mem_children_of_child? ht) (Node.slot?_of_child? ht)) hu hmarks
  · next hk =>
    rcases spreadType?_cases hcode hk (Option.mem_toList.mp ht) with ⟨v, -, -, rfl⟩ | hin
    · exact absurd rfl hcomment
    · exact htype hin
  · cases ht

/-- A parameter of the node keeps what is known about all nodes. -/
lemma all_parameter {P : Node → Prop} {ps c : Node} (h : n.All P) (hps : ps ∈ n.children)
    (hc : c ∈ ps.children) : P c :=
  ((Node.all_iff c).mp (((Node.all_iff ps).mp (((Node.all_iff n).mp h).2 ps hps)).2 c hc)).1

lemma comma_not_mem_signature (hcode : n.All (ParameterCode p.source))
    (hclear : n.All (Clear p.source)) (h : q ∈ (signatureOf p n).1) : ',' ∉ q.toList := by
  obtain ⟨ps, hps, c, hc, hq⟩ := exists_of_mem_signature h
  have hfree {t : Node} (ht : t ∈ parameterTypes c) : CommaFree (squeeze (p.text t).toList) :=
    commaFree_of_clear (all_parameter hcode hps hc) (all_parameter hclear hps hc) ht
  rcases hq with ⟨hk, type, htype, rfl⟩ | ⟨hk, type, htype, rfl⟩
  · have hbrackets : CommaFree (squeeze (c.bracketText p.text).toList) := by
      cases hd : c.child? .dimensions with
      | none => simpa [Node.bracketText, hd, squeeze] using CommaFree.nil
      | some d => simpa [Node.bracketText, hd] using hfree (t := d) (by simp [parameterTypes, hk, hd])
    refine not_mem_signatureType ?_
    rw [String.toList_append, squeeze, filter_append]
    exact (hfree (by simp [parameterTypes, hk, htype])).append hbrackets
  · exact not_mem_signatureType (hfree (by simp [parameterTypes, hk, htype]))

lemma comment_head {v : Token} (hv : v ∈ Syntax.lex source) (hc : v.cls = .comment) :
    v.spelling.toList.head? = some '/' := by
  obtain ⟨splices, rest, hat⟩ := tokenAt_of_mem_lex hv
  obtain ⟨k, splices', hscan, -⟩ := hat.scan
  obtain ⟨c, cs, hs⟩ := exists_cons_of_ne_nil hat.ne_nil
  rw [hc, hs] at hscan
  rcases scanToken_comment hscan with ⟨tail, heq, -⟩ | ⟨tail, heq, -⟩
  · rw [hs, (cons.inj heq).1]
    rfl
  · rw [hs, (cons.inj heq).1]
    rfl

/-- No parameter type in a signature is empty, comments or not. -/
lemma ne_empty_of_mem_signature (hcode : n.All (ParameterCode p.source))
    (h : q ∈ (signatureOf p n).1) : q ≠ "" := by
  obtain ⟨ps, hps, c, hc, hq⟩ := exists_of_mem_signature h
  have hcode := all_parameter hcode hps hc
  have hhead {t : Node} {w : String} (ht : InCode p.source (TypeTree (codeTokens p.source)) t) :
      ∃ c ∈ (p.text t ++ w).toList.head?, isKept c = true := by
    obtain ⟨c, hc, hkept⟩ := head_text ht
    refine ⟨c, ?_, hkept⟩
    rw [String.toList_append, head?_append, show (p.text t).toList.head? = some c from hc]
    rfl
  rcases hq with ⟨hk, type, htype, rfl⟩ | ⟨hk, type, htype, rfl⟩
  · exact signatureType_ne_empty
      (hhead (hcode.type hk type (Node.mem_children_of_child? htype) (Node.slot?_of_child? htype)))
  · refine signatureType_ne_empty ?_
    rcases spreadType?_cases hcode hk htype with ⟨v, hv, hcls, rfl⟩ | hin
    · have htext : p.text (v.leaf .comment) = v.spelling := slice_token hv
      rw [htext, comment_head hv hcls]
      exact ⟨'/', rfl, by decide⟩
    · exact head_text hin

end Signatures

/-! ### Identifiers -/

section Identifiers

variable {p q : Place} {n c x : Node} {d : Declaration} {g : Gathered} {unit : UnitRef} {i : Nat}
variable {source : String}

lemma Around.all {P : Node → Prop} {root : Node} {trail : List Node} (h : Around root trail n)
    (hr : root.All P) : n.All P := by
  induction h with
  | root => exact hr
  | child _ hc ih => exact ((Node.all_iff _).mp ih).2 _ hc

/-- The file read twice; its names have no parenthesis. -/
def withoutParentheses (unit : UnitRef) (i : Nat) (source : String) : Likeness :=
  { renumbering unit i i source with
    legible := fun s => '(' ∉ s.toList
    node := fun n n' => n = n' ∧ n.All (Clear source.toList)
    alike := by
      rintro n _ ⟨rfl, hn⟩
      have hc := ((Node.all_iff n).mp hn).2
      exact .same (fun _ => rfl) (fun _ => rfl) (fun c hm => .inl ⟨rfl, hc c hm⟩)
        (fun _ => ⟨rfl, rfl⟩) fun _ => ⟨rfl, rfl⟩
    legible_name := by
      rintro n _ ⟨rfl, hn⟩ hname
      exact ((Node.all_iff n).mp hn).1.name hname
    legible_append := by
      intro a b ha hb
      simp [ha, hb] }

/-- The names in the file and the types of its parameters are written clearly everywhere. -/
def ClearSource (source : String) : Prop :=
  (parse source.toList).everywhere (fun n => decide (Clear source.toList n)) = true

instance : DecidablePred ClearSource := fun _ => inferInstanceAs (Decidable (_ = true))

lemma ClearSource.all (h : ClearSource source) : (parse source.toList).All (Clear source.toList) :=
  Node.all_of_everywhere h

lemma ClearSource.declaringType (h : ClearSource source)
    (hd : d ∈ (JavaAtlas.Outline.ofSource unit i source).declarations)
    (ht : d.element.kind.isType = false) {type : String} (htype : d.element.declaringType = some type) :
    '(' ∉ type.toList := by
  have halike : Alike (withoutParentheses unit i source) _ _ :=
    ofTree_alike (withoutParentheses unit i source) rfl rfl ⟨rfl, h.all⟩
  have hwhole : (withoutParentheses unit i source).Whole :=
    ⟨fun _ => rfl, fun _ => rfl, fun _ _ _ h => h⟩
  have hself := forall₂_same.mp (halike.declarations_of_whole hwhole) d hd
  obtain ⟨type', -, htype', hlegible, -⟩ := hself.member ht
  obtain rfl := Option.some.inj (htype.symm.trans htype')
  exact hlegible

/-- The declaration that a move makes. -/
def Move.declared? : Move → Option Declaration
  | .declare d | .component d _ _ => some d
  | _ => none

lemma declared?_visits {ns : List Node} {m : Move} (hm : m ∈ visits p ns) : m.declared? = none := by
  obtain ⟨_, -, rfl⟩ := mem_map.mp hm
  rfl

/-- A type declares itself and, if it is a record, its components as fields. -/
lemma typeMoves_kind {first : Nat} {package : String} {m : Move} (hm : m ∈ typeMoves p n first package)
    (hd : m.declared? = some d) : d.element.kind.isMethod = false := by
  have hvisits {q : Place} {ns : List Node} (hm : m ∈ visits q ns) :
      d.element.kind.isMethod = false := by
    rw [declared?_visits hm] at hd
    cases hd
  rw [typeMoves] at hm
  split at hm
  · exact hvisits hm
  · rcases mem_cons.mp hm with rfl | hm
    · obtain rfl := Option.some.inj hd
      change (typeKind n.kind).isMethod = false
      unfold typeKind
      split <;> rfl
    · obtain ⟨b, -, hm⟩ := mem_flatMap.mp hm
      rw [typePart] at hm
      split at hm
      · cases hm
      · split at hm
        · obtain ⟨c, -, hm⟩ := mem_flatMap.mp hm
          rw [componentPart] at hm
          split at hm
          · obtain rfl := mem_singleton.mp hm
            obtain rfl := Option.some.inj hd
            rfl
          · cases hm
        · exact @hvisits _ [b] hm
      · exact @hvisits _ [b] hm

/-- Only at a method or a constructor is one declared. -/
lemma exists_methodDeclaration {tree : Node}
    (hd : d ∈ (JavaAtlas.Outline.ofTree unit i source tree).declarations)
    (hk : d.element.kind.isMethod = true) : ∃ p n x typeId, Reaches source.toList tree p n ∧
      n.kind ∈ methodKinds ∧ n.child? .name = some x ∧ p.typeId? = some typeId ∧
      d = methodDeclaration p n typeId x := by
  obtain ⟨p, n, g, m, g', hp, hm, h₀, h₁⟩ := exists_move_where (R := Reaches source.toList tree)
    (P := fun g => d ∈ g.declarations.toList) (fun hp hm hs => hp.sends hm hs) (fun _ _ => Iff.rfl)
    ⟨rfl, .root⟩ (by simp [Gathered.empty]) hd
  have hmade := alone_declares h₀ h₁
  have hdeclared : m.declared? = some d := by
    rcases hmade with rfl | ⟨q, c, rfl⟩ <;> rfl
  have htype (ht : isTypeDeclaration n = true) : d.element.kind.isMethod = false := by
    have hmoves : movesAt p n g = typeMoves p n g.declarations.size g.package := by
      simp only [isTypeDeclaration, typeKinds, contains_eq_mem, mem_cons, not_mem_nil, or_false,
        decide_eq_true_eq] at ht
      rcases ht with ht | ht | ht | ht | ht <;> simp only [movesAt, moves, ht]
    exact typeMoves_kind (hmoves ▸ hm) hdeclared
  obtain ⟨x, hx⟩ := of_declares (of_moves p n _ _ m hm) hmade
  cases hx with
  | type ht | component ht =>
    rw [htype ht] at hk
    cases hk
  | field | constant => cases hk
  | @method typeId hkind hx htypeId _ => exact ⟨p, n, x, typeId, hp, hkind, hx, htypeId, rfl⟩

/-- The number of parameters that the identifier of a declaration shows: none for a type or a field,
and for a method the number it was declared with exactly if its parameters can be told apart, as they
can in a file that is written clearly. -/
structure ArityShown (source : String) (d : Declaration) : Prop where
  other : d.element.kind.isMethod = false → arityOfId? d.id = none
  method : d.element.kind.isMethod = true → ∃ type params, d.element.declaringType = some type ∧
    d.id = type ++ "#" ++ d.element.name ++ "(" ++ joinWith "," params ++ ")" ∧
    params.length = d.arity ∧ (arityOfId? d.id = some d.arity ↔ Separable type params)
  clear : d.element.kind.isMethod = true → ClearSource source → arityOfId? d.id = some d.arity

lemma arityOfId?_other (hd : d ∈ (JavaAtlas.Outline.ofSource unit i source).declarations)
    (hk : d.element.kind.isMethod = false) : arityOfId? d.id = none := by
  have hmarked := marked_of_mem hd
  have hends {c : Char} (hc : d.id.toList.getLast? = some c) (hn : isNameChar c = true) :
      arityOfId? d.id = none := by
    refine arityOfId?_eq_none fun hparen => ?_
    obtain rfl := Option.some.inj (hc.symm.trans hparen)
    exact absurd hn (by decide)
  cases ht : d.element.kind.isType with
  | true =>
    obtain ⟨c, hc, hn⟩ := (hmarked.type ht).last
    exact hends hc hn
  | false =>
    rcases hmarked.getLast?_id ht with ⟨-, c, hc, hn⟩ | ⟨hmethod, -⟩
    · exact hends hc hn
    · rw [hk] at hmethod
      cases hmethod

lemma arityShown_of_mem (hd : d ∈ (JavaAtlas.Outline.ofSource unit i source).declarations) :
    ArityShown source d := by
  have hmethod (hk : d.element.kind.isMethod = true) : ∃ type params,
      d.element.declaringType = some type ∧
      d.id = type ++ "#" ++ d.element.name ++ "(" ++ joinWith "," params ++ ")" ∧
      params.length = d.arity ∧ (∀ q ∈ params, q ≠ "") ∧
      (ClearSource source → ∀ q ∈ params, ',' ∉ q.toList) := by
    obtain ⟨p, n, x, type, hp, -, -, htype, rfl⟩ := exists_methodDeclaration hd hk
    have hcode : n.All (ParameterCode p.source) := by
      rw [hp.source_eq]
      exact hp.around.all (parse_parameterCode source.toList)
    refine ⟨type, (signatureOf p n).1, htype, rfl, rfl, fun q => ne_empty_of_mem_signature hcode,
      fun hclear q => ?_⟩
    refine comma_not_mem_signature hcode ?_
    rw [hp.source_eq]
    exact hp.around.all hclear.all
  have hnever {c : Char} (hc : (isIdentifierStart c || isIdentifierPart c) = false) :
      c ∉ d.element.name.toList := fun hmem => by
    rw [(isWord_of_mem hd).isIdentifier hmem] at hc
    cases hc
  refine ⟨arityOfId?_other hd, fun hk => ?_, fun hk hclear => ?_⟩ <;>
    obtain ⟨type, params, htype, hid, hlength, hempty, hcommas⟩ := hmethod hk <;>
    have hiff := @arityOfId?_method_iff type _ params (hnever (by decide)) (hnever (by decide)) hempty
  · exact ⟨type, params, htype, hid, hlength, by rw [hid, ← hlength]; exact hiff⟩
  · rw [hid, ← hlength, hiff]
    have ht : d.element.kind.isType = false := by
      generalize d.element.kind = k at hk
      cases k <;> first | rfl | cases hk
    exact ⟨hcommas hclear, fun hparen => absurd hparen (hclear.declaringType hd ht htype)⟩

end Identifiers

end JavaAtlas.Outline

namespace JavaAtlas.Query

open Outline Index NamePattern

variable {files : List (String × String)} {paths : PathMap} {d e : Declaration}

/-- Methods that are declared in the types with the name of `e` and as many parameters. -/
def sameArity (index : Index) (types : List Element) (e : Declaration) : List Declaration :=
  index.declarations.filter fun d =>
    d.element.kind = .method ∧ d.element.name = e.element.name ∧ d.arity = e.arity ∧
      ∃ t ∈ types, d.element.declaringType = some t.id

lemma methodsLike_eq_sameArity (hclear : ∀ f ∈ files, ClearSource f.2)
    (he : e ∈ (Index.ofFiles files).declarations) (hk : e.element.kind = .method)
    (types : List Element) :
    methodsLike (.ofFiles files) types e.element = sameArity (.ofFiles files) types e := by
  have hshown {d : Declaration} (hd : d ∈ (Index.ofFiles files).declarations)
      (hk : d.element.kind = .method) : arityOfId? d.id = some d.arity := by
    obtain ⟨path, source, hfile, hd⟩ := exists_declaredIn hd
    exact (arityShown_of_mem hd).clear (by rw [hk]; rfl) (hclear _ (List.mem_of_getElem? hfile))
  refine List.filter_congr fun d hd => decide_eq_decide.mpr (and_congr_right fun hmethod => ?_)
  rw [hshown hd hmethod, show arityOfId? e.element.id = some e.arity from hshown he hk,
    Option.some_inj]

/-- No type and no field of the files shows a number of parameters. A method or a constructor shows the
number it was declared with exactly if its parameters can be told apart, and so it does in a file whose
names and parameter types are written clearly. If all files are written so, the methods found as
implementations of a method have as many parameters as it was declared with. -/
theorem arityOfId?_declared (files : List (String × String)) (paths : PathMap) :
    let q : Query := ⟨.ofFiles files, paths⟩
    (∀ d ∈ q.index.declarations, ∃ path source, files[d.unit]? = some (path, source) ∧
      ArityShown source d) ∧
    ((∀ f ∈ files, ClearSource f.2) → ∀ e ∈ q.index.declarations, e.element.kind = .method →
      (parse? e.element.name false).isSome = true → ∀ most, q.index.declarations.length < most →
        ∃ owner, e.element.declaringType.bind q.index.declaration? = some owner ∧
          q.findImplementations e.element most =
            (sameArity q.index (q.index.allSubtypes owner.element) e).map fun d =>
              q.present (q.index.declarationHit d)) := by
  intro q
  refine ⟨fun d hd => ?_, fun hclear e he hk hname most hmost => ?_⟩
  · obtain ⟨path, source, hfile, hin⟩ := exists_declaredIn hd
    exact ⟨path, source, hfile, arityShown_of_mem hin⟩
  · obtain ⟨owner, howner⟩ := method_owner he hk
    refine ⟨owner, howner, ?_⟩
    rw [findImplementations_eq_take e.element (Nat.zero_lt_of_lt hmost),
      allImplementations_method hk howner hname, methodsLike_eq_sameArity hclear he hk,
      List.take_of_length_le]
    rw [List.length_map]
    exact (List.length_filter_le _ _).trans hmost.le

/-- The class has the method of the interface with other type arguments, and one more of its name. -/
def overridden : List (String × String) :=
  [("A.java", "interface A{void f(p.@B L<?,D>... x);}class C implements A{int f(){}int f(L<D,D>[] x){}}")]

theorem arityOfId?_declared_overridden :
    let q : Query := ⟨.ofFiles overridden, unmoved⟩
    (∀ d ∈ q.index.declarations, d.element.kind.isMethod = true → arityOfId? d.id = some d.arity) ∧
      ∃ e, q.index.declaration? "A#f(@BL[])" = some e ∧ e.element.kind = .method ∧
        (parse? e.element.name false).isSome = true ∧ q.index.declarations.length < 6 ∧
        (∀ f ∈ overridden, ClearSource f.2) ∧
        (q.findImplementations e.element 6).map (·.elementId) = ["C#f(L[])"] := by
  intro q
  have hclear : ∀ f ∈ overridden, ClearSource f.2 := by decide +kernel
  have hfacts : q.index.declarations.length < 6 ∧
      ∃ e ∈ q.index.declaration? "A#f(@BL[])", e.element.kind = .method ∧
        (parse? e.element.name false).isSome = true ∧
        ∀ owner ∈ e.element.declaringType.bind q.index.declaration?,
          (sameArity q.index (q.index.allSubtypes owner.element) e).map (·.id) =
            ["C#f(L[])"] := by
    decide +kernel
  obtain ⟨hmost, e, hmem, hk, hname, hids⟩ := hfacts
  have he : q.index.declaration? "A#f(@BL[])" = some e := Option.mem_def.mp hmem
  obtain ⟨hshown, himplementations⟩ := arityOfId?_declared overridden unmoved
  refine ⟨fun d hd hk => ?_, e, he, hk, hname, hmost, hclear, ?_⟩
  · obtain ⟨path, source, hfile, hd⟩ := hshown d hd
    exact hd.clear hk (hclear _ (List.mem_of_getElem? hfile))
  · obtain ⟨owner, howner, hfound⟩ :=
      himplementations hclear e (mem_of_declaration? he) hk hname 6 hmost
    rw [hfound, List.map_map]
    exact hids owner howner

end JavaAtlas.Query
