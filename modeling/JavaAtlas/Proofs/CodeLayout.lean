import JavaAtlas.Proofs.LikeWalks
import JavaAtlas.Proofs.WovenTrees

/-! Comments and white space carry no meaning where the texts that are read have none in them. -/

namespace JavaAtlas.Outline

open Syntax Text List

section TypeTexts

variable {a b : String} {cs : List Char}

lemma eraseFrom_squeeze (depth : Nat) (kept cs : List Char) :
    eraseFrom depth kept (squeeze cs) = eraseFrom depth kept cs := by
  induction cs generalizing depth kept with
  | nil => rfl
  | cons c cs ih =>
    cases hc : isBlank c with
    | false =>
      rw [squeeze, filter_cons_of_pos (by simp [hc])]
      simp only [eraseFrom, ← squeeze.eq_def, ih]
    | true =>
      have hne {d : Char} (hd : isBlank d = false) : c ≠ d := by
        rintro rfl
        rw [hc] at hd
        cases hd
      have hopen : c ≠ '<' := hne (by decide)
      have hclose : c ≠ '>' := hne (by decide)
      have hleft : c ≠ '[' := hne (by decide)
      have hright : c ≠ ']' := hne (by decide)
      have hdot : c ≠ '.' := hne (by decide)
      rw [squeeze, filter_cons_of_neg (by simp [hc]), ← squeeze.eq_def, ih]
      simp [eraseFrom, hopen, hclose, hleft, hright, hdot, hc]

lemma eraseType_congr (h : squeeze a.toList = squeeze b.toList) : eraseType a = eraseType b := by
  rw [eraseType, eraseType, ← eraseFrom_squeeze, h, eraseFrom_squeeze]

/-- Whether white space stands between the brackets of a pair. -/
def parted : List Char → Bool
  | [] => false
  | c :: cs =>
    (c == '[' && cs.head?.any isBlank && (cs.dropWhile isBlank).head? == some ']') || parted cs

lemma head?_squeeze (cs : List Char) : (squeeze cs).head? = (cs.dropWhile isBlank).head? := by
  induction cs with
  | nil => rfl
  | cons c cs ih =>
    cases hc : isBlank c with
    | false =>
      rw [squeeze, filter_cons_of_pos (by simp [hc]), dropWhile_cons_of_neg (by simp [hc])]
      rfl
    | true =>
      rw [squeeze, filter_cons_of_neg (by simp [hc]), dropWhile_cons_of_pos (by simp [hc])]
      exact ih

lemma countBrackets_cons {c : Char} (h : ¬(c = '[' ∧ cs.head? = some ']')) :
    countBrackets (c :: cs) = countBrackets cs := by
  rw [countBrackets.eq_def]
  split
  · next heq =>
    obtain ⟨rfl, rfl⟩ := cons.inj heq
    exact absurd ⟨rfl, rfl⟩ h
  · next heq => rw [(cons.inj heq).2]
  · next heq => cases heq

lemma countBrackets_squeeze (h : parted cs = false) : countBrackets (squeeze cs) = countBrackets cs := by
  induction cs with
  | nil => rfl
  | cons c cs ih =>
    simp only [parted, Bool.or_eq_false_iff] at h
    have hcs := ih h.2
    cases hc : isBlank c with
    | true =>
      have hne : c ≠ '[' := by
        rintro rfl
        exact absurd hc (by decide)
      rw [squeeze, filter_cons_of_neg (by simp [hc]), countBrackets_cons (by simp [hne])]
      exact hcs
    | false =>
      rw [squeeze, filter_cons_of_pos (by simp [hc])]
      change countBrackets (c :: squeeze cs) = _
      by_cases hpair : c = '[' ∧ (squeeze cs).head? = some ']'
      · obtain ⟨rfl, hnext⟩ := hpair
        rw [head?_squeeze] at hnext
        obtain ⟨ds, rfl⟩ : ∃ ds, cs = ']' :: ds := by
          cases cs with
          | nil => simp at hnext
          | cons d ds =>
            have hd : isBlank d = false := by simpa [hnext] using h.1
            rw [dropWhile_cons_of_neg (by simp [hd])] at hnext
            exact ⟨ds, by simpa using hnext⟩
        change countBrackets ('[' :: ']' :: squeeze ds) = countBrackets ('[' :: ']' :: ds)
        change countBrackets (']' :: squeeze ds) = countBrackets (']' :: ds) at hcs
        rw [countBrackets_cons (by simp), countBrackets_cons (by simp)] at hcs
        rw [countBrackets, countBrackets, hcs]
      · have hno : ¬(c = '[' ∧ cs.head? = some ']') := by
          rintro ⟨rfl, hnext⟩
          obtain ⟨ds, rfl⟩ := head?_eq_some_iff.mp hnext
          exact hpair ⟨rfl, rfl⟩
        rw [countBrackets_cons hpair, countBrackets_cons hno, hcs]

/-- How a parameter type is shown depends on its code alone, if its brackets are not parted. -/
lemma signatureType_congr (h : squeeze a.toList = squeeze b.toList) (ha : parted a.toList = false)
    (hb : parted b.toList = false) (varargs : Bool) :
    signatureType a varargs = signatureType b varargs := by
  rw [signatureType, signatureType, eraseType_congr h, ← countBrackets_squeeze ha, h,
    countBrackets_squeeze hb]

end TypeTexts

/-! ### Texts that are read -/

/-- The supertypes that a clause of a type declaration writes. -/
def heirs (n : Node) : List Node :=
  match n.kind with
  | .superclass => n.named
  | .superInterfaces | .extendsInterfaces => n.named.flatMap Node.named
  | _ => []

lemma heirTexts_eq (text : Node → String) (n : Node) : heirTexts text n = (heirs n).map text := by
  rw [heirTexts]
  split
  · next h => simp [heirs, h]
  · next h => simp [heirs, h, map_flatMap]
  · next h => simp [heirs, h, map_flatMap]
  · rw [heirs]
    split <;> first | contradiction | rfl

/-- The nodes whose texts are read as types at a node. -/
def typesRead (n : Node) : List Node :=
  (n.child? .type).toList ++ heirs n ++
    match n.kind with
    | .instanceTest => (n.child? .right).toList
    | .spreadParameter => (spreadType? n).toList
    | .catchType => n.named.head?.toList
    | .formalParameter => (n.child? .dimensions).toList
    | .typeIdentifier | .scopedType | .genericType | .arrayType => [n]
    | _ => []

/-- The text of a node of a file. -/
def textIn (source : List Char) (n : Node) : String := slice source n.start n.stop

/-- The node is code, with no comment in it. -/
def IsCode (source : List Char) (n : Node) : Prop :=
  n.kind ≠ .comment ∧ Uncommented source n.start n.stop

instance (source : List Char) : DecidablePred (IsCode source) :=
  fun _ => inferInstanceAs (Decidable (_ ∧ _))

/-- Comments and white space stand where they do not come into a text that is read at the node. -/
structure Tidy (source : List Char) (n : Node) : Prop where
  word : n.isSpelled = true → Uncommented source n.start n.stop ∧
    ∀ c ∈ (textIn source n).toList, isBlank c = false
  types : ∀ t ∈ typesRead n, IsCode source t
  parameter : n.kind = .formalParameter → ∀ t ∈ n.child? .type,
    parted (textIn source t ++ n.bracketText (textIn source)).toList = false
  spread : n.kind = .spreadParameter → ∀ t ∈ spreadType? n,
    parted (textIn source t).toList = false
  inner : n.kind = .parenthesized → ∀ c ∈ n.named.head?, c.kind ≠ .comment
  inferred : n.kind = .inferredParameters → ∀ c ∈ n.named, c.kind = .identifier

instance (source : List Char) : DecidablePred (Tidy source) := fun n =>
  decidable_of_iff
    ((n.isSpelled = true → Uncommented source n.start n.stop ∧
        (textIn source n).toList.all (!isBlank ·) = true) ∧
      (∀ t ∈ typesRead n, IsCode source t) ∧
      (n.kind = .formalParameter → ∀ t ∈ n.child? .type,
        parted (textIn source t ++ n.bracketText (textIn source)).toList = false) ∧
      (n.kind = .spreadParameter → ∀ t ∈ spreadType? n,
        parted (textIn source t).toList = false) ∧
      (n.kind = .parenthesized → ∀ c ∈ n.named.head?, c.kind ≠ .comment) ∧
      (n.kind = .inferredParameters → ∀ c ∈ n.named, c.kind = .identifier))
    ⟨fun ⟨h₁, h₂, h₃, h₄, h₅, h₆⟩ => ⟨by simpa using h₁, h₂, h₃, h₄, h₅, h₆⟩,
      fun ⟨h₁, h₂, h₃, h₄, h₅, h₆⟩ => ⟨by simpa using h₁, h₂, h₃, h₄, h₅, h₆⟩⟩

section Parts

variable {R : Node → Node → Prop} {ns ns' : List Node} {n n' c c' : Node} {test : Node → Bool}

lemma isRemark_of_kind (h : c.kind ≠ .comment) : c.isRemark = false := by
  simp [Node.isRemark, h]

lemma code_eq_self (h : ∀ c ∈ ns, c.kind ≠ .comment) : Node.code ns = ns :=
  filter_eq_self.mpr fun c hc => by simp [isRemark_of_kind (h c hc)]

/-- What is found first is found in the code if it is no remark. -/
lemma find?_code_of (h : ∀ c ∈ ns.find? test, c.kind ≠ .comment) :
    (Node.code ns).find? test = ns.find? test := by
  induction ns with
  | nil => rfl
  | cons c ns ih =>
    cases ht : test c with
    | true =>
      rw [find?_cons_of_pos (by exact ht)] at h ⊢
      rw [Node.code, filter_cons_of_pos (by simp [isRemark_of_kind (h c rfl)]),
        find?_cons_of_pos (by exact ht)]
    | false =>
      rw [find?_cons_of_neg (by simp [ht])] at h ⊢
      rw [← ih h, Node.code, Node.code]
      cases hr : c.isRemark with
      | true => rw [filter_cons_of_neg (by simp [hr])]
      | false => rw [filter_cons_of_pos (by simp [hr]), find?_cons_of_neg (by simp [ht])]

lemma rel_head? (hs : Forall₂ R (Node.code ns) (Node.code ns'))
    (h : ∀ c ∈ ns.head?, c.kind ≠ .comment)
    (h' : ∀ c ∈ ns'.head?, c.kind ≠ .comment) : Option.Rel R ns.head? ns'.head? := by
  have hcode {ns : List Node} (h : ∀ c ∈ ns.head?, c.kind ≠ .comment) :
      (Node.code ns).head? = ns.head? := by
    cases ns with
    | nil => rfl
    | cons c ns => rw [Node.code, filter_cons_of_pos (by simp [isRemark_of_kind (h c rfl)])]; rfl
  rw [← hcode h, ← hcode h']
  generalize Node.code ns = cs, Node.code ns' = cs' at hs
  cases hs with
  | nil => exact .none
  | cons hc _ => exact .some hc

lemma rel_find? (hs : Forall₂ R (Node.code ns) (Node.code ns'))
    (h : ∀ c ∈ ns.find? test, c.kind ≠ .comment) (h' : ∀ c ∈ ns'.find? test, c.kind ≠ .comment)
    (ht : ∀ c c', R c c' → test c = test c') : Option.Rel R (ns.find? test) (ns'.find? test) := by
  rw [← find?_code_of h, ← find?_code_of h']
  rcases Likeness.forall₂_find? ht hs with ⟨hc, hc'⟩ | ⟨c, c', hc, hc', hcc⟩
  · rw [hc, hc']
    exact .none
  · rw [hc, hc']
    exact .some hcc

end Parts

section Pairs

variable {zs : List TokenPair} {n n' c c' : Node}

/-- Corresponding nodes of two trees, or the two roots. -/
def Paired (zs : List TokenPair) (n n' : Node) : Prop :=
  Woven zs n n' ∨ (n.kind = .program ∧ n'.kind = .program ∧ n.slot? = none ∧ n'.slot? = none) ∧
    Forall₂ (Woven zs) (Node.code n.children) (Node.code n'.children)

namespace Paired

lemma kind_eq (h : Paired zs n n') : n.kind = n'.kind := by
  rcases h with h | ⟨⟨hk, hk', -⟩, -⟩
  · cases h
    assumption
  · rw [hk, hk']

lemma slot_eq (h : Paired zs n n') : n.slot? = n'.slot? := by
  rcases h with h | ⟨⟨-, -, hs, hs'⟩, -⟩
  · cases h
    assumption
  · rw [hs, hs']

lemma parts (h : Paired zs n n') :
    Forall₂ (Woven zs) (Node.code n.children) (Node.code n'.children) := by
  rcases h with h | ⟨-, h⟩
  · cases h
    assumption
  · exact h

lemma named (h : Paired zs n n') : Forall₂ (Woven zs) (Node.code n.named) (Node.code n'.named) := by
  have hcomm (l : List Node) : Node.code (l.filter (·.kind != .mark)) =
      (Node.code l).filter (·.kind != .mark) := by
    simp only [Node.code, filter_filter, Bool.and_comm]
  rw [Node.named, Node.named, hcomm, hcomm]
  exact rel_filter (fun c c' hc => by simp [(show Paired zs c c' from .inl hc).kind_eq]) h.parts

lemma woven (h : Paired zs n n') (hk : n.kind ≠ .program ∨ n.slot? ≠ none) : Woven zs n n' := by
  rcases h with h | ⟨⟨hkind, -, hslot, -⟩, -⟩
  · exact h
  · rcases hk with hk | hk
    · exact absurd hkind hk
    · exact absurd hslot hk

lemma child? (h : Paired zs n n') (s : Slot) :
    Option.Rel (Woven zs) (n.child? s) (n'.child? s) := by
  have hremark (c : Node) (hr : c.isRemark = true) : (c.slot? == some s) = false := by
    rw [Likeness.slot_of_isRemark hr]
    rfl
  have hslot (c c' : Node) (hc : Woven zs c c') : (c.slot? == some s) = (c'.slot? == some s) := by
    rw [(show Paired zs c c' from .inl hc).slot_eq]
  rw [Node.child?, Node.child?, ← Likeness.find?_code hremark n.children,
    ← Likeness.find?_code hremark n'.children]
  rcases Likeness.forall₂_find? hslot h.parts with ⟨hc, hc'⟩ | ⟨c, c', hc, hc', hcc⟩
  · rw [hc, hc']
    exact .none
  · rw [hc, hc']
    exact .some hcc

lemma isSpelled_eq (h : Paired zs n n') : n.isSpelled = n'.isSpelled := by
  rw [Node.isSpelled, Node.isSpelled, Node.isName, Node.isName, h.kind_eq, h.slot_eq]

end Paired

/-- Two sources with the same code: the pairs of their tokens. -/
structure SameCode (zs : List TokenPair) (source source' : List Char) : Prop where
  matched : Matched zs
  left : zs.map Prod.fst = codeTokens source
  right : zs.map Prod.snd = codeTokens source'

variable {source source' : List Char}

lemma sameType (hz : SameCode zs source source') (h : Woven zs c c') (hc : IsCode source c)
    (hc' : IsCode source' c') : SameType (textIn source c) (textIn source' c') := by
  cases h with
  | mk _ _ spans _ _ => exact spans.sameType hz.matched hz.left hz.right hc.2 hc'.2

lemma rel_sameType (hz : SameCode zs source source') {o o' : Option Node}
    (h : Option.Rel (Woven zs) o o') (ho : ∀ c ∈ o, IsCode source c)
    (ho' : ∀ c ∈ o', IsCode source' c) :
    Option.Rel SameType (o.map (textIn source)) (o'.map (textIn source')) := by
  cases h with
  | none => exact .none
  | some h => exact .some (sameType hz h (ho _ rfl) (ho' _ rfl))

lemma signature_eq (hz : SameCode zs source source') {o o' : Option Node}
    (h : Option.Rel (Woven zs) o o') (ho : ∀ c ∈ o, IsCode source c)
    (ho' : ∀ c ∈ o', IsCode source' c) (hp : ∀ c ∈ o, parted (textIn source c).toList = false)
    (hp' : ∀ c ∈ o', parted (textIn source' c).toList = false) :
    o.map (fun c => signatureType (textIn source c) true) =
      o'.map fun c => signatureType (textIn source' c) true := by
  cases h with
  | none => rw [Option.map_none, Option.map_none]
  | @some c c' h =>
    have htype := sameType hz h (ho c rfl) (ho' c' rfl)
    rw [Option.map_some, Option.map_some,
      signatureType_congr htype.squeeze_eq (hp c rfl) (hp' c' rfl) true]

/-- What is read as it stands is the same. -/
lemma spelled_eq (hz : SameCode zs source source') (h : Paired zs n n') (ht : Tidy source n)
    (ht' : Tidy source' n') (hs : n.isSpelled = true) : textIn source n = textIn source' n' := by
  have hw : Woven zs n n' := by
    refine h.woven (not_and_or.mp fun hroot => ?_)
    simp [Node.isSpelled, Node.isName, hroot.1, hroot.2] at hs
  obtain ⟨hu, hblank⟩ := ht.word hs
  obtain ⟨hu', hblank'⟩ := ht'.word (h.isSpelled_eq ▸ hs)
  have hsqueeze : squeeze (textIn source n).toList = squeeze (textIn source' n').toList := by
    cases hw with
    | mk _ _ spans _ _ => exact (spans.sameType hz.matched hz.left hz.right hu hu').squeeze_eq
  have hself {cs : List Char} (hcs : ∀ c ∈ cs, isBlank c = false) : squeeze cs = cs :=
    filter_eq_self.mpr fun c hc => by simp [hcs c hc]
  rw [hself hblank, hself hblank'] at hsqueeze
  exact String.toList_injective hsqueeze

lemma mem_typesRead_type {t : Node} (h : t ∈ n.child? .type) : t ∈ typesRead n := by
  rw [typesRead, Option.mem_def.mp h]
  simp

lemma mem_typesRead_heir {t : Node} (h : t ∈ heirs n) : t ∈ typesRead n := by
  simp [typesRead, h]

/-- A comment has nothing in it. -/
lemma flatMap_named_code (ns : List Node) :
    (Node.code ns).flatMap Node.named = ns.flatMap Node.named := by
  induction ns with
  | nil => rfl
  | cons c ns ih =>
    rw [Node.code] at ih ⊢
    cases hr : c.isRemark with
    | true =>
      have hempty : c.named = [] := by
        simp only [Node.isRemark, Bool.and_eq_true, List.isEmpty_iff] at hr
        rw [Node.named, hr.2, filter_nil]
      rw [filter_cons_of_neg (by simp [hr]), ih, flatMap_cons, hempty, nil_append]
    | false => rw [filter_cons_of_pos (by simp [hr]), flatMap_cons, flatMap_cons, ih]

namespace Paired

lemma named_of_code (h : Paired zs n n') (hc : ∀ c ∈ n.named, c.kind ≠ .comment)
    (hc' : ∀ c ∈ n'.named, c.kind ≠ .comment) : Forall₂ (Woven zs) n.named n'.named := by
  rw [← code_eq_self hc, ← code_eq_self hc']
  exact h.named

lemma lists_of_code (h : Paired zs n n') (hc : ∀ c ∈ n.named.flatMap Node.named, c.kind ≠ .comment)
    (hc' : ∀ c ∈ n'.named.flatMap Node.named, c.kind ≠ .comment) :
    Forall₂ (Woven zs) (n.named.flatMap Node.named) (n'.named.flatMap Node.named) := by
  have hparts := h.named
  rw [← flatMap_named_code n.named] at hc ⊢
  rw [← flatMap_named_code n'.named] at hc' ⊢
  generalize Node.code n.named = ms, Node.code n'.named = ms' at hparts hc hc' ⊢
  induction hparts with
  | nil => exact .nil
  | @cons m m' ms ms' hm _ ih =>
    simp only [flatMap_cons, forall_mem_append] at hc hc' ⊢
    exact rel_append (named_of_code (.inl hm) hc.1 hc'.1) (ih hc.2 hc'.2)

/-- The supertypes that are written are the same, with no comment among them. -/
lemma rel_heirs (h : Paired zs n n') (hc : ∀ c ∈ heirs n, c.kind ≠ .comment)
    (hc' : ∀ c ∈ heirs n', c.kind ≠ .comment) :
    Forall₂ (Woven zs) (heirs n) (heirs n') := by
  rw [heirs] at hc ⊢
  rw [heirs, ← h.kind_eq] at hc' ⊢
  split
  · next hk =>
    simp only [hk] at hc hc'
    exact h.named_of_code hc hc'
  · next hk =>
    simp only [hk] at hc hc'
    exact h.lists_of_code hc hc'
  · next hk =>
    simp only [hk] at hc hc'
    exact h.lists_of_code hc hc'
  · exact .nil

end Paired

lemma squeeze_append (a b : List Char) : squeeze (a ++ b) = squeeze a ++ squeeze b := filter_append ..

/-- A node and its counterpart in files that are tidy. -/
def TidyPair (zs : List TokenPair) (source source' : List Char) (n n' : Node) : Prop :=
  Paired zs n n' ∧ n.All (Tidy source) ∧ n'.All (Tidy source')

namespace TidyPair

variable (hz : SameCode zs source source') (h : TidyPair zs source source' n n')
include h

lemma tidy : Tidy source n := ((Node.all_iff n).mp h.2.1).1

lemma tidy' : Tidy source' n' := ((Node.all_iff n').mp h.2.2).1

lemma kind_eq : n.kind = n'.kind := h.1.kind_eq

lemma part (hc : Woven zs c c') (hm : c ∈ n.children) (hm' : c' ∈ n'.children) :
    TidyPair zs source source' c c' :=
  ⟨.inl hc, ((Node.all_iff n).mp h.2.1).2 c hm, ((Node.all_iff n').mp h.2.2).2 c' hm'⟩

lemma parts {ns ns' : List Node} (hs : Forall₂ (Woven zs) ns ns') (hns : ns ⊆ n.children)
    (hns' : ns' ⊆ n'.children) : Forall₂ (TidyPair zs source source') ns ns' := by
  induction hs with
  | nil => exact .nil
  | @cons c c' ns ns' hc _ ih =>
    obtain ⟨hm, hns⟩ := cons_subset.mp hns
    obtain ⟨hm', hns'⟩ := cons_subset.mp hns'
    exact .cons (h.part hc hm hm') (ih hns hns')

lemma spread (hk : n.kind = .spreadParameter) :
    Option.Rel (Woven zs) (spreadType? n) (spreadType? n') ∧
      (∀ c ∈ spreadType? n, IsCode source c) ∧ ∀ c ∈ spreadType? n', IsCode source' c := by
  have hk' : n'.kind = .spreadParameter := h.kind_eq ▸ hk
  have hcode : ∀ c ∈ spreadType? n, IsCode source c := fun c hc =>
    h.tidy.types c (by simp [typesRead, hk, Option.mem_def.mp hc])
  have hcode' : ∀ c ∈ spreadType? n', IsCode source' c := fun c hc =>
    h.tidy'.types c (by simp [typesRead, hk', Option.mem_def.mp hc])
  refine ⟨rel_find? h.1.named (fun c hc => (hcode c hc).1) (fun c hc => (hcode' c hc).1) ?_, hcode,
    hcode'⟩
  intro c c' hc
  rw [(show Paired zs c c' from .inl hc).kind_eq]

lemma inner_head (hk : n.kind = .parenthesized) :
    Option.Rel (TidyPair zs source source') n.named.head? n'.named.head? := by
  have hs := rel_head? h.1.named (h.tidy.inner hk) (h.tidy'.inner (h.kind_eq ▸ hk))
  have hin : ∀ c ∈ n.named.head?, c ∈ n.children := fun c hc =>
    Node.mem_children_of_mem_named (List.mem_of_head? hc)
  have hin' : ∀ c ∈ n'.named.head?, c ∈ n'.children := fun c hc =>
    Node.mem_children_of_mem_named (List.mem_of_head? hc)
  generalize n.named.head? = o, n'.named.head? = o' at hs hin hin'
  cases hs with
  | none => exact .none
  | @some c c' hc => exact .some (h.part hc (hin c rfl) (hin' c' rfl))

lemma qualifier (hk : n.kind = .methodReference) : ∃ q q' rest rest', n.children = q :: rest ∧
    n'.children = q' :: rest' ∧ TidyPair zs source source' q q' ∧
      Forall₂ (TidyPair zs source source') (Node.code rest) (Node.code rest') := by
  cases h.1.woven (.inl (by simp [hk])) with
  | mk _ _ _ qualified parts =>
    obtain ⟨⟨q, hq, hqk⟩, q', hq', hqk'⟩ := qualified hk
    obtain ⟨rest, hrest⟩ := head?_eq_some_iff.mp hq
    obtain ⟨rest', hrest'⟩ := head?_eq_some_iff.mp hq'
    have hcons := h.parts parts (filter_subset_self _) (filter_subset_self _)
    rw [hrest, hrest', Node.code, Node.code, filter_cons_of_pos (by simp [isRemark_of_kind hqk]),
      filter_cons_of_pos (by simp [isRemark_of_kind hqk'])] at hcons
    obtain ⟨hqq, hmore⟩ := forall₂_cons.mp hcons
    exact ⟨q, q', rest, rest', hrest, hrest', hqq, hmore⟩

include hz

lemma child_text {s : Slot} {t t' : Node} (ht : n.child? s = some t) (ht' : n'.child? s = some t')
    (hc : IsCode source t) (hc' : IsCode source' t') :
    SameType (textIn source t) (textIn source' t') := by
  have hs := h.1.child? s
  rw [ht, ht'] at hs
  cases hs with
  | some hs => exact sameType hz hs hc hc'

lemma super_texts :
    Forall₂ SameType (heirTexts (textIn source) n) (heirTexts (textIn source') n') := by
  have hin (c : Node) (hc : c ∈ heirs n) := h.tidy.types c (mem_typesRead_heir hc)
  have hin' (c : Node) (hc : c ∈ heirs n') := h.tidy'.types c (mem_typesRead_heir hc)
  have hs := h.1.rel_heirs (fun c hc => (hin c hc).1) fun c hc => (hin' c hc).1
  rw [heirTexts_eq, heirTexts_eq, forall₂_map_left_iff, forall₂_map_right_iff]
  generalize heirs n = cs, heirs n' = cs' at hs hin hin'
  induction hs with
  | nil => exact .nil
  | @cons c c' cs cs' hc _ ih =>
    exact .cons (sameType hz hc (hin c mem_cons_self) (hin' c' mem_cons_self))
      (ih (fun d hd => hin d (mem_cons_of_mem _ hd)) fun d hd => hin' d (mem_cons_of_mem _ hd))

lemma caught_text (hk : n.kind = .catchType) : Option.Rel SameType
    (n.named.head?.map (textIn source)) (n'.named.head?.map (textIn source')) := by
  have hk' : n'.kind = .catchType := h.kind_eq ▸ hk
  have hc : ∀ c ∈ n.named.head?, IsCode source c := fun c hc =>
    h.tidy.types c (by simp [typesRead, hk, Option.mem_def.mp hc])
  have hc' : ∀ c ∈ n'.named.head?, IsCode source' c := fun c hc =>
    h.tidy'.types c (by simp [typesRead, hk', Option.mem_def.mp hc])
  exact rel_sameType hz (rel_head? h.1.named (fun c h => (hc c h).1) fun c h => (hc' c h).1) hc hc'

lemma erased_eq (hk : [Kind.typeIdentifier, .scopedType, .genericType, .arrayType].contains n.kind =
    true) : eraseType (textIn source n) = eraseType (textIn source' n') := by
  have hmem {m : Node} (hm : [Kind.typeIdentifier, .scopedType, .genericType, .arrayType].contains
      m.kind = true) : m ∈ typesRead m := by
    simp only [List.contains_iff_mem, mem_cons, not_mem_nil, or_false] at hm
    rcases hm with hm | hm | hm | hm <;> simp [typesRead, hm]
  have hroot : n.kind ≠ .program := by
    intro hn
    rw [hn] at hk
    exact absurd hk (by decide)
  exact eraseType_congr (sameType hz (h.1.woven (.inl hroot)) (h.tidy.types n (hmem hk))
    (h.tidy'.types n' (hmem (h.kind_eq ▸ hk)))).squeeze_eq

lemma parameter_eq (hk : n.kind = .formalParameter) {t t' : Node} (ht : n.child? .type = some t)
    (ht' : n'.child? .type = some t') :
    signatureType (textIn source t ++ n.bracketText (textIn source)) false =
      signatureType (textIn source' t' ++ n'.bracketText (textIn source')) false := by
  have hk' : n'.kind = .formalParameter := h.kind_eq ▸ hk
  have htype := h.child_text hz ht ht' (h.tidy.types t (mem_typesRead_type ht))
    (h.tidy'.types t' (mem_typesRead_type ht'))
  have hdims := rel_sameType hz (h.1.child? .dimensions)
    (fun d hd => h.tidy.types d (by simp [typesRead, hk, Option.mem_def.mp hd]))
    fun d hd => h.tidy'.types d (by simp [typesRead, hk', Option.mem_def.mp hd])
  have hbrackets : squeeze (n.bracketText (textIn source)).toList =
      squeeze (n'.bracketText (textIn source')).toList := by
    rw [Node.bracketText, Node.bracketText]
    generalize (n.child? .dimensions).map (textIn source) = o,
      (n'.child? .dimensions).map (textIn source') = o' at hdims
    cases hdims with
    | none => rfl
    | some hd => exact hd.squeeze_eq
  refine signatureType_congr ?_ (h.tidy.parameter hk t ht) (h.tidy'.parameter hk' t' ht') false
  rw [String.toList_append, String.toList_append, squeeze_append, squeeze_append, htype.squeeze_eq,
    hbrackets]

lemma spread_eq (hk : n.kind = .spreadParameter) :
    (spreadType? n).map (fun t => signatureType (textIn source t) true) =
      (spreadType? n').map fun t => signatureType (textIn source' t) true := by
  obtain ⟨hs, hcode, hcode'⟩ := h.spread hk
  exact signature_eq hz hs hcode hcode' (h.tidy.spread hk) (h.tidy'.spread (h.kind_eq ▸ hk))

lemma inferred_eq (hk : n.kind = .inferredParameters) :
    n.named.map (textIn source) = n'.named.map (textIn source') := by
  have hid := h.tidy.inferred hk
  have hid' := h.tidy'.inferred (h.kind_eq ▸ hk)
  have hs := h.1.named
  rw [code_eq_self fun c hc => by simp [hid c hc], code_eq_self fun c hc => by simp [hid' c hc]] at hs
  have hpairs := h.parts hs (fun _ => Node.mem_children_of_mem_named)
    fun _ => Node.mem_children_of_mem_named
  rw [← forall₂_eq_eq_eq, forall₂_map_left_iff, forall₂_map_right_iff]
  generalize n.named = cs, n'.named = cs' at hpairs hid
  induction hpairs with
  | nil => exact .nil
  | @cons c c' cs cs' hc _ ih =>
    refine .cons ?_ (ih fun d hd => hid d (mem_cons_of_mem _ hd))
    exact spelled_eq hz hc.1 hc.tidy hc.tidy'
      (by simp [Node.isSpelled, Node.isName, hid c mem_cons_self])

/-- Nodes that correspond are alike in tidy files. -/
lemma likeAt : LikeAt (textIn source) (textIn source') False (fun _ => true) (fun _ => true) SameType
    (fun c c' => TidyPair zs source source' c c' ∨ False) n n' := by
  have hk' {k : Kind} (hk : n.kind = k) : n'.kind = k := h.kind_eq ▸ hk
  constructor
  case kind_eq => exact h.kind_eq
  case slot_eq => exact h.1.slot_eq
  case code_children =>
    exact (h.parts h.1.parts (filter_subset_self _) (filter_subset_self _)).imp fun _ _ hc => .inl hc
  case start_eq | stop_eq => exact False.elim
  case anchor_eq => exact fun _ => False.elim
  case seen_word | seen_anchor => exact fun _ => ⟨rfl, rfl⟩
  case spelled_eq => exact spelled_eq hz h.1 h.tidy h.tidy'
  case type_text =>
    exact fun t t' ht ht' => h.child_text hz ht ht' (h.tidy.types t (mem_typesRead_type ht))
      (h.tidy'.types t' (mem_typesRead_type ht'))
  case test_text =>
    exact fun hk t t' ht ht' => h.child_text hz ht ht' (h.tidy.types t (by simp [typesRead, hk, ht]))
      (h.tidy'.types t' (by simp [typesRead, hk' hk, ht']))
  case super_texts => exact h.super_texts hz
  case spread_text =>
    intro hk
    obtain ⟨hs, hcode, hcode'⟩ := h.spread hk
    exact rel_sameType hz hs hcode hcode'
  case caught_text => exact h.caught_text hz
  case erased_eq => exact h.erased_eq hz
  case parameter_eq => exact fun hk t t' => h.parameter_eq hz hk
  case spread_eq => exact h.spread_eq hz
  case inner_head =>
    intro hk
    have hs := h.inner_head hk
    generalize n.named.head? = o, n'.named.head? = o' at hs
    cases hs with
    | none => exact .none
    | some hc => exact .some (.inl hc)
  case inferred_eq => exact h.inferred_eq hz
  case qualifier =>
    intro hk
    obtain ⟨q, q', rest, rest', hq, hq', hqq, hrest⟩ := h.qualifier hk
    exact .inr ⟨q, q', rest, rest', hq, hq', .inl hqq, hrest.imp fun _ _ hc => .inl hc⟩

end TidyPair

end Pairs

/-! ### Outlines -/

/-- The sources have the same tokens, comments apart, and the same of them stand together. -/
def SameTokens (source source' : String) : Prop :=
  sight (codeTokens source.toList) = sight (codeTokens source'.toList)

instance (source source' : String) : Decidable (SameTokens source source') :=
  inferInstanceAs (Decidable (_ = _))

/-- Everywhere in the file comments and white space stand where they are not read. -/
def TidySource (source : String) : Prop :=
  (parse source.toList).everywhere (fun n => decide (Tidy source.toList n)) = true

instance : DecidablePred TidySource := fun _ => inferInstanceAs (Decidable (_ = true))

lemma TidySource.all {source : String} (h : TidySource source) :
    (parse source.toList).All (Tidy source.toList) := Node.all_of_everywhere h

lemma SameTokens.sameCode {source source' : String} (h : SameTokens source source') :
    ∃ zs, SameCode zs source.toList source'.toList := by
  have hlength (ts : List Token) : (sight ts).length = ts.length := by
    induction ts with
    | nil => rfl
    | cons t ts ih => rw [sight, length_cons, length_cons, ih]
  have hle : (codeTokens source.toList).length = (codeTokens source'.toList).length := by
    rw [← hlength, ← hlength, h]
  have hleft := map_fst_zip hle.le
  have hright := map_snd_zip hle.ge
  refine ⟨(codeTokens source.toList).zip (codeTokens source'.toList), ?_, hleft, hright⟩
  rw [Matched, hleft, hright]
  exact h

/-- Two tidy files with the same code, read for two projects. -/
def relaid {zs : List TokenPair} {source source' : String}
    (hz : SameCode zs source.toList source'.toList) (unit unit' : UnitRef) (i i' : Nat) :
    Likeness where
  left := rootPlace unit i source
  right := rootPlace unit' i' source'
  exact := False
  seen _ := true
  seen' _ := true
  written := SameType
  legible _ := True
  node := TidyPair zs source.toList source'.toList
  gap _ _ _ := False
  gap_at := .of_false
  veiled := veiled_of_false
  alike h := h.likeAt hz
  legible_name _ _ := trivial
  legible_append _ _ := trivial
  written_refl _ := ⟨rfl, Iff.rfl⟩
  written_erase h := eraseType_congr h.squeeze_eq
  written_var h := h.var_iff

/-- Declarations that differ in their places, and in how their types are laid out. -/
structure SameDeclaration (d d' : Declaration) : Prop where
  id_eq : d.id = d'.id
  name_eq : d.element.name = d'.element.name
  kind_eq : d.element.kind = d'.element.kind
  declaringType_eq : d.element.declaringType = d'.element.declaringType
  arity_eq : d.arity = d'.arity
  varargs_eq : d.varargs = d'.varargs
  chain_eq : d.chain = d'.chain
  typeText_eq : d.typeText.map eraseType = d'.typeText.map eraseType
  superTexts_eq : d.superTexts.map eraseType = d'.superTexts.map eraseType

/-- Mentions that differ in their places. -/
structure SameMention (m m' : Mention) : Prop where
  role_eq : m.role = m'.role
  target_eq : m.target = m'.target
  enclosing_eq : m.enclosing = m'.enclosing
  chain_eq : m.chain = m'.chain

lemma Likeness.Declared.same {zs : List TokenPair} {source source' : String}
    {hz : SameCode zs source.toList source'.toList} {unit unit' : UnitRef} {i i' : Nat}
    {d d' : Declaration} (h : (relaid hz unit unit' i i').Declared d d') : SameDeclaration d d' where
  id_eq := h.id_eq
  name_eq := h.name_eq
  kind_eq := h.kind_eq
  declaringType_eq := h.declaringType_eq
  arity_eq := h.arity_eq
  varargs_eq := h.varargs_eq
  chain_eq := h.chain_eq
  typeText_eq := by
    have ht := h.typeText
    generalize d.typeText = o, d'.typeText = o' at ht
    cases ht with
    | none => rw [Option.map_none]
    | some ht => exact congrArg some (eraseType_congr (SameType.squeeze_eq ht))
  superTexts_eq := by
    have hs := h.superTexts
    rw [← forall₂_eq_eq_eq, forall₂_map_left_iff, forall₂_map_right_iff]
    exact hs.imp fun _ _ hw => eraseType_congr (SameType.squeeze_eq hw)

/-- Comments and layout carry no meaning in tidy files. -/
theorem ofSource_of_same_tokens (source source' : String) (hcode : SameTokens source source')
    (ht : TidySource source) (ht' : TidySource source') (unit unit' : UnitRef) (i i' : Nat) :
    let o := JavaAtlas.Outline.ofSource unit i source
    let o' := JavaAtlas.Outline.ofSource unit' i' source'
    o.package = o'.package ∧ o.imports = o'.imports ∧
      Forall₂ SameDeclaration o.declarations o'.declarations ∧
      Forall₂ SameMention o.mentions o'.mentions := by
  obtain ⟨zs, hz⟩ := hcode.sameCode
  obtain ⟨hk, hk', hs, hs', hparts⟩ := parse_woven hz.matched hz.left hz.right
  have hroot : (relaid hz unit unit' i i').node (parse source.toList) (parse source'.toList) :=
    ⟨.inr ⟨⟨hk, hk', hs, hs'⟩, hparts⟩, ht.all, ht'.all⟩
  have halike := ofTree_alike (relaid hz unit unit' i i') rfl rfl hroot
  have hwhole : (relaid hz unit unit' i i').Whole := ⟨fun _ => rfl, fun _ => rfl, fun _ _ _ h => h⟩
  refine ⟨halike.package_eq, halike.imports_eq hwhole.noGap,
    (halike.declarations_of_whole hwhole).imp fun _ _ hd => hd.same,
    (halike.mentions_of_whole hwhole).imp fun m m' hm => ⟨hm.role_eq, hm.target_eq, ?_, hm.chain_eq⟩⟩
  have ho := hm.enclosing
  generalize m.enclosing = o, m'.enclosing = o' at ho
  cases ho with
  | none => rfl
  | some ho => exact congrArg some ho

/-- A source with single spaces and no comments. -/
def plainly : String := "package a.b; class A extends D { D f(D[] d) { return g(d); } }"

/-- The same code, laid out in another way. -/
def remarked : String :=
  "package a.b ;\nclass A /* is */ extends D { D f( D[] d ) { return g(/**/ d); } }"

theorem ofSource_of_same_tokens_remarked :
    SameTokens plainly remarked ∧ TidySource plainly ∧ TidySource remarked ∧
      (let o := JavaAtlas.Outline.ofSource ⟨"A.java"⟩ 0 plainly
       let o' := JavaAtlas.Outline.ofSource ⟨"A.java"⟩ 0 remarked
       o.package = o'.package ∧ o.imports = o'.imports ∧
         Forall₂ SameDeclaration o.declarations o'.declarations ∧
         Forall₂ SameMention o.mentions o'.mentions) := by
  have hcode : SameTokens plainly remarked := by decide +kernel
  have ht : TidySource plainly := by decide +kernel
  have ht' : TidySource remarked := by decide +kernel
  exact ⟨hcode, ht, ht', ofSource_of_same_tokens plainly remarked hcode ht ht' _ _ _ _⟩

end JavaAtlas.Outline
