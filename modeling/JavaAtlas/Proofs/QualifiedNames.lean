import JavaAtlas.NamePattern
import JavaAtlas.Proofs.Renumbering
import JavaAtlas.Proofs.TypeResolution
import Mathlib.Data.List.Infix

/-! Qualified names as patterns. A qualified name that may stand as a pattern fits itself and nothing
else, and shows the type and the name of the member it was made for. -/

namespace JavaAtlas.Text

variable {cs : List Char} {c : Char}

lemma mem_dropWhile {p : Char → Bool} (h : c ∈ cs) (hc : p c = false) : c ∈ cs.dropWhile p := by
  rw [← List.takeWhile_append_dropWhile (p := p) (l := cs), List.mem_append] at h
  refine h.resolve_left fun ht => ?_
  have hp := List.mem_takeWhile_imp ht
  rw [hc] at hp
  cases hp

lemma mem_trimBlanks (h : c ∈ cs) (hc : isBlank c = false) : c ∈ trimBlanks cs := by
  rw [trimBlanks, List.mem_reverse]
  exact mem_dropWhile (List.mem_reverse.mpr (mem_dropWhile h hc)) hc

lemma dropWhile_eq_self {p : Char → Bool} (h : ∃ c ∈ cs.head?, p c = false) :
    cs.dropWhile p = cs := by
  obtain ⟨c, hc, hp⟩ := h
  cases cs with
  | nil => cases hc
  | cons d cs =>
    obtain rfl : d = c := by simpa using hc
    rw [List.dropWhile_cons_of_neg (by simp [hp])]

lemma trimBlanks_eq_self (hhead : ∃ c ∈ cs.head?, isBlank c = false)
    (hlast : ∃ c ∈ cs.getLast?, isBlank c = false) : trimBlanks cs = cs := by
  rw [trimBlanks, dropWhile_eq_self hhead, dropWhile_eq_self (by rwa [List.head?_reverse]),
    List.reverse_reverse]

lemma cutFirst?_append {sep : Char} {a : String} (ha : sep ∉ a.toList) (b : String) :
    cutFirst? sep (a ++ String.ofList [sep] ++ b) = some (a, b) := by
  have hall : ∀ c ∈ a.toList, (c != sep) = true := fun c hc => by
    simpa using fun h : c = sep => ha (h ▸ hc)
  have hspan : (a ++ String.ofList [sep] ++ b).toList.span (· != sep) =
      (a.toList, sep :: b.toList) := by
    rw [List.span_eq_takeWhile_dropWhile]
    simp [String.toList_append, List.takeWhile_append_of_pos hall,
      List.dropWhile_append_of_pos hall]
  rw [cutFirst?, hspan]
  simp

end JavaAtlas.Text

namespace JavaAtlas.ElementFamily

variable (f : ElementFamily) {kind : ElementKind}

lemma accepts_of_isType (h : kind.isType = true) : f.accepts kind = (f == type) := by
  cases f <;> cases kind <;> first | rfl | cases h

lemma accepts_of_isMethod (h : kind.isMethod = true) : f.accepts kind = (f == method) := by
  cases f <;> cases kind <;> first | rfl | cases h

lemma accepts_of_isField (h : kind.isField = true) : f.accepts kind = (f == field) := by
  cases f <;> cases kind <;> first | rfl | cases h

end JavaAtlas.ElementFamily

namespace JavaAtlas

open Text

lemma qualifiedName_of_not_mem {id : String} (h : '#' ∉ id.toList) : qualifiedName id = id := by
  rw [qualifiedName, Binding.cutFirst?_eq_none_iff.mpr h]

lemma qualifiedName_append {a : String} (ha : '#' ∉ a.toList) (b : String) :
    qualifiedName (a ++ "#" ++ b) = a ++ "." ++ beforeFirst '(' b := by
  have hcut : cutFirst? '#' (a ++ "#" ++ b) = some (a, b) := cutFirst?_append ha b
  simp only [qualifiedName, hcut]

/-- Text with a hash in it, cut at the first one. -/
lemma exists_first_hash {s : String} (h : '#' ∈ s.toList) :
    ∃ a b : String, s = a ++ "#" ++ b ∧ '#' ∉ a.toList := by
  obtain ⟨a, b, hs, ha⟩ := List.eq_append_cons_of_mem h
  refine ⟨String.ofList a, String.ofList b, String.toList_injective ?_, by simpa using ha⟩
  simp [String.toList_append, hs]

/-- The parameters of a method play no part in its qualified name. -/
lemma qualifiedName_tail {kind : ElementKind} {tail : String} (ht : Outline.IsTail kind tail)
    (type name : String) :
    qualifiedName (type ++ "#" ++ name ++ tail) = qualifiedName (type ++ "#" ++ name) := by
  obtain ⟨a, b, hab, ha⟩ := exists_first_hash (s := type ++ "#" ++ name) (by simp)
  have hbefore : beforeFirst '(' (b ++ tail) = beforeFirst '(' b := by
    rcases ht with ⟨-, rfl⟩ | ⟨-, types, rfl⟩
    · rw [String.append_empty]
    · simp only [beforeFirst, String.toList_append, List.takeWhile_append]
      split
      · next hlen => simp [(List.takeWhile_prefix _).eq_of_length hlen]
      · rfl
  rw [hab, qualifiedName_append ha, String.append_assoc, qualifiedName_append ha, hbefore]

namespace NamePattern

variable {p : NamePattern} {text : String} {caseSensitive : Bool}

lemma parse?_eq_some (h : parse? text caseSensitive = some p) :
    (trimBlanks text.toList).mapM Piece.ofChar? = some p.pieces ∧
      p.qualified = (trimBlanks text.toList).contains '.' ∧ p.caseSensitive = caseSensitive := by
  simp only [parse?] at h
  split at h
  · cases h
  · split at h
    · next pieces hp =>
      obtain rfl := Option.some.inj h
      exact ⟨hp, rfl, rfl⟩
    · cases h

lemma mapM_ofChar? {cs : List Char} {pieces : List Piece} (h : cs.mapM Piece.ofChar? = some pieces) :
    (∀ c ∈ cs, Piece.ofChar? c ≠ none) ∧
      ('*' ∉ cs → '?' ∉ cs → pieces = cs.map .letter) := by
  induction cs generalizing pieces with
  | nil =>
    obtain rfl : [] = pieces := by simpa using h
    simp
  | cons c cs ih =>
    rw [List.mapM_cons] at h
    simp only [Option.bind_eq_bind, Option.bind_eq_some_iff, Option.pure_def] at h
    obtain ⟨piece, hc, rest, hrest, hp⟩ := h
    obtain rfl := Option.some.inj hp
    obtain ⟨hall, hletters⟩ := ih hrest
    constructor
    · intro d hd
      rcases List.mem_cons.mp hd with rfl | hd
      · simp [hc]
      · exact hall d hd
    · intro hstar hmark
      rw [List.mem_cons, not_or] at hstar hmark
      rw [hletters hstar.2 hmark.2, List.map_cons]
      rw [Piece.ofChar?, if_neg fun h => hstar.1 h.symm, if_neg fun h => hmark.1 h.symm] at hc
      split at hc
      · rw [Option.some.inj hc]
      · cases hc

/-- A character that no pattern has does not stand in the text of one. -/
lemma not_mem_of_parse? (h : (parse? text caseSensitive).isSome = true) {c : Char}
    (hc : Piece.ofChar? c = none) (hb : isBlank c = false) : c ∉ text.toList := by
  intro hm
  obtain ⟨p, hp⟩ := Option.isSome_iff_exists.mp h
  exact (mapM_ofChar? (parse?_eq_some hp).1).1 c (mem_trimBlanks hm hb) hc

/-- The letters of a pattern agree with those of a name, one by one. -/
def agrees (caseSensitive : Bool) : List Char → List Char → Bool
  | [], [] => true
  | l :: ls, c :: cs => sameLetter caseSensitive l c && agrees caseSensitive ls cs
  | _, _ => false

lemma agrees_self (caseSensitive : Bool) (cs : List Char) : agrees caseSensitive cs cs = true := by
  induction cs with
  | nil => rfl
  | cons c cs ih => simp [agrees, sameLetter, ih]

lemma agrees_true_iff {cs name : List Char} : agrees true cs name = true ↔ cs = name := by
  induction cs generalizing name with
  | nil => cases name <;> simp [agrees]
  | cons l cs ih => cases name <;> simp [agrees, sameLetter, ih]

lemma oneBefore_letter (l : Char) (cs name : List Char) :
    oneBefore (Piece.takes caseSensitive (.letter l)) name
        (name.tails.map (agrees caseSensitive cs)) =
      name.tails.map (agrees caseSensitive (l :: cs)) := by
  induction name with
  | nil => rfl
  | cons c name ih =>
    have hhead : (name.tails.map (agrees caseSensitive cs)).headD false =
        agrees caseSensitive cs name := by cases name <;> rfl
    rw [List.tails_cons, List.map_cons, oneBefore, hhead, ih, List.map_cons]
    rfl

/-- A pattern of letters alone fits the names that agree with it. -/
lemma fits_letters {cs : List Char} (hp : p.pieces = cs.map .letter) (name : String) :
    p.fits name = agrees p.caseSensitive cs name.toList := by
  have hanswers (name : List Char) : p.answers name = name.tails.map (agrees p.caseSensitive cs) := by
    rw [answers, hp, List.foldr_map]
    clear hp
    induction cs with
    | nil =>
      induction name with
      | nil => rfl
      | cons c name ih => simpa [agrees] using ih
    | cons l cs ih =>
      rw [List.foldr_cons, ih]
      exact oneBefore_letter l cs name
  rw [fits, hanswers]
  cases name.toList <;> rfl

end NamePattern

namespace Syntax

variable {cs a b : List Char} {c : Char}

lemma NameText.isNameChar (h : NameText cs) (hcs : cs = a ++ c :: b) (ha : '/' ∉ a) (hc : c ≠ '/') :
    isNameChar c = true ∨ isBlank c = true := by
  refine h.plain c ?_
  have hall : ∀ x ∈ a, (x != '/') = true := fun x hx => by
    simpa using fun he : x = '/' => ha (he ▸ hx)
  simp [hcs, List.takeWhile_append_of_pos hall, hc]

lemma exists_range_of_inRanges {ranges : List (Nat × Nat)} {n : Nat}
    (h : inRanges ranges n = true) : ∃ r ∈ ranges, r.1 ≤ n ∧ n ≤ r.2 := by
  induction ranges with
  | nil => cases h
  | cons r ranges ih =>
    obtain ⟨lo, hi⟩ := r
    rw [inRanges] at h
    split at h
    · cases h
    · rcases Bool.or_eq_true_iff.mp h with h | h
      · exact ⟨(lo, hi), List.mem_cons_self, by omega, by simpa using h⟩
      · obtain ⟨r, hr, hn⟩ := ih h
        exact ⟨r, List.mem_cons_of_mem _ hr, hn⟩

/-- The tables of white space and of characters of names have no code point in common. -/
lemma blankRanges_apart : ∀ r ∈ blankRanges, ∀ n ∈ List.range' r.1 (r.2 + 1 - r.1),
    inRanges identifierStartRanges n = false ∧ inRanges identifierPartRanges n = false := by
  decide +kernel

lemma isBlank_of_isNameChar (h : isNameChar c = true) : isBlank c = false := by
  by_contra hb
  obtain ⟨r, hr, hlo, hhi⟩ := exists_range_of_inRanges (by simpa [isBlank] using hb)
  obtain ⟨hstart, hpart⟩ := blankRanges_apart r hr c.toNat
    (List.mem_range'_1.mpr ⟨hlo, by omega⟩)
  simp only [isNameChar, isIdentifierStart, isIdentifierPart, hstart, hpart, Bool.or_false,
    Bool.or_eq_true, beq_iff_eq] at h
  rcases h with ((rfl | rfl) | (rfl | rfl) | rfl) | rfl <;> exact hb (by decide)

end Syntax

namespace NamePattern

open Syntax

/-- A qualified name that makes a pattern fits itself and nothing else. -/
lemma matchesName_iff {q : String} {p : NamePattern} (h : parse? q true = some p)
    (hq : NameText q.toList) (hdot : '.' ∈ q.toList) (simple qualified : String) :
    p.matchesName simple qualified = true ↔ qualified = q := by
  obtain ⟨hpieces, hqualified, hs⟩ := parse?_eq_some h
  have htrim : trimBlanks q.toList = q.toList := by
    obtain ⟨c, hc, hn⟩ := hq.head
    obtain ⟨d, hd, hn'⟩ := hq.last
    exact trimBlanks_eq_self ⟨c, hc, isBlank_of_isNameChar hn⟩ ⟨d, hd, isBlank_of_isNameChar hn'⟩
  rw [htrim] at hpieces hqualified
  have hslash : '/' ∉ q.toList :=
    not_mem_of_parse? (Option.isSome_iff_exists.mpr ⟨p, h⟩) (by decide +kernel) (by decide)
  have hnever {c : Char} (hc : isNameChar c = false) (hb : isBlank c = false) (hne : c ≠ '/') :
      c ∉ q.toList := by
    intro hm
    obtain ⟨a, b, hcs, -⟩ := List.eq_append_cons_of_mem hm
    have ha : '/' ∉ a := fun h => hslash (by simp [hcs, h])
    rcases hq.isNameChar hcs ha hne with h | h <;> simp_all
  have hletters := (mapM_ofChar? hpieces).2 (hnever (by decide) (by decide) (by decide))
    (hnever (by decide) (by decide) (by decide))
  have hdot' : p.qualified = true := by simpa [hqualified] using hdot
  rw [matchesName, if_pos hdot', fits_letters hletters, hs, agrees_true_iff, eq_comm,
    String.toList_inj]

end NamePattern

namespace Outline

open Syntax

/-- The qualified name may be searched for as it is. -/
def Sayable (d : Declaration) : Prop :=
  (NamePattern.parse? (qualifiedName d.id) true).isSome = true

variable {d d' : Declaration} {type name tail : String} {kind : ElementKind}

lemma Sayable.slash (h : Sayable d) : '/' ∉ (qualifiedName d.id).toList :=
  NamePattern.not_mem_of_parse? h (by decide +kernel) (by decide)

lemma hash_not_mem (ht : NameText type.toList) (rest : String)
    (h : '/' ∉ (qualifiedName (type ++ rest)).toList) : '#' ∉ type.toList := by
  intro hm
  obtain ⟨a, b, rfl, ha⟩ := exists_first_hash hm
  rw [String.append_assoc, qualifiedName_append ha] at h
  have hslash : '/' ∉ a.toList := fun hs => h (by simp [String.toList_append, hs])
  have hcs : (a ++ "#" ++ b).toList = a.toList ++ '#' :: b.toList := by simp [String.toList_append]
  exact absurd (ht.isNameChar hcs hslash (by decide)) (by decide)

/-- A member with a qualified name free of comments is named by its type and its own name. -/
lemma qualifiedName_member (hn : NameText name.toList) (ht : IsTail kind tail)
    (htype : '#' ∉ type.toList)
    (h : '/' ∉ (qualifiedName (type ++ "#" ++ name ++ tail)).toList) :
    qualifiedName (type ++ "#" ++ name ++ tail) = type ++ "." ++ name := by
  rw [qualifiedName_tail ht, qualifiedName_append htype] at h ⊢
  have hopen {a b : List Char} (hcs : name.toList = a ++ '(' :: b) (ha : '/' ∉ a) : False :=
    absurd (hn.isNameChar hcs ha (by decide)) (by decide)
  have hpass {a : List Char} (ha : '(' ∉ a) : ∀ c ∈ a, (c != '(') = true := fun c hc => by
    simpa using fun he : c = '(' => ha (he ▸ hc)
  have hslash : '/' ∉ name.toList := by
    intro hm
    obtain ⟨a, b, hcs, ha⟩ := List.eq_append_cons_of_mem hm
    have hparen : '(' ∉ a := by
      intro hm
      obtain ⟨a', b', rfl, -⟩ := List.eq_append_cons_of_mem hm
      exact hopen (by rw [hcs, List.append_assoc]; rfl) fun h => ha (List.mem_append_left _ h)
    apply h
    simp [beforeFirst, String.toList_append, hcs, List.takeWhile_append_of_pos (hpass hparen)]
  have hparen : '(' ∉ name.toList := by
    intro hm
    obtain ⟨a, b, hcs, -⟩ := List.eq_append_cons_of_mem hm
    exact hopen hcs fun h => hslash (by simp [hcs, h])
  rw [beforeFirst, List.takeWhile_eq_self_iff.mpr (hpass hparen), String.ofList_toList]

namespace Marked

lemma qualifiedName_type (h : Marked d) (ht : d.element.kind.isType = true) (hs : Sayable d) :
    '#' ∉ d.id.toList ∧ qualifiedName d.id = d.id := by
  have hslash := hs.slash
  have hhash := hash_not_mem (h.type ht) "" (by rwa [String.append_empty])
  exact ⟨hhash, qualifiedName_of_not_mem hhash⟩

lemma nameText (h : Marked d) (hs : Sayable d) : NameText (qualifiedName d.id).toList := by
  cases ht : d.element.kind.isType with
  | true =>
    rw [(h.qualifiedName_type ht hs).2]
    exact h.type ht
  | false =>
    obtain ⟨type, tail, -, htype, hname, hid, htail⟩ := h.member ht
    have hslash := hs.slash
    rw [hid] at hslash ⊢
    have hhash : '#' ∉ type.toList := hash_not_mem htype ("#" ++ d.element.name ++ tail)
      (by rwa [← String.append_assoc, ← String.append_assoc])
    rw [qualifiedName_member hname htail hhash hslash, String.toList_append, String.toList_append]
    exact htype.append hname

/-- The end of the identifier of a member tells fields from methods. -/
lemma getLast?_id (h : Marked d) (ht : d.element.kind.isType = false) :
    d.element.kind.isField = true ∧ (∃ c, d.id.toList.getLast? = some c ∧ isNameChar c = true) ∨
      d.element.kind.isMethod = true ∧ d.id.toList.getLast? = some ')' := by
  obtain ⟨type, tail, -, -, hname, hid, ⟨hk, rfl⟩ | ⟨hk, types, rfl⟩⟩ := h.member ht
  · obtain ⟨c, hc, hn⟩ := hname.last
    refine .inl ⟨hk, c, ?_, hn⟩
    rw [hid, String.append_empty, String.toList_append, List.getLast?_append, Option.mem_def.mp hc]
    rfl
  · refine .inr ⟨hk, ?_⟩
    rw [hid, String.toList_append, List.getLast?_append, String.toList_append,
      List.getLast?_append]
    rfl

/-- Declarations with one identifier are of one family. -/
lemma accepts_eq (h : Marked d) (h' : Marked d') (hid : d.id = d'.id) (f : ElementFamily) :
    f.accepts d.element.kind = f.accepts d'.element.kind := by
  have hparen : isNameChar ')' = false := by decide
  rcases h.same_type h' hid with ⟨ht, ht'⟩ | ⟨ht, ht', -⟩
  · rw [f.accepts_of_isType ht, f.accepts_of_isType ht']
  · have hends' := h'.getLast?_id ht'
    rw [← hid] at hends'
    rcases h.getLast?_id ht with ⟨hk, c, hc, hn⟩ | ⟨hk, hc⟩ <;>
      rcases hends' with ⟨hk', c', hc', hn'⟩ | ⟨hk', hc'⟩
    · rw [f.accepts_of_isField hk, f.accepts_of_isField hk']
    · obtain rfl := Option.some.inj (hc.symm.trans hc')
      exact absurd hn (by simp [hparen])
    · obtain rfl := Option.some.inj (hc'.symm.trans hc)
      exact absurd hn' (by simp [hparen])
    · rw [f.accepts_of_isMethod hk, f.accepts_of_isMethod hk']

end Marked

end Outline

end JavaAtlas
