import JavaAtlas.Proofs.CodeLayout
import JavaAtlas.Proofs.QualifiedNames
import JavaAtlas.Proofs.TiledTrees
import JavaAtlas.Proofs.TypeResolution

/-! What erasing and resolving leave of a name. Whatever a written type is resolved to, its last part
stays; and the erasure keeps the last part if the angle brackets before it come in pairs. -/

namespace JavaAtlas.Text

variable {sep : Char} {s : String}

lemma afterLast_of_not_mem (h : sep ∉ s.toList) : afterLast sep s = s := by
  have hall : ∀ c ∈ s.toList.reverse, (c != sep) = true := by
    intro c hc
    simp only [bne_iff_ne]
    rintro rfl
    exact h (List.mem_reverse.mp hc)
  rw [afterLast, List.takeWhile_eq_self_iff.mpr hall, List.reverse_reverse, String.ofList_toList]

lemma afterLast_point (a b : String) : afterLast '.' (a ++ "." ++ b) = afterLast '.' b := by
  have hlist : (a ++ "." ++ b).toList.reverse = b.toList.reverse ++ '.' :: a.toList.reverse := by simp
  rw [afterLast, afterLast, hlist, List.takeWhile_append]
  split
  · next hlen =>
    rw [(List.takeWhile_prefix _).eq_of_length hlen, List.takeWhile_cons_of_neg (by simp),
      List.append_nil]
  · rfl

lemma cutFirst?_eq_some {head rest : String} (h : cutFirst? '.' s = some (head, rest)) :
    s = head ++ "." ++ rest ∧ '.' ∉ head.toList := by
  rw [cutFirst?, List.span_eq_takeWhile_dropWhile] at h
  split at h
  · cases h
  · next before c after heq =>
    obtain ⟨rfl, hdrop⟩ := Prod.mk.inj heq
    obtain ⟨rfl, rfl⟩ := Prod.mk.inj (Option.some.inj h)
    have hhead := List.head?_dropWhile_not (· != '.') s.toList
    rw [hdrop] at hhead
    obtain rfl : c = '.' := by simpa using hhead
    refine ⟨String.toList_injective ?_, fun hmem => ?_⟩
    · simp [← hdrop]
    · rw [String.toList_ofList] at hmem
      simpa using List.mem_takeWhile_imp hmem

end JavaAtlas.Text

namespace JavaAtlas.Binding

open Outline Text

variable {isType : String → Bool} {scope : UnitScope} {chain : List String} {name : String}

lemma id_ofQualified (id : String) : (ofQualified isType id).id = id := by
  rw [ofQualified]
  split <;> rfl

lemma afterLast_fromEnclosing {outer : String} {ref : TypeRef} (hname : '.' ∉ name.toList)
    (h : fromEnclosing isType name outer = some ref) : afterLast '.' ref.id = name := by
  rw [fromEnclosing] at h
  split at h
  · next heq =>
    obtain rfl := Option.some.inj h
    exact heq
  · dsimp only at h
    split at h
    · obtain rfl := Option.some.inj h
      exact (afterLast_point outer name).trans (afterLast_of_not_mem hname)
    · cases h

/-- However a simple name is resolved, the last part of the outcome is that name. -/
lemma afterLast_resolveSimple (hname : '.' ∉ name.toList) :
    afterLast '.' (resolveSimple isType scope chain name).id = name := by
  have hself : afterLast '.' name = name := afterLast_of_not_mem hname
  have hqualified (outer : String) : afterLast '.' (outer ++ "." ++ name) = name :=
    (afterLast_point outer name).trans hself
  rw [resolveSimple]
  split
  · next henclosing =>
    obtain ⟨outer, -, hfrom⟩ := List.exists_of_findSome?_eq_some henclosing
    exact afterLast_fromEnclosing hname hfrom
  · next i _ hsingle =>
    have hi := List.find?_some hsingle
    simp only [Bool.and_eq_true, Bool.or_eq_true, beq_iff_eq] at hi
    rw [id_ofQualified]
    rcases hi.2 with hends | heq
    · obtain ⟨front, hfront⟩ := List.isSuffixOf_iff_suffix.mp hends
      have hpath : i.path = String.ofList front ++ "." ++ name :=
        String.toList_injective (by simpa using hfront.symm)
      rw [hpath, hqualified]
    · rw [heq, hself]
  · split
    · next id hfind =>
      rcases List.mem_cons.mp (List.mem_of_find?_eq_some hfind) with rfl | hdemand
      · simp only [TypeRef.id]
        split
        · exact hself
        · exact hqualified _
      · obtain ⟨i, -, rfl⟩ := List.mem_map.mp hdemand
        exact hqualified _
    · split
      · exact (afterLast_point "java.lang" name).trans hself
      · exact hself

/-- However a written type is resolved, the last part of its name stays. -/
theorem afterLast_resolveType (written : String) :
    afterLast '.' (resolveType isType scope chain written).id = afterLast '.' (eraseType written) := by
  rw [resolveType]
  split
  · next hcut =>
    have hname := cutFirst?_eq_none_iff.mp hcut
    rw [afterLast_resolveSimple hname, afterLast_of_not_mem hname]
  · next head rest hcut =>
    obtain ⟨hname, -⟩ := cutFirst?_eq_some hcut
    split
    · rfl
    · split
      · rw [id_ofQualified, hname, afterLast_point, afterLast_point]
      · rfl

end JavaAtlas.Binding

namespace JavaAtlas.Outline

open Syntax Text List

section Erasure

variable {c : Char} {cs ds kept : List Char} {depth : Nat}

/-- Characters that the erasure keeps wherever they stand outside angle brackets. -/
def isKept (c : Char) : Bool :=
  c != '<' && c != '>' && c != '[' && c != ']' && c != '.' && !isBlank c

lemma isKept_of_isIdentifier (h : (isIdentifierStart c || isIdentifierPart c) = true) :
    isKept c = true := by
  have hne {d : Char} (hd : (isIdentifierStart d || isIdentifierPart d) = false) : c ≠ d := by
    rintro rfl
    rw [hd] at h
    cases h
  have hblank : isBlank c = false := isBlank_of_isNameChar (by rw [isNameChar, h, Bool.true_or])
  simp only [isKept, hblank, hne (d := '<') (by decide), hne (d := '>') (by decide),
    hne (d := '[') (by decide), hne (d := ']') (by decide), hne (d := '.') (by decide), bne_iff_ne,
    ne_eq, not_false_eq_true, Bool.and_eq_true, Bool.not_false, and_self]

lemma eraseFrom_cons_kept (h : isKept c = true) :
    eraseFrom 0 kept (c :: cs) = eraseFrom 0 (c :: kept) cs := by
  simp only [isKept, Bool.and_eq_true, bne_iff_ne, Bool.not_eq_true'] at h
  simp [eraseFrom, h]

lemma eraseFrom_kept (h : ∀ c ∈ cs, isKept c = true) :
    eraseFrom 0 kept cs = ((cs.reverse ++ kept).dropWhile (· == '.')).reverse := by
  induction cs generalizing kept with
  | nil => rfl
  | cons c cs ih =>
    obtain ⟨hc, hcs⟩ := forall_mem_cons.mp h
    rw [eraseFrom_cons_kept hc, ih hcs, reverse_cons, append_assoc]
    rfl

/-- Where brackets are closed again, the erasure keeps nothing inside others and goes on as before. -/
def Balanced (cs : List Char) : Prop :=
  ∀ depth kept, ∃ kept', (0 < depth → kept' = kept) ∧
    ∀ rest, eraseFrom depth kept (cs ++ rest) = eraseFrom depth kept' rest

namespace Balanced

lemma nil : Balanced [] := fun _ kept => ⟨kept, fun _ => rfl, fun _ => rfl⟩

lemma append (h : Balanced cs) (h' : Balanced ds) : Balanced (cs ++ ds) := by
  intro depth kept
  obtain ⟨mid, hmid, hcs⟩ := h depth kept
  obtain ⟨kept', hkept, hds⟩ := h' depth mid
  refine ⟨kept', fun hd => (hkept hd).trans (hmid hd), fun rest => ?_⟩
  rw [append_assoc, hcs, hds]

lemma flatMap {α : Type} {xs : List α} {f : α → List Char} (h : ∀ x ∈ xs, Balanced (f x)) :
    Balanced (xs.flatMap f) := by
  induction xs with
  | nil => exact nil
  | cons x xs ih =>
    obtain ⟨hx, hxs⟩ := forall_mem_cons.mp h
    exact hx.append (ih hxs)

lemma one (hopen : c ≠ '<') (hclose : c ≠ '>') : Balanced [c] := by
  intro depth kept
  -- a character is dropped inside brackets, by itself, or as a second point; else it is kept
  by_cases hdepth : 0 < depth
  · exact ⟨kept, fun _ => rfl, fun rest => by simp [eraseFrom, hopen, hclose, hdepth]⟩
  by_cases hdrop : (c = '[' ∨ c = ']') ∨ c = '.' ∧ kept.head? = some '.' ∨ isBlank c = true
  · refine ⟨kept, fun _ => rfl, fun rest => ?_⟩
    rcases hdrop with h | h | h <;> simp [eraseFrom, hopen, hclose, hdepth, h]
  · simp only [not_or] at hdrop
    obtain ⟨⟨hl, hr⟩, hpoint, hblank⟩ := hdrop
    exact ⟨c :: kept, fun h => absurd h hdepth, fun rest => by
      simp [eraseFrom, hopen, hclose, hdepth, hl, hr, hpoint, hblank]⟩

lemma of_bracketless (h : bracketless cs = true) : Balanced cs := by
  induction cs with
  | nil => exact nil
  | cons c cs ih =>
    simp only [bracketless, all_cons, Bool.and_eq_true, bne_iff_ne] at h
    obtain ⟨⟨hopen, hclose⟩, hcs⟩ := h
    exact (one hopen hclose).append (ih hcs)

end Balanced

lemma eraseFrom_brackets (h : Balanced cs) (rest : List Char) :
    eraseFrom depth kept ('<' :: cs ++ '>' :: rest) = eraseFrom depth kept rest := by
  obtain ⟨kept', hkept, hcs⟩ := h (depth + 1) kept
  obtain rfl := hkept (Nat.succ_pos depth)
  rw [cons_append]
  simp [eraseFrom, hcs]

lemma Balanced.brackets (h : Balanced cs) : Balanced ('<' :: cs ++ ['>']) := by
  intro depth kept
  refine ⟨kept, fun _ => rfl, fun rest => ?_⟩
  rw [append_assoc]
  exact eraseFrom_brackets h rest

lemma eraseFrom_append_congr (h : ∀ depth kept, eraseFrom depth kept cs = eraseFrom depth kept ds)
    (before : List Char) :
    eraseFrom depth kept (before ++ cs) = eraseFrom depth kept (before ++ ds) := by
  induction before generalizing depth kept with
  | nil => exact h depth kept
  | cons c before ih => simp only [cons_append, eraseFrom, ih]

/-- The last part of a name is what follows the last point outside angle brackets. -/
lemma afterLast_erase_pointed (h : Balanced cs) (hds : ∀ c ∈ ds, isKept c = true) (hne : ds ≠ []) :
    afterLast '.' (String.ofList (eraseFrom 0 [] (cs ++ '.' :: ds))) = String.ofList ds := by
  obtain ⟨kept, -, hcs⟩ := h 0 []
  obtain ⟨others, hpoint⟩ : ∃ others, ∀ rest,
      eraseFrom 0 kept ('.' :: rest) = eraseFrom 0 ('.' :: others) rest := by
    by_cases hk : kept.head? = some '.'
    · obtain ⟨others, rfl⟩ := head?_eq_some_iff.mp hk
      exact ⟨others, fun rest => by simp [eraseFrom]⟩
    · exact ⟨kept, fun rest => by simp [eraseFrom, hk, show isBlank '.' = false by decide]⟩
  have hlast : (ds.reverse ++ '.' :: others).dropWhile (· == '.') = ds.reverse ++ '.' :: others := by
    obtain ⟨c, cs, heq⟩ := exists_cons_of_ne_nil (reverse_ne_nil_iff.mpr hne)
    have hc := hds c (mem_reverse.mp (heq ▸ mem_cons_self))
    rw [heq, cons_append, dropWhile_cons_of_neg]
    rintro hpoint
    rw [eq_of_beq hpoint] at hc
    exact absurd hc (by decide)
  rw [hcs, hpoint, eraseFrom_kept hds, hlast]
  have hsplit : String.ofList (ds.reverse ++ '.' :: others).reverse =
      String.ofList others.reverse ++ "." ++ String.ofList ds :=
    String.toList_injective (by simp)
  rw [hsplit, afterLast_point, afterLast_of_not_mem]
  rw [String.toList_ofList]
  exact fun hmem => absurd (hds _ hmem) (by decide)

end Erasure

/-! ### Erasing twice -/

section Twice

variable {c : Char} {cs kept : List Char} {depth : Nat}

/-- Nothing is left to erase, from the last character to the first. -/
def Settled (kept : List Char) : Prop :=
  (∀ c ∈ kept, c = '.' ∨ isKept c = true) ∧ kept.IsChain fun a b => ¬(a = '.' ∧ b = '.')

lemma Settled.cons_kept (h : Settled kept) (hc : isKept c = true) : Settled (c :: kept) := by
  refine ⟨forall_mem_cons.mpr ⟨.inr hc, h.1⟩, isChain_cons.mpr ⟨fun d _ hpoints => ?_, h.2⟩⟩
  rw [hpoints.1] at hc
  exact absurd hc (by decide)

lemma Settled.cons_point (h : Settled kept) (hk : kept.head? ≠ some '.') : Settled ('.' :: kept) :=
  ⟨forall_mem_cons.mpr ⟨.inl rfl, h.1⟩, isChain_cons.mpr ⟨fun d hd hpoints => hk (by
    rw [Option.mem_def.mp hd, hpoints.2]), h.2⟩⟩

lemma eraseFrom_settled (depth : Nat) (cs : List Char) (h : Settled kept) :
    ∃ left, Settled left ∧ left.head? ≠ some '.' ∧ eraseFrom depth kept cs = left.reverse := by
  induction cs generalizing depth kept with
  | nil =>
    refine ⟨kept.dropWhile (· == '.'), ⟨fun c hc => h.1 c (dropWhile_subset _ hc), ?_⟩, ?_, rfl⟩
    · exact h.2.suffix (dropWhile_suffix _)
    · intro hpoint
      have hnot := head?_dropWhile_not (· == '.') kept
      rw [hpoint] at hnot
      simp at hnot
  | cons c cs ih =>
    rw [eraseFrom]
    split
    · exact ih _ h
    split
    · exact ih _ h
    split
    · exact ih _ h
    split
    · exact ih _ h
    split
    · exact ih _ h
    split
    · exact ih _ h
    by_cases hpoint : c = '.'
    · subst hpoint
      exact ih _ (h.cons_point (by simp_all))
    · exact ih _ (h.cons_kept (by simp_all [isKept]))

lemma eraseFrom_of_settled (h : Settled (cs.reverse ++ kept)) :
    eraseFrom 0 kept cs = ((cs.reverse ++ kept).dropWhile (· == '.')).reverse := by
  induction cs generalizing kept with
  | nil => rfl
  | cons c cs ih =>
    rw [reverse_cons, append_assoc] at h
    have hmem : c ∈ cs.reverse ++ ([c] ++ kept) := by simp
    rw [reverse_cons, append_assoc]
    rcases h.1 c hmem with rfl | hc
    · have hk : kept.head? ≠ some '.' := by
        intro hk
        obtain ⟨others, rfl⟩ := head?_eq_some_iff.mp hk
        have hchain := h.2.suffix (suffix_append cs.reverse _)
        simp at hchain
      rw [← ih h]
      simp [eraseFrom, hk, show isBlank '.' = false by decide]
    · rw [← ih h]
      exact eraseFrom_cons_kept hc

/-- Erasing twice erases no more. -/
theorem eraseType_eraseType (written : String) : eraseType (eraseType written) = eraseType written := by
  have hnothing : Settled [] := ⟨by simp, .nil⟩
  obtain ⟨left, hleft, hhead, heq⟩ := eraseFrom_settled 0 written.toList hnothing
  have hwhole : left.dropWhile (· == '.') = left := by
    cases left with
    | nil => rfl
    | cons c left => exact dropWhile_cons_of_neg (by simpa using hhead)
  have hagain : Settled (left.reverse.reverse ++ []) := by simpa using hleft
  rw [eraseType, eraseType, heq, String.toList_ofList, eraseFrom_of_settled hagain, append_nil,
    reverse_reverse, hwhole]

end Twice

end JavaAtlas.Outline
