import JavaAtlas.Proofs.WrittenTypes

/-! What the erasure of a written type is. Of names joined by points it keeps the names and the points,
whatever type arguments, white space and array brackets stand between and behind them. Of any text it
leaves one that it does not change again, and these are the texts without brackets, white space, two
points in a row and a point at the end. -/

namespace JavaAtlas.Outline

open Binding Syntax Text List

variable {cs ds gap gap' kept : List Char} {c : Char} {n t : String} {names : List String}

/-! ### Types as they are written -/

/-- White space between two tokens. -/
def IsGap (gap : List Char) : Prop := ∀ c ∈ gap, isBlank c = true

def IsSimpleName (n : String) : Prop := n ≠ "" ∧ ∀ c ∈ n.toList, isKept c = true

instance : DecidablePred IsGap := fun gap => List.decidableBAll _ gap

instance : DecidablePred IsSimpleName := fun n =>
  have := List.decidableBAll (isKept · = true) n.toList
  inferInstanceAs (Decidable (_ ∧ _))

/-- Each angle bracket that opens is closed again. -/
inductive AnglesPaired : List Char → Prop
  | nil : AnglesPaired []
  | other {c : Char} {cs : List Char} : c ≠ '<' → c ≠ '>' → AnglesPaired cs → AnglesPaired (c :: cs)
  | angles {cs ds : List Char} : AnglesPaired cs → AnglesPaired ds →
      AnglesPaired ('<' :: cs ++ ['>'] ++ ds)

/-- A simple name with white space around it, and with or without type arguments. -/
inductive NamePart (n : String) : List Char → Prop
  | plain {gap gap' : List Char} : IsSimpleName n → IsGap gap → IsGap gap' →
      NamePart n (gap ++ n.toList ++ gap')
  | generic {cs arguments gap : List Char} : NamePart n cs → AnglesPaired arguments → IsGap gap →
      NamePart n (cs ++ ('<' :: arguments ++ ['>']) ++ gap)

/-- Simple names with points between them. -/
inductive PointedNames : List String → List Char → Prop
  | one {n : String} {cs : List Char} : NamePart n cs → PointedNames [n] cs
  | more {n m : String} {names : List String} {cs ds : List Char} : NamePart n cs →
      PointedNames (m :: names) ds → PointedNames (n :: m :: names) (cs ++ ['.'] ++ ds)

/-- A type that goes by such names, an array of one, or a variable number of them. -/
inductive TypeExpression (names : List String) : List Char → Prop
  | named {cs : List Char} : PointedNames names cs → TypeExpression names cs
  | array {cs gap gap' : List Char} : TypeExpression names cs → IsGap gap → IsGap gap' →
      TypeExpression names (cs ++ (['['] ++ gap ++ [']'] ++ gap'))
  | ellipsis {cs gap : List Char} : TypeExpression names cs → IsGap gap →
      TypeExpression names (cs ++ (['.', '.', '.'] ++ gap))

lemma IsGap.skipped (h : IsGap gap) : Skipped gap := .of_blanks (all_eq_true.mpr h)

lemma AnglesPaired.bracketless_append (h : bracketless cs = true) (hds : AnglesPaired ds) :
    AnglesPaired (cs ++ ds) := by
  induction cs with
  | nil => exact hds
  | cons c cs ih =>
    simp only [bracketless, all_cons, Bool.and_eq_true, bne_iff_ne] at h
    exact .other h.1.1 h.1.2 (ih h.2)

lemma AnglesPaired.balanced (h : AnglesPaired cs) : Balanced cs := by
  induction h with
  | nil => exact .nil
  | other hopen hclose _ ih => exact (Balanced.one hopen hclose).append ih
  | angles _ _ ih ih' => exact ih.brackets.append ih'

lemma ne_point_of_isKept (h : isKept c = true) : c ≠ '.' := by
  rintro rfl
  exact absurd h (by decide)

/-- The last character is not a point. -/
def EndsInName (cs : List Char) : Prop := ∃ c, cs.getLast? = some c ∧ c ≠ '.'

lemma IsSimpleName.endsInName (h : IsSimpleName n) : EndsInName n.toList := by
  have hne : n.toList ≠ [] := String.toList_eq_nil_iff.not.mpr h.1
  exact ⟨_, getLast?_eq_some_getLast hne, ne_point_of_isKept (h.2 _ (getLast_mem hne))⟩

lemma EndsInName.append (cs : List Char) (h : EndsInName ds) : EndsInName (cs ++ ds) := by
  obtain ⟨c, hlast, hc⟩ := h
  exact ⟨c, by rw [getLast?_append, hlast, Option.some_or], hc⟩

lemma NamePart.isSimpleName (h : NamePart n cs) : IsSimpleName n := by
  induction h with
  | plain hn _ _ => exact hn
  | generic _ _ _ ih => exact ih

/-! ### What is kept of them -/

/-- Of these characters the erasure keeps those, whatever stands around them. -/
def Leaves (cs ds : List Char) : Prop :=
  ∀ kept rest, eraseFrom 0 kept (cs ++ rest) = eraseFrom 0 (ds.reverse ++ kept) rest

namespace Leaves

lemma of_kept (h : ∀ c ∈ cs, isKept c = true) : Leaves cs cs := by
  induction cs with
  | nil => exact fun kept rest => rfl
  | cons c cs ih =>
    obtain ⟨hc, hcs⟩ := forall_mem_cons.mp h
    intro kept rest
    rw [cons_append, eraseFrom_cons_kept hc, ih hcs, reverse_cons, append_assoc]
    rfl

lemma append_skipped {gap : List Char} (h : Leaves cs ds) (hgap : Skipped gap) :
    Leaves (cs ++ gap) ds := by
  intro kept rest
  rw [append_assoc, h, hgap]

lemma skipped_append {gap : List Char} (hgap : Skipped gap) (h : Leaves cs ds) :
    Leaves (gap ++ cs) ds := by
  intro kept rest
  rw [append_assoc, hgap, h]

/-- A point is kept behind a name. -/
lemma point {cs' ds' : List Char} (h : Leaves cs ds) (hds : EndsInName ds) (h' : Leaves cs' ds') :
    Leaves (cs ++ ['.'] ++ cs') (ds ++ ['.'] ++ ds') := by
  intro kept rest
  obtain ⟨c, hlast, hc⟩ := hds
  obtain ⟨others, hrev⟩ := head?_eq_some_iff.mp (head?_reverse.trans hlast)
  have hpoint (after : List Char) : eraseFrom 0 (ds.reverse ++ kept) ('.' :: after) =
      eraseFrom 0 ('.' :: (ds.reverse ++ kept)) after := by
    simp [hrev, eraseFrom, hc, show isBlank '.' = false by decide]
  rw [append_assoc, append_assoc, h, singleton_append, hpoint, h']
  simp

end Leaves

lemma NamePart.leaves (h : NamePart n cs) : Leaves cs n.toList := by
  induction h with
  | plain hn hgap hgap' =>
    exact (Leaves.skipped_append hgap.skipped (.of_kept hn.2)).append_skipped hgap'.skipped
  | generic _ harguments hgap ih =>
    exact (ih.append_skipped (.angles harguments.balanced)).append_skipped hgap.skipped

lemma PointedNames.leaves (h : PointedNames names cs) :
    Leaves cs (joinWith "." names).toList ∧ EndsInName (joinWith "." names).toList := by
  induction h with
  | one h => exact ⟨h.leaves, h.isSimpleName.endsInName⟩
  | @more n m names cs ds h _ ih =>
    have hjoined : (joinWith "." (n :: m :: names)).toList =
        n.toList ++ ['.'] ++ (joinWith "." (m :: names)).toList := by simp [joinWith]
    rw [hjoined]
    exact ⟨h.leaves.point h.isSimpleName.endsInName ih.1, ih.2.append _⟩

/-- Points behind a name leave at most other points. -/
lemma eraseFrom_points {points : List Char} (h : ∀ c ∈ points, c = '.') (kept : List Char) :
    ∃ points', (∀ c ∈ points', c = '.') ∧
      ∀ rest, eraseFrom 0 kept (points ++ rest) = eraseFrom 0 (points' ++ kept) rest := by
  induction points generalizing kept with
  | nil => exact ⟨[], by simp, fun rest => rfl⟩
  | cons c points ih =>
    obtain ⟨rfl, hpoints⟩ := forall_mem_cons.mp h
    by_cases hk : kept.head? = some '.'
    · obtain ⟨points', hpoints', heq⟩ := ih hpoints kept
      exact ⟨points', hpoints', fun rest => by simp [eraseFrom, hk, heq]⟩
    · obtain ⟨points', hpoints', heq⟩ := ih hpoints ('.' :: kept)
      refine ⟨points' ++ ['.'], by simpa [or_imp, forall_and] using hpoints', fun rest => ?_⟩
      simp [eraseFrom, hk, heq, show isBlank '.' = false by decide]

/-- Behind the names, type expressions leave points only. -/
lemma TypeExpression.leaves (h : TypeExpression names cs) :
    ∃ points, (∀ c ∈ points, c = '.') ∧
      ∀ rest, eraseFrom 0 [] (cs ++ rest) =
        eraseFrom 0 (points ++ (joinWith "." names).toList.reverse) rest := by
  induction h with
  | named h => exact ⟨[], by simp, fun rest => by rw [h.leaves.1, append_nil, nil_append]⟩
  | array _ hgap hgap' ih =>
    obtain ⟨points, hpoints, heq⟩ := ih
    have hbrackets := ((Skipped.square.1.append hgap.skipped).append Skipped.square.2).append hgap'.skipped
    exact ⟨points, hpoints, fun rest => by rw [append_assoc, heq, hbrackets]⟩
  | ellipsis _ hgap ih =>
    obtain ⟨points, hpoints, heq⟩ := ih
    obtain ⟨points', hpoints', heq'⟩ := @eraseFrom_points ['.', '.', '.'] (by simp)
      (points ++ (joinWith "." names).toList.reverse)
    refine ⟨points' ++ points, forall_mem_append.mpr ⟨hpoints', hpoints⟩, fun rest => ?_⟩
    rw [append_assoc, heq, append_assoc, heq', hgap.skipped, append_assoc]

lemma TypeExpression.names_endInName (h : TypeExpression names cs) :
    EndsInName (joinWith "." names).toList := by
  induction h with
  | named h => exact h.leaves.2
  | array _ _ _ ih | ellipsis _ _ ih => exact ih

lemma TypeExpression.eraseType_eq {written : String} (h : TypeExpression names written.toList) :
    eraseType written = joinWith "." names := by
  obtain ⟨points, hpoints, heq⟩ := h.leaves
  obtain ⟨c, hlast, hc⟩ := h.names_endInName
  obtain ⟨others, hrev⟩ := head?_eq_some_iff.mp (head?_reverse.trans hlast)
  have hend := heq []
  rw [append_nil, eraseFrom, dropWhile_append_of_pos (fun c hc => beq_iff_eq.mpr (hpoints c hc)), hrev,
    dropWhile_cons_of_neg (by simpa using hc), ← hrev, reverse_reverse] at hend
  rw [eraseType, hend, String.ofList_toList]

/-! ### Erased texts -/

/-- Nothing is left in the text that the erasure drops. -/
structure IsErased (t : String) : Prop where
  no_bracket : ∀ c ∈ ['<', '>', '[', ']'], c ∉ t.toList
  no_blank : ∀ c ∈ t.toList, isBlank c = false
  no_two_points : ∀ before after, t.toList ≠ before ++ '.' :: '.' :: after
  no_last_point : t.toList.getLast? ≠ some '.'

lemma isErased_iff_settled :
    IsErased t ↔ Settled t.toList.reverse ∧ t.toList.reverse.head? ≠ some '.' := by
  have hchain : t.toList.reverse.IsChain (fun a b => ¬(a = '.' ∧ b = '.')) ↔
      ∀ before after, t.toList ≠ before ++ '.' :: '.' :: after := by
    rw [isChain_reverse, isChain_iff_forall_rel_of_append_cons_cons]
    constructor
    · intro h before after heq
      exact h heq ⟨rfl, rfl⟩
    · rintro h a b before after heq ⟨rfl, rfl⟩
      exact h before after heq
  rw [Settled, hchain, head?_reverse]
  constructor
  · rintro ⟨hbracket, hblank, htwo, hlast⟩
    refine ⟨⟨fun c hc => ?_, htwo⟩, hlast⟩
    have hne {d : Char} (hd : d ∈ ['<', '>', '[', ']']) : c ≠ d := by
      rintro rfl
      exact hbracket c hd (mem_reverse.mp hc)
    by_cases hpoint : c = '.'
    · exact .inl hpoint
    · exact .inr (by simp [isKept, hne, hpoint, hblank c (mem_reverse.mp hc)])
  · rintro ⟨⟨hkept, htwo⟩, hlast⟩
    refine ⟨fun c hc hmem => ?_, fun c hc => ?_, htwo, hlast⟩
    · rcases hkept c (mem_reverse.mpr hmem) with rfl | hk
      · exact absurd hc (by decide)
      · simp only [isKept, Bool.and_eq_true, bne_iff_ne] at hk
        simp [hk] at hc
    · rcases hkept c (mem_reverse.mpr hc) with rfl | hc
      · decide
      · simpa [isKept] using (Bool.and_eq_true_iff.mp hc).2

lemma isErased_eraseType (written : String) : IsErased (eraseType written) := by
  obtain ⟨left, hleft, hhead, heq⟩ := eraseFrom_settled 0 written.toList ⟨by simp, .nil⟩
  rw [isErased_iff_settled, eraseType, heq, String.toList_ofList, reverse_reverse]
  exact ⟨hleft, hhead⟩

/-- The texts that the erasure leaves as they are, are those from which nothing is to be dropped. -/
lemma eraseType_eq_self_iff : eraseType t = t ↔ IsErased t := by
  constructor
  · intro h
    rw [← h]
    exact isErased_eraseType t
  · intro h
    obtain ⟨hsettled, hhead⟩ := isErased_iff_settled.mp h
    have hwhole : t.toList.reverse.dropWhile (· == '.') = t.toList.reverse := by
      rw [dropWhile_eq_self_iff]
      intro hpos hpoint
      rw [head?_eq_getElem?, getElem?_eq_getElem hpos] at hhead
      exact hhead (congrArg some (eq_of_beq hpoint))
    rw [eraseType, @eraseFrom_of_settled _ [] (by rwa [append_nil]), append_nil, hwhole, reverse_reverse,
      String.ofList_toList]

/-- The erasure of a type expression is its names with points between them. Any text it erases, once and
for all, so that it does no harm to erase a name again before it is resolved. -/
theorem eraseType_projection :
    (∀ names written, TypeExpression names written.toList → eraseType written = joinWith "." names) ∧
      (∀ written, IsErased (eraseType written) ∧ eraseType (eraseType written) = eraseType written) ∧
      (∀ t, eraseType t = t ↔ IsErased t) ∧
      ∀ isType scope chain written, resolveType isType scope chain (eraseType written) =
        resolveType isType scope chain written := by
  refine ⟨fun names written h => h.eraseType_eq, fun written => ?_, fun t => eraseType_eq_self_iff,
    fun isType scope chain written => ?_⟩
  · exact ⟨isErased_eraseType written, eraseType_eraseType written⟩
  · rw [resolveType, resolveType, eraseType_eraseType]

/-- White space around the points and in the brackets, type arguments in others, and an array of a
variable number of types. -/
theorem eraseType_projection_nestedArguments :
    TypeExpression ["java", "Map", "Entry"] "java . Map<K, List<V[]>>. Entry<V> [ ] ...".toList ∧
      eraseType "java . Map<K, List<V[]>>. Entry<V> [ ] ..." = "java.Map.Entry" := by
  have hblank : IsGap [' '] := by decide
  have hnone : IsGap [] := by decide
  have hjava : NamePart "java" "java ".toList := .plain (by decide) hnone hblank
  have hlist : AnglesPaired "K, List<V[]>".toList :=
    @AnglesPaired.bracketless_append "K, List".toList _ (by decide)
      (.angles (@AnglesPaired.bracketless_append "V[]".toList _ (by decide) .nil) .nil)
  have hmap : NamePart "Map" " Map<K, List<V[]>>".toList :=
    .generic (.plain (by decide) hblank hnone) hlist hnone
  have hentry : NamePart "Entry" " Entry<V> ".toList :=
    .generic (.plain (by decide) hblank hnone)
      (@AnglesPaired.bracketless_append "V".toList _ (by decide) .nil) hblank
  have htype : TypeExpression ["java", "Map", "Entry"]
      "java . Map<K, List<V[]>>. Entry<V> [ ] ...".toList :=
    .ellipsis (.array (.named (.more hjava (.more hmap (.one hentry)))) hblank hblank) hnone
  exact ⟨htype, eraseType_projection.1 _ _ htype⟩

end JavaAtlas.Outline
