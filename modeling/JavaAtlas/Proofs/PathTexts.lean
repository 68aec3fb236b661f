import JavaAtlas.Proofs.SharedSources
import Mathlib.Data.List.TakeWhile

/-! What is left of the text of a path when its first components are taken away. The cut is made in
the text as it is written, with its repeated slashes and its points; what remains has the remaining
components. -/

namespace JavaAtlas

open Text

namespace Path

variable {cs : List Char} {p q : String}

/-- The pieces of a text that count as components. -/
def properPieces (cs : List Char) : List (List Char) := (splitChars '/' cs).filter (IsProper ·)

lemma properPieces_append_slash (xs ys : List Char) :
    properPieces (xs ++ '/' :: ys) = properPieces xs ++ properPieces ys := by
  rw [properPieces, splitChars_append_sep, List.filter_append]
  rfl

lemma properPieces_slash (cs : List Char) : properPieces ('/' :: cs) = properPieces cs :=
  properPieces_append_slash [] cs

lemma properPieces_of_not_mem (h : '/' ∉ cs) :
    properPieces cs = if IsProper cs then [cs] else [] := by
  simp [properPieces, splitChars_of_not_mem h, List.filter_singleton]

lemma properPieces_trimFront (cs : List Char) : properPieces (trimFront cs) = properPieces cs := by
  fun_induction trimFront cs with
  | case1 cs ih => rw [ih, properPieces_slash]
  | case2 cs ih => exact ih.trans (properPieces_append_slash ['.'] cs).symm
  | case3 => decide
  | case4 => rfl

lemma isProper_reverse_iff {piece : List Char} : IsProper piece.reverse ↔ IsProper piece := by
  refine ⟨fun h => ?_, isProper_reverse⟩
  simpa using isProper_reverse h

lemma properPieces_reverse (cs : List Char) :
    properPieces cs.reverse = ((properPieces cs).map List.reverse).reverse := by
  induction hn : cs.length using Nat.strong_induction_on generalizing cs with
  | _ n ih =>
    by_cases hs : '/' ∈ cs
    · obtain ⟨piece, rest, rfl, hp⟩ := List.eq_append_cons_of_mem hs
      have hr := ih rest.length (by simp at hn; omega) rest rfl
      have hpr := properPieces_of_not_mem (show '/' ∉ piece.reverse by simpa using hp)
      have hrev : (piece ++ '/' :: rest).reverse = rest.reverse ++ '/' :: piece.reverse := by simp
      rw [hrev, properPieces_append_slash, properPieces_append_slash, hr, hpr,
        properPieces_of_not_mem hp]
      by_cases hproper : IsProper piece
      · simp [isProper_reverse_iff, hproper]
      · simp [isProper_reverse_iff, hproper]
    · rw [properPieces_of_not_mem hs, properPieces_of_not_mem (by simpa using hs)]
      by_cases hproper : IsProper cs
      · simp [isProper_reverse_iff, hproper]
      · simp [isProper_reverse_iff, hproper]

lemma properPieces_trimBack (cs : List Char) : properPieces (trimBack cs) = properPieces cs := by
  rw [trimBack, properPieces_reverse, properPieces_trimFront, properPieces_reverse]
  simp

/-- After trimming, what stands before the next slash is a component. -/
lemma properPieces_dropWhile (cs : List Char) :
    properPieces ((trimFront cs).dropWhile (· != '/')) = (properPieces cs).tail := by
  fun_induction trimFront cs with
  | case1 cs ih => rw [ih, properPieces_slash]
  | case2 cs ih => exact ih.trans (congrArg List.tail (properPieces_append_slash ['.'] cs).symm)
  | case3 => decide
  | case4 cs hslash hpoint hone =>
    by_cases hs : '/' ∈ cs
    · obtain ⟨piece, rest, rfl, hp⟩ := List.eq_append_cons_of_mem hs
      have hproper : IsProper piece := by
        refine ⟨?_, ?_⟩
        · rintro rfl
          exact hslash rest rfl
        · rintro rfl
          exact hpoint rest rfl
      have hdrop : (piece ++ '/' :: rest).dropWhile (· != '/') = '/' :: rest := dropWhile_slash hp rest
      rw [hdrop, properPieces_slash, properPieces_append_slash, properPieces_of_not_mem hp,
        if_pos hproper]
      rfl
    · have hdrop : cs.dropWhile (· != '/') = [] := by
        rw [List.dropWhile_eq_nil_iff]
        intro c hc
        have hne : c ≠ '/' := by
          rintro rfl
          exact hs hc
        simpa using hne
      rw [hdrop, properPieces_of_not_mem hs]
      split <;> rfl

lemma properPieces_dropInner (n : Nat) (cs : List Char) :
    properPieces (dropInner n cs) = (properPieces cs).drop n := by
  induction n generalizing cs with
  | zero => exact properPieces_trimFront cs
  | succ n ih => rw [dropInner, ih, properPieces_dropWhile, List.drop_tail]

lemma trimFront_head? (cs : List Char) : (trimFront cs).head? ≠ some '/' := by
  fun_induction trimFront cs with
  | case1 cs ih | case2 cs ih => exact ih
  | case3 => simp
  | case4 cs hslash =>
    intro hh
    obtain ⟨rest, rfl⟩ := List.head?_eq_some_iff.mp hh
    exact hslash rest rfl

lemma trimFront_suffix (cs : List Char) : trimFront cs <:+ cs := by
  fun_induction trimFront cs with
  | case1 cs ih => exact ih.trans (List.suffix_cons _ _)
  | case2 cs ih => exact (ih.trans (List.suffix_cons _ _)).trans (List.suffix_cons _ _)
  | case3 => exact List.nil_suffix
  | case4 => exact List.suffix_rfl

lemma trimBack_head? (h : cs.head? ≠ some '/') : (trimBack cs).head? ≠ some '/' := by
  have hp : trimBack cs <+: cs := by
    have hs := List.reverse_prefix.mpr (trimFront_suffix cs.reverse)
    rwa [List.reverse_reverse] at hs
  obtain ⟨rest, hr⟩ := hp
  intro hh
  obtain ⟨more, hm⟩ := List.head?_eq_some_iff.mp hh
  rw [← hr, hm] at h
  exact h rfl

lemma dropInner_head? (n : Nat) (cs : List Char) : (dropInner n cs).head? ≠ some '/' := by
  induction n generalizing cs with
  | zero => exact trimFront_head? cs
  | succ n ih => exact ih _

def componentOf (piece : List Char) : Component :=
  if String.ofList piece == ".." then .parent else .normal (String.ofList piece)

lemma ofNames_pieces (p : String) : ofNames (pieces '/' p) = (properPieces p.toList).map componentOf := by
  have hempty (piece : List Char) : String.ofList piece = "" ↔ piece = [] :=
    ⟨fun h => by simpa using congrArg String.toList h, fun h => by rw [h]⟩
  have hpoint (piece : List Char) : String.ofList piece = "." ↔ piece = ['.'] :=
    ⟨fun h => by simpa using congrArg String.toList h, fun h => by rw [h]⟩
  rw [ofNames, pieces, properPieces, List.filter_map, List.map_map]
  congr 1
  refine List.filter_congr fun piece _ => ?_
  rw [Bool.eq_iff_iff, decide_eq_true_iff, IsProper]
  simp [hempty, hpoint]

/-- The text after the first components of an absolute path has the components that follow. -/
lemma ofNames_textAfter (hp : isAbsolute p = true) (n : Nat) :
    ofNames (pieces '/' (textAfter (n + 1) p)) = (ofNames (pieces '/' p)).drop n ∧
      isAbsolute (textAfter (n + 1) p) = false := by
  have hh : p.toList.head? = some '/' := by simpa [isAbsolute] using hp
  obtain ⟨cs, hcs⟩ := List.head?_eq_some_iff.mp hh
  have htext : (textAfter (n + 1) p).toList = trimBack (dropInner n cs) := by
    simp [textAfter, dropFirst, hcs]
  constructor
  · rw [ofNames_pieces, ofNames_pieces, htext, hcs, properPieces_trimBack, properPieces_dropInner,
      properPieces_slash, List.map_drop]
  · rw [isAbsolute, htext, beq_eq_false_iff_ne]
    exact trimBack_head? (dropInner_head? n cs)

lemma components_of_isAbsolute (hp : isAbsolute p = true) :
    components p = .root :: ofNames (pieces '/' p) := by
  rw [components, if_pos hp]

lemma texts_of_isAbsolute (hp : isAbsolute p = true) :
    texts (components p) = (ofNames (pieces '/' p)).map (·.text) := by
  have hself : (ofNames (pieces '/' p)).filter (· != .root) = ofNames (pieces '/' p) := by
    rw [List.filter_eq_self]
    intro c hc
    simpa using (mem_ofNames hc fun n hn => not_mem_of_mem_pieces hn).1
  rw [components_of_isAbsolute hp, texts, List.filter_cons_of_neg (by decide), hself]

lemma filter_current_ofNames (ns : List String) :
    (ofNames ns).filter (· != .current) = ofNames ns := by
  rw [List.filter_eq_self]
  intro c hc
  obtain ⟨n, -, rfl⟩ := List.mem_map.mp hc
  split <;> rfl

lemma toSlash_of_isAbsolute (hp : isAbsolute p = true) (hne : texts (components p) ≠ []) :
    toSlash p = render (components p) := by
  rw [texts_of_isAbsolute hp] at hne
  have hslash : toSlash p = joinWith "/" ("" :: (ofNames (pieces '/' p)).map (·.text)) := by
    rw [toSlash, components_of_isAbsolute hp, List.filter_cons_of_pos (by decide),
      filter_current_ofNames]
    rfl
  rw [hslash, joinWith_cons hne, components_of_isAbsolute hp, render, String.empty_append]

lemma toSlash_of_not_isAbsolute (hp : isAbsolute p = false) :
    toSlash p = joinWith "/" ((ofNames (pieces '/' p)).map (·.text)) := by
  have hfilter : (components p).filter (· != .current) = ofNames (pieces '/' p) := by
    rw [components, if_neg (by simp [hp])]
    split
    · rw [List.filter_cons_of_neg (by decide), filter_current_ofNames]
    · exact filter_current_ofNames _
  rw [toSlash, hfilter]

end Path

/-- The path that callers see leads, from the root of the tree, through the names of the path
outside. -/
lemma PathMap.names_report {m : PathMap} {path : String}
    (hroot : Path.isAbsolute m.treeRoot = true)
    (hnames : Path.names m.treeRoot = Path.texts (Path.components m.treeRoot))
    (hout : Path.isAbsolute (m.toExternal path) = true)
    (hne : Path.components (m.toExternal path) ≠ Path.components m.treeRoot)
    (htexts : Path.texts (Path.components (m.toExternal path)) ≠ []) :
    Path.isAbsolute (Path.join m.treeRoot (m.report path)) = true ∧
      FileTree.namesOf (Path.join m.treeRoot (m.report path)) =
        Path.texts (Path.components (m.toExternal path)) := by
  generalize hq : m.toExternal path = q at hout hne htexts
  have hproper := Path.proper_components q
  have habsolute : Path.isAbsolute (Path.join m.treeRoot (Path.toSlash q)) = true ∧
      FileTree.namesOf (Path.join m.treeRoot (Path.toSlash q)) = Path.texts (Path.components q) := by
    have habs : Path.isAbsolute (Path.render (Path.components q)) = true := by
      rw [hproper.isAbsolute_render, Path.head?_components, hout]
    rw [Path.toSlash_of_isAbsolute hout htexts, Path.join, if_pos habs]
    exact ⟨habs, by rw [FileTree.namesOf_eq (hproper.getLast?_render htexts), hproper.names_render]⟩
  rw [report, hq]
  split
  · exact habsolute
  · by_cases hin : Path.isWithin m.treeRoot q = true
    · -- the rest of the path goes on where the root of the tree ends
      have hlen : (Path.components m.treeRoot).length =
          (Path.ofNames (pieces '/' m.treeRoot)).length + 1 := by
        rw [Path.components_of_isAbsolute hroot, List.length_cons]
      generalize hn : (Path.ofNames (pieces '/' m.treeRoot)).length = n at hlen
      obtain ⟨more, hmore⟩ : Path.ofNames (pieces '/' m.treeRoot) <+: Path.ofNames (pieces '/' q) := by
        rw [Path.isWithin, List.isPrefixOf_iff_prefix, Path.components_of_isAbsolute hroot,
          Path.components_of_isAbsolute hout] at hin
        exact (List.cons_prefix_cons.mp hin).2
      obtain ⟨hof, hrel⟩ := Path.ofNames_textAfter hout n
      have hdrop : (Path.ofNames (pieces '/' q)).drop n = more := by
        rw [← hmore, ← hn, List.drop_left]
      have hmem : ∀ t ∈ more.map (·.text), t ≠ "" ∧ '/' ∉ t.toList := by
        intro t ht
        obtain ⟨c, hc, rfl⟩ := List.mem_map.mp ht
        have hcq : c ∈ Path.ofNames (pieces '/' q) := hmore ▸ List.mem_append_right _ hc
        exact (Path.mem_ofNames hcq fun n hn => not_mem_of_mem_pieces hn).2
      have hmorene : more.map (·.text) ≠ [] := by
        intro hnil
        rw [List.map_eq_nil_iff.mp hnil, List.append_nil] at hmore
        apply hne
        rw [Path.components_of_isAbsolute hroot, Path.components_of_isAbsolute hout, hmore]
      have hjoin : joinWith "/" (more.map (·.text)) ≠ "" := fun hj => by
        have hns := Path.names_joinWith hmem
        rw [hj, show Path.names "" = [] by decide] at hns
        exact hmorene hns.symm
      have hfirst := Path.isAbsolute_joinWith_of_ne hmem
      have hlast : (Path.join m.treeRoot (joinWith "/" (more.map (·.text)))).toList.getLast? ≠
          some '/' := by
        rw [Path.getLast?_join hjoin]
        exact Path.getLast?_joinWith hmorene hmem
      rw [Path.stripBase?, if_pos hin, Option.getD_some, hlen, Path.toSlash_of_not_isAbsolute hrel,
        hof, hdrop, FileTree.namesOf_eq hlast, Path.names_join hfirst, Path.names_joinWith hmem,
        Path.isAbsolute_join hfirst, hnames, Path.texts_of_isAbsolute hroot,
        Path.texts_of_isAbsolute hout, ← hmore, List.map_append]
      exact ⟨hroot, rfl⟩
    · rw [Path.stripBase?, if_neg hin]
      exact habsolute

end JavaAtlas
