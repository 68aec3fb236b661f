import JavaAtlas.Proofs.ProjectReading
import JavaAtlas.Proofs.SourceTreeSafety
import Mathlib.Data.List.Pairwise

/-! Which files a loaded project has. Each source directory is read through a link of its own, and
paths are made distinct by the links they begin with, so a file is there once for each of the source
directories that it lies below. -/

namespace JavaAtlas

open Text FileTree

namespace Path

/-- Pieces of a text with a slash after each of them. -/
def slashed (pieces : List (List Char)) (rest : List Char) : List Char :=
  pieces.foldr (fun piece cs => piece ++ '/' :: cs) rest

lemma slashed_splitChars (cs rest : List Char) :
    slashed (splitChars '/' cs) rest = cs ++ '/' :: rest := by
  induction cs with
  | nil => rfl
  | cons c cs ih =>
    obtain ⟨piece, pieces, hs⟩ := List.exists_cons_of_ne_nil (splitChars_ne_nil '/' cs)
    rw [splitChars]
    by_cases hc : c = '/'
    · subst hc
      simpa [slashed] using ih
    · rw [hs] at ih ⊢
      simpa [slashed, hc] using ih

/-- A piece that counts as a component. -/
def IsProper (piece : List Char) : Prop := piece ≠ [] ∧ piece ≠ ['.']

instance (piece : List Char) : Decidable (IsProper piece) := inferInstanceAs (Decidable (_ ∧ _))

lemma trimFront_slash (cs : List Char) : trimFront ('/' :: cs) = trimFront cs := by
  rw [trimFront]

lemma trimFront_proper {piece : List Char} (h : IsProper piece) (hs : '/' ∉ piece)
    (rest : List Char) : trimFront (piece ++ rest) = piece ++ rest := by
  obtain ⟨hne, hpoint⟩ := h
  cases piece with
  | nil => exact absurd rfl hne
  | cons c piece =>
    have hc : c ≠ '/' := fun h => hs (by simp [h])
    cases piece with
    | nil =>
      have hd : c ≠ '.' := fun h => hpoint (by rw [h])
      rw [List.cons_append, List.nil_append, trimFront]
      all_goals simp [hc, hd]
    | cons d piece =>
      have hd : d ≠ '/' := fun h => hs (by simp [h])
      rw [List.cons_append, List.cons_append, trimFront]
      all_goals simp [hc, hd]

lemma dropInner_slash (n : Nat) (cs : List Char) : dropInner n ('/' :: cs) = dropInner n cs := by
  cases n with
  | zero => exact trimFront_slash cs
  | succ n => rw [dropInner, dropInner, trimFront_slash]

lemma dropWhile_slash {piece : List Char} (hs : '/' ∉ piece) (rest : List Char) :
    (piece ++ '/' :: rest).dropWhile (· != '/') = '/' :: rest := by
  rw [List.dropWhile_append_of_pos]
  · rfl
  · intro c hc
    have hne : c ≠ '/' := by
      rintro rfl
      exact hs hc
    simpa using hne

/-- Dropping as many components as there are comes to what follows. -/
lemma dropInner_slashed {pieces : List (List Char)} (hs : ∀ piece ∈ pieces, '/' ∉ piece)
    (rest : List Char) :
    dropInner (pieces.countP (IsProper ·)) (slashed pieces rest) = trimFront rest := by
  induction pieces with
  | nil => rfl
  | cons piece pieces ih =>
    have ih := ih fun p hp => hs p (List.mem_cons_of_mem _ hp)
    have hp := hs piece List.mem_cons_self
    change dropInner _ (piece ++ '/' :: slashed pieces rest) = _
    by_cases hproper : IsProper piece
    · rw [List.countP_cons_of_pos (by simpa using hproper), dropInner,
        trimFront_proper hproper hp]
      have hdrop : (piece ++ '/' :: slashed pieces rest).dropWhile (· != '/') =
          '/' :: slashed pieces rest := dropWhile_slash hp _
      rw [hdrop, dropInner_slash, ih]
    · rw [List.countP_cons_of_neg (by simpa using hproper)]
      by_cases hne : piece = []
      · subst hne
        rw [List.nil_append, dropInner_slash, ih]
      · obtain rfl : piece = ['.'] := by
          by_contra hpoint
          exact hproper ⟨hne, hpoint⟩
        have htrim : trimFront ('.' :: '/' :: slashed pieces rest) =
            trimFront (slashed pieces rest) := by rw [trimFront]
        rw [← ih]
        cases pieces.countP (IsProper ·) with
        | zero => exact htrim
        | succ n =>
          rw [List.cons_append, List.nil_append, dropInner, htrim, dropInner]

lemma length_ofNames (cs : List Char) :
    (ofNames ((splitChars '/' cs).map String.ofList)).length =
      (splitChars '/' cs).countP (IsProper ·) := by
  rw [ofNames, List.length_map, ← List.countP_eq_length_filter, List.countP_map]
  refine List.countP_congr fun piece _ => ?_
  have hempty : String.ofList piece = "" ↔ piece = [] :=
    ⟨fun h => by simpa using congrArg String.toList h, fun h => by rw [h]⟩
  have hpoint : String.ofList piece = "." ↔ piece = ['.'] :=
    ⟨fun h => by simpa using congrArg String.toList h, fun h => by rw [h]⟩
  rw [decide_eq_true_iff, IsProper]
  simp [hempty, hpoint]

lemma isAbsolute_eq {base : String} (hb : base ≠ "") {first : List Char}
    {others : List (List Char)} (h : splitChars '/' base.toList = first :: others) :
    isAbsolute base = decide (first = []) := by
  obtain ⟨c, cs, hcs⟩ := List.exists_cons_of_ne_nil (l := base.toList) (by simpa using hb)
  obtain ⟨piece, pieces, hs⟩ := List.exists_cons_of_ne_nil (splitChars_ne_nil '/' cs)
  rw [hcs, splitChars, hs] at h
  rw [isAbsolute, hcs]
  by_cases hc : c = '/'
  · rw [if_pos hc] at h
    simp [hc, (List.cons.inj h).1.symm]
  · rw [if_neg hc] at h
    simp [hc, (List.cons.inj h).1.symm]

/-- The first component goes, and as many as the number says after it. -/
lemma dropInner_dropFirst {base : String} (hb : base ≠ "") (rest : List Char) :
    ∃ n, (components base).length = n + 1 ∧
      dropInner n (dropFirst (base.toList ++ '/' :: rest)) = trimFront rest := by
  have hs : ∀ piece ∈ splitChars '/' base.toList, '/' ∉ piece := fun piece hp =>
    not_mem_of_mem_splitChars hp
  have hcs : base.toList ≠ [] := by simpa using hb
  have hslashed := slashed_splitChars base.toList rest
  have hlen : (components base).length = _ := congrArg List.length (components_eq base)
  rw [List.length_append, pieces, length_ofNames] at hlen
  obtain ⟨first, others, hsplit⟩ := List.exists_cons_of_ne_nil (splitChars_ne_nil '/' base.toList)
  rw [hsplit] at hs hslashed hlen
  have hothers := dropInner_slashed (fun p hp => hs p (List.mem_cons_of_mem _ hp)) rest
  have hfirst := hs first List.mem_cons_self
  rw [← hslashed]
  change ∃ n, _ ∧ dropInner n (dropFirst (first ++ '/' :: slashed others rest)) = _
  refine ⟨others.countP (IsProper ·), ?_, ?_⟩
  · rw [isAbsolute_eq hb hsplit] at hlen
    have hpoint : (String.ofList first = ".") ↔ first = ['.'] :=
      ⟨fun h => by simpa using congrArg String.toList h, fun h => by rw [h]⟩
    by_cases hempty : first = []
    · simp [hlen, hempty, IsProper, Nat.add_comm]
    · by_cases hp : first = ['.']
      · simp [hlen, hp, IsProper, Nat.add_comm]
      · simp [hlen, hempty, hpoint, hp, IsProper]
  · by_cases hempty : first = []
    · rw [hempty]
      exact hothers
    · have hhead : (first ++ '/' :: slashed others rest).head? ≠ some '/' := by
        obtain ⟨c, cs, rfl⟩ := List.exists_cons_of_ne_nil hempty
        simpa using fun h : c = '/' => hfirst (by simp [h])
      rw [dropFirst, if_neg (by simpa using hhead), dropWhile_slash hfirst, dropInner_slash, hothers]

lemma isProper_of_isName {n : String} (h : IsName n) : IsProper n.toList := by
  refine ⟨by simpa using h.ne_empty, fun hp => h.ne_point ?_⟩
  apply String.toList_injective
  rw [hp]
  rfl

lemma isProper_reverse {piece : List Char} (h : IsProper piece) : IsProper piece.reverse := by
  refine ⟨by simpa using h.1, fun hp => h.2 ?_⟩
  have := congrArg List.reverse hp
  simpa using this

lemma toList_joinWith_concat {init : List String} {last : String} (hi : init ≠ []) :
    (joinWith "/" (init ++ [last])).toList = (joinWith "/" init).toList ++ '/' :: last.toList := by
  rw [joinWith_append hi (by simp)]
  simp [joinWith]

/-- Names with slashes between them have nothing to trim. -/
lemma trim_joinWith {ns : List String} (hne : ns ≠ []) (hn : ∀ n ∈ ns, IsName n) :
    trimBack (trimFront (joinWith "/" ns).toList) = (joinWith "/" ns).toList := by
  have hfront : trimFront (joinWith "/" ns).toList = (joinWith "/" ns).toList := by
    obtain ⟨n, ms, rfl⟩ := List.exists_cons_of_ne_nil hne
    have hname := hn n List.mem_cons_self
    cases ms with
    | nil => simpa [joinWith] using trimFront_proper (isProper_of_isName hname) hname.no_slash []
    | cons m ms =>
      have htext : (joinWith "/" (n :: m :: ms)).toList =
          n.toList ++ '/' :: (joinWith "/" (m :: ms)).toList := by
        rw [joinWith_cons (by simp)]
        simp
      rw [htext]
      exact trimFront_proper (isProper_of_isName hname) hname.no_slash _
  obtain ⟨init, last, rfl⟩ := (List.eq_nil_or_concat' ns).resolve_left hne
  have hname := hn last (by simp)
  have hproper := isProper_reverse (isProper_of_isName hname)
  have hslash : '/' ∉ last.toList.reverse := by simpa using hname.no_slash
  rw [hfront, trimBack]
  by_cases hi : init = []
  · subst hi
    have htrim := trimFront_proper hproper hslash []
    rw [List.append_nil] at htrim
    simp [joinWith, htrim]
  · rw [toList_joinWith_concat hi, List.reverse_append, List.reverse_cons, List.append_assoc,
      trimFront_proper hproper hslash]
    simp

lemma under_eq {base : String} (hb : base ≠ "") (hs : base.toList.getLast? ≠ some '/')
    {ns : List String} (hne : ns ≠ []) (hn : ∀ n ∈ ns, IsName n) :
    under base ns = base ++ "/" ++ joinWith "/" ns := by
  induction ns using List.reverseRecOn with
  | nil => exact absurd rfl hne
  | append_singleton init last ih =>
    have hlast := hn last (by simp)
    have hinit : ∀ n ∈ init, IsName n := fun n hm => hn n (List.mem_append_left _ hm)
    have hend : (under base init).toList.getLast? ≠ some '/' :=
      (FileTree.Spells.under hs hinit).slash
    rw [← join_under, join, if_neg (by simp [isAbsolute_of_isName hlast]),
      if_neg (by simpa [under_ne_empty hb hinit] using hend)]
    by_cases hi : init = []
    · subst hi
      rfl
    · rw [ih hi hinit, joinWith_append hi (by simp)]
      simp only [String.append_assoc]
      rfl

/-- What is written after a base is what the base was gone on by. -/
lemma textAfter_under {base : String} (hb : base ≠ "") (hs : base.toList.getLast? ≠ some '/')
    {ns : List String} (hne : ns ≠ []) (hn : ∀ n ∈ ns, IsName n) :
    textAfter (components base).length (under base ns) = joinWith "/" ns := by
  obtain ⟨n, hlen, hdrop⟩ := dropInner_dropFirst hb (joinWith "/" ns).toList
  have htext : (under base ns).toList = base.toList ++ '/' :: (joinWith "/" ns).toList := by
    rw [under_eq hb hs hne hn]
    simp
  rw [hlen, textAfter, htext, hdrop, trim_joinWith hne hn, String.ofList_toList]

lemma fileName?_under {base : String} (hb : base ≠ "") {ns : List String} (hne : ns ≠ [])
    (hn : ∀ n ∈ ns, IsName n) : fileName? (under base ns) = ns.getLast? := by
  obtain ⟨init, last, rfl⟩ := (List.eq_nil_or_concat' ns).resolve_left hne
  simp [fileName?, components_under hb hn]

end Path

namespace PathMap

variable {α : Type} {measure : α → Nat} {xs : List α}

lemma mem_of_lastGreatest? {x : α} (h : lastGreatest? measure xs = some x) : x ∈ xs := by
  induction xs generalizing x with
  | nil => cases h
  | cons y ys ih =>
    rw [lastGreatest?] at h
    split at h
    · exact Option.some.inj h ▸ List.mem_cons_self
    · next z hz =>
      split at h
      · exact List.mem_cons_of_mem _ (ih (hz.trans h))
      · exact Option.some.inj h ▸ List.mem_cons_self

lemma exists_lastGreatest? (h : xs ≠ []) : ∃ x, lastGreatest? measure xs = some x := by
  cases xs with
  | nil => exact absurd rfl h
  | cons y ys =>
    rw [lastGreatest?]
    split
    · exact ⟨y, rfl⟩
    · split
      · exact ⟨_, rfl⟩
      · exact ⟨y, rfl⟩

lemma transfer?_eq_map (pairs : List (String × String)) (path : String) :
    transfer? pairs path = (lastGreatest? (fun x => (Path.components x.1).length)
      (pairs.filterMap fun pair =>
        (Path.stripBase? pair.1 path).map fun rest => (pair.1, pair.2, rest))).map
      fun x => if x.2.2.isEmpty then x.2.1 else Path.join x.2.1 x.2.2 := rfl

/-- A path that lies in one of the directories goes where that one stands. -/
lemma transfer?_eq {pairs : List (String × String)} {path source target rest : String}
    (hm : (source, target) ∈ pairs) (hrest : Path.stripBase? source path = some rest)
    (hne : rest ≠ "") (hone : ∀ pair ∈ pairs, Path.isWithin pair.1 path = true → pair = (source, target)) :
    transfer? pairs path = some (Path.join target rest) := by
  rw [transfer?_eq_map]
  generalize hl : pairs.filterMap (fun pair =>
    (Path.stripBase? pair.1 path).map fun rest => (pair.1, pair.2, rest)) = around
  have hmem : (source, target, rest) ∈ around := by
    rw [← hl]
    exact List.mem_filterMap.mpr ⟨_, hm, by simp [hrest]⟩
  have hall : ∀ x ∈ around, x = (source, target, rest) := by
    rintro ⟨a, b, c⟩ hx
    rw [← hl] at hx
    obtain ⟨⟨source', target'⟩, hp, hx⟩ := List.mem_filterMap.mp hx
    obtain ⟨rest', hr, heq⟩ := Option.map_eq_some_iff.mp hx
    have hwithin : Path.isWithin source' path = true := by
      rw [Path.stripBase?] at hr
      split at hr
      · assumption
      · cases hr
    obtain ⟨rfl, rfl⟩ := Prod.mk.inj (hone _ hp hwithin)
    obtain rfl : rest' = rest := by simpa [hrest] using hr.symm
    exact heq.symm
  obtain ⟨x, hx⟩ : ∃ x, lastGreatest? (fun x => (Path.components x.1).length) around =
      some x := exists_lastGreatest? (List.ne_nil_of_mem hmem)
  obtain rfl := hall x (mem_of_lastGreatest? hx)
  rw [hx, Option.map_some, if_neg (by simpa using hne)]

end PathMap

namespace FileTree

variable {fs : FileTree} {home top : Location} {path : String}

namespace Leads

variable {S : Set Location} {b b' : Nat} {loc loc' : Location} {ns : List String}

lemma more (h : fs.Leads S b loc ns b' loc') (k : Nat) : fs.Leads S (b + k) loc ns (b' + k) loc' := by
  induction h with
  | here hs => exact .here hs
  | stay hs hd _ ih => exact .stay hs hd ih
  | up hs hd _ ih => exact .up hs hd ih
  | enter hs hd hn he hl _ ih => exact .enter hs hd hn he hl ih
  | link hs hd hn hs' he _ ih =>
    rw [Nat.add_right_comm]
    exact .link hs hd hn hs' he ih

lemma follows (h : fs.Leads S b loc ns b' loc') : fs.Follows S false b loc ns (.arrived loc') := by
  induction h with
  | here hs => exact .here hs
  | stay hs hd _ ih => exact .stay hs hd ih
  | up hs hd _ ih => exact .up hs hd ih
  | enter hs hd hn he hl _ ih => exact .enter hs hd hn he hl ih
  | link hs hd hn hs' he _ ih => exact .link rfl hs hd hn hs' he ih

end Leads

/-- A path that leads to a directory tree without coming through a link. The tree holds none either,
and lies apart from the directory `home`. -/
structure Straight (fs : FileTree) (home : Location) (path : String) (top : Location) : Prop where
  absolute : Path.isAbsolute path = true
  leads : fs.Leads (outside home) 0 [] (namesOf path) 0 top
  plain : ∀ rest t, fs.entry? (top ++ rest) ≠ some (.link t)
  apart : ¬ home <+: top ∧ ¬ top <+: home

namespace Straight

lemma below_outside (h : fs.Straight home path top) {l : Location} (hl : top <+: l) : l ∈ outside home :=
  fun hh => (List.prefix_or_prefix_of_prefix hh hl).elim h.apart.1 h.apart.2

lemma leads_with (h : fs.Straight home path top) (b : Nat) :
    fs.Leads (outside home) b [] (namesOf path) b top := by
  simpa using h.leads.more b

lemma locate_eq (h : fs.Straight home path top) : fs.locate path = .ok top := by
  have hne : path ≠ "" := by
    rintro rfl
    exact absurd h.absolute (by decide)
  rw [locate, reach_eq hne, startOf, if_pos h.absolute, (h.leads_with 40).follow_eq]

lemma congr {fs' : FileTree} (h : fs.Straight home path top) (hsame : SameOutside home fs fs') :
    fs'.Straight home path top := by
  refine ⟨h.absolute, h.leads.congr hsame.entry?, fun rest t => ?_, h.apart⟩
  rw [hsame.entry? _ (h.below_outside (List.prefix_append top rest))]
  exact h.plain rest t

lemma leads_names (h : fs.Straight home path top) (b : Nat) :
    fs.Leads (outside home) b [] (Path.names path) b top := by
  have hl := h.leads_with b
  by_cases hs : path.toList.getLast? = some '/'
  · rw [namesOf, if_pos (by simpa using hs)] at hl
    have hl := hl.drop_point
    rwa [List.append_nil] at hl
  · rwa [namesOf_eq hs] at hl

lemma secluded (fs : FileTree) (home : Location) (paths : Set String) :
    fs.Secluded home {l | ∃ path ∈ paths, ∃ top, fs.Straight home path top ∧ top <+: l} := by
  refine ⟨?_, ?_, ?_⟩
  · rintro l ⟨path, -, top, ht, hl⟩
    exact ht.below_outside hl
  · rintro l ⟨path, hp, top, ht, hl⟩ name
    exact ⟨path, hp, top, ht, hl.trans (List.prefix_append _ _)⟩
  · rintro l ⟨path, hp, top, ht, rest, rfl⟩ name t he
    rw [List.append_assoc] at he
    exact absurd he (ht.plain _ t)

lemma clear {paths : Set String} (hp : path ∈ paths) (h : fs.Straight home path top) :
    fs.Clear home {l | ∃ path ∈ paths, ∃ top, fs.Straight home path top ∧ top <+: l} path := by
  refine ⟨h.absolute, _, (h.leads_with 40).follows, fun l hl => ?_⟩
  obtain rfl := Walk.arrived.inj hl
  exact ⟨path, hp, _, h, List.prefix_rfl⟩

/-- Names that go on from there lead down the tree. -/
lemma follow_down_eq (h : fs.Straight home path top) (hw : fs.WellFormed) {ns : List String}
    (hn : ∀ n ∈ ns, IsName n) (he : ns = [] ∨ (fs.entry? (top ++ ns)).isSome) (b : Nat) :
    fs.follow false b top ns = .arrived (top ++ ns) := by
  by_cases hne : ns = []
  · subst hne
    rw [follow_nil, List.append_nil]
  · have hlands : fs.Lands (top ++ ns) (fs.follow false b top ns) :=
      follow_lands hw hne hn fun xs ys t _ _ _ => h.plain xs t
    have he := he.resolve_left hne
    generalize fs.follow false b top ns = r at hlands
    cases hlands with
    | arrived => rfl
    | missing hnone | failed _ hnone => simp [hnone] at he

lemma follow_eq (h : fs.Straight home path top) (hw : fs.WellFormed) {ns : List String}
    (hn : ∀ n ∈ ns, IsName n) (he : ns = [] ∨ (fs.entry? (top ++ ns)).isSome) (b : Nat) :
    fs.follow false b [] (namesOf path ++ ns) = .arrived (top ++ ns) := by
  by_cases hne : ns = []
  · subst hne
    rw [List.append_nil, List.append_nil, (h.leads_with b).follow_eq]
  · rw [(h.leads_with b).follow_append false hne, h.follow_down_eq hw hn he]

/-- The path of a file in the tree leads to it. -/
lemma locate_join (h : fs.Straight home path top) (hw : fs.WellFormed) {ns : List String}
    (hne : ns ≠ []) (hn : ∀ n ∈ ns, IsName n) (he : (fs.entry? (top ++ ns)).isSome) :
    fs.locate (Path.join path (joinWith "/" ns)) = .ok (top ++ ns) := by
  have hok : ∀ n ∈ ns, n ≠ "" ∧ '/' ∉ n.toList := fun n hm => ⟨(hn n hm).ne_empty, (hn n hm).no_slash⟩
  have habs := Path.isAbsolute_joinWith hn
  have hjoin : joinWith "/" ns ≠ "" := fun hj => by
    have hnames := Path.names_joinWith hok
    rw [hj, show Path.names "" = [] by decide] at hnames
    exact hne hnames.symm
  have hslash : (Path.join path (joinWith "/" ns)).toList.getLast? ≠ some '/' := by
    rw [Path.getLast?_join hjoin]
    exact Path.getLast?_joinWith hne hok
  rw [locate, reach_eq (Path.join_ne_empty hjoin), startOf, Path.isAbsolute_join habs,
    if_pos h.absolute, namesOf_eq hslash, Path.names_join habs, Path.names_joinWith hok,
    (h.leads_names 40).follow_append false hne, h.follow_down_eq hw hn (.inr he)]

end Straight

/-- A source file that can be read, in the directory at a path behind names that are not hidden. -/
def SourceBelow (fs : FileTree) (path : String) (l : Location) : Prop :=
  ∃ top ns content x text, fs.locate path = .ok top ∧ l = top ++ ns ∧
    (∀ n ∈ ns, Sources.isHidden n = false) ∧ l.getLast?.bind Path.extensionOf? = some "java" ∧
    fs.entry? l = some (.file content x) ∧ decodeText? content = some text

/-- Two directories have a source file in common. -/
def ShareSource (fs : FileTree) (p q : String) : Prop :=
  ∃ l, SourceBelow fs p l ∧ SourceBelow fs q l

end FileTree

lemma Index.paths_ofFiles (files : List (String × String)) :
    (Index.ofFiles files).units.map (·.ref.path) = files.map (·.1) := by
  have hunits : (Index.ofFiles files).units = files.zipIdx.map fun x =>
      ⟨(Outline.ofSource ⟨x.1.1⟩ x.2 x.1.2).unit, (Outline.ofSource ⟨x.1.1⟩ x.2 x.1.2).source,
        (Outline.ofSource ⟨x.1.1⟩ x.2 x.1.2).package⟩ := List.map_map
  have hpath (x : (String × String) × Nat) :
      (Outline.ofSource ⟨x.1.1⟩ x.2 x.1.2).unit.path = x.1.1 := rfl
  rw [hunits, List.map_map]
  calc _ = files.zipIdx.map fun x => x.1.1 := List.map_congr_left fun x _ => hpath x
    _ = (files.zipIdx.map (·.1)).map (·.1) := by rw [List.map_map]; rfl
    _ = files.map (·.1) := by rw [List.zipIdx_map_fst]

lemma Sources.nodup_texts (fs : FileTree) {paths : List String} (h : paths.Nodup) :
    ((Sources.texts fs paths).map (·.1)).Nodup := by
  have hfst (p q : String)
      (h : q ∈ ((fs.readText p).toOption.map fun text => (p, text)).map (·.1)) : p = q := by
    obtain ⟨pair, hpair, rfl⟩ := Option.map_eq_some_iff.mp h
    obtain ⟨text, -, rfl⟩ := Option.map_eq_some_iff.mp hpair
    rfl
  rw [Sources.texts, List.map_filterMap]
  exact h.filterMap fun p q r hp hq => (hfst p r hp).trans (hfst q r hq).symm

namespace Workspace

variable {before files : FileTree} {home top : Location} {V : Set Location} {session : Session}
variable {bound : BoundProject} {r : LinkedRoot} {ns : List String}

lemma Apart.reach_tree (h : Apart before home V session bound)
    (hst : Stands before home session bound files) (hr : r ∈ bound.roots)
    (hdir : files.isDir r.link = true) (ht : files.Straight home r.external top)
    (hn : ∀ n ∈ ns, IsName n) (he : ns = [] ∨ (files.entry? (top ++ ns)).isSome) :
    files.locate (Path.under r.link ns) = .ok (top ++ ns) := by
  obtain ⟨b, hb, hreach⟩ := h.reach_link (hst.kept.anchored.of_same_outside hst.kept.same.symm)
  have hthrough := hreach files hst r hr ns hn
  have hlink := hreach files hst r hr [] (by simp)
  rw [Path.under, List.foldl_nil] at hlink
  obtain ⟨l, hl⟩ : ∃ l, files.reach false r.link = .arrived l := by
    rw [isDir, status] at hdir
    cases hl : files.locate r.link with
    | error e => simp [hl, Bind.bind, Except.bind, Except.toOption] at hdir
    | ok l => exact ⟨l, locate_eq_ok.mp hl⟩
  rw [hl] at hlink
  unfold through at hlink hthrough
  split at hlink
  · cases hlink
  · next hf =>
    cases b with
    | zero => cases hlink
    | succ b =>
      obtain ⟨res, hres⟩ := (h.clear r hr).follows_on h.secluded (show b ≤ 40 by omega) hn
      rw [locate_eq_ok, hthrough, if_neg hf]
      rw [← ht.follow_eq hst.kept.wellFormed hn he b, (hres.congr hst.kept.same.entry?).eq_follow]
      exact hres.eq_follow

/-- Through the link of a source directory, names lead to a source file that can be read. -/
structure Shows (files : FileTree) (home : Location) (r : LinkedRoot) (ns : List String)
    (l : Location) : Prop where
  place : ∃ top, files.Straight home r.external top ∧ l = top ++ ns
  ne_nil : ns ≠ []
  isName : ∀ n ∈ ns, IsName n
  visible : ∀ n ∈ ns, Sources.isHidden n = false
  source : ns.getLast?.bind Path.extensionOf? = some "java"
  readable : ∃ content x text, files.entry? l = some (.file content x) ∧ decodeText? content = some text

lemma isDirAt_of_locate {p : String} {l : Location} (hd : files.isDir p = true)
    (hl : files.locate p = .ok l) : files.isDirAt l = true := by
  rw [isDir, status, hl] at hd
  simp only [Bind.bind, Except.bind] at hd
  cases he : files.entry? l with
  | none => simp [he, Except.toOption] at hd
  | some e => simpa [he, Except.toOption, isDirAt] using hd

lemma readText_of_locate {p : String} {l : Location} {content : List UInt8} {x : Bool}
    (hl : files.locate p = .ok l) (he : files.entry? l = some (.file content x)) :
    (files.readText p).toOption = decodeText? content := by
  simp only [readText, readBytes, status, hl, he, Bind.bind, Except.bind]
  cases decodeText? content <;> rfl

lemma Apart.components_link (h : Apart before home V session bound) (hpath : session.path ≠ "")
    (hr : r ∈ bound.roots) (hn : ∀ n ∈ ns, IsName n) :
    Path.components (Path.under r.link ns) = Path.components session.path ++
      (["projects", bound.name, "links", r.name] ++ ns).map .normal := by
  rw [← Path.components_under hpath (h.isName_link hr hn), h.link r hr, Path.under, Path.under,
    Path.under, List.foldl_append]

/-- Paths through the links of a project are told apart by the link and the names behind it. -/
lemma Apart.under_link_inj (h : Apart before home V session bound) (hpath : session.path ≠ "")
    {r' : LinkedRoot} {ms : List String} (hr : r ∈ bound.roots) (hr' : r' ∈ bound.roots)
    (hn : ∀ n ∈ ns, IsName n) (hm : ∀ n ∈ ms, IsName n)
    (heq : Path.components (Path.under r.link ns) = Path.components (Path.under r'.link ms)) :
    r = r' ∧ ns = ms := by
  rw [h.components_link hpath hr hn, h.components_link hpath hr' hm] at heq
  have hlist := List.map_injective_iff.mpr (fun _ _ => Path.Component.normal.inj)
    (List.append_cancel_left heq)
  obtain ⟨hname, rfl⟩ : r.name = r'.name ∧ ns = ms := by simpa using hlist
  exact ⟨List.inj_on_of_nodup_map h.nodup hr hr' hname, rfl⟩

/-- A path through a link maps back to the source directory behind the link. -/
lemma Apart.toExternal_under (h : Apart before home V session bound) (hpath : session.path ≠ "")
    (hslash : session.path.toList.getLast? ≠ some '/') (hr : r ∈ bound.roots) (hne : ns ≠ [])
    (hn : ∀ n ∈ ns, IsName n) {m : PathMap} (hm : m.roots = bound.roots) :
    m.toExternal (Path.under r.link ns) = Path.join r.external (joinWith "/" ns) := by
  have hlinkname := Workspace.isName_link h.isName (h.plain r hr).isName
  have hlink : r.link ≠ "" := by
    rw [h.link r hr]
    exact Path.under_ne_empty hpath hlinkname
  have hend : r.link.toList.getLast? ≠ some '/' := by
    rw [h.link r hr]
    exact (Spells.under hslash hlinkname).slash
  have hwithin {r' : LinkedRoot} (hr' : r' ∈ bound.roots) :
      Path.isWithin r'.link (Path.under r.link ns) = true ↔ r' = r := by
    have hself := h.components_link hpath hr' (show ∀ n ∈ ([] : List String), IsName n by simp)
    rw [Path.under, List.foldl_nil] at hself
    rw [Path.isWithin, List.isPrefixOf_iff_prefix, h.components_link hpath hr hn, hself,
      List.prefix_append_right_inj]
    constructor
    · intro hp
      have hname : r'.name = r.name := by simpa using hp
      exact List.inj_on_of_nodup_map h.nodup hr' hr hname
    · rintro rfl
      simp
  have hok : ∀ n ∈ ns, n ≠ "" ∧ '/' ∉ n.toList := fun n hm => ⟨(hn n hm).ne_empty, (hn n hm).no_slash⟩
  have hrest : joinWith "/" ns ≠ "" := fun hj => by
    have hnames := Path.names_joinWith hok
    rw [hj, show Path.names "" = [] by decide] at hnames
    exact hne hnames.symm
  have hstrip : Path.stripBase? r.link (Path.under r.link ns) = some (joinWith "/" ns) := by
    rw [Path.stripBase?, if_pos ((hwithin hr).mpr rfl), Path.textAfter_under hlink hend hne hn]
  have hpair : (r.link, r.external) ∈ bound.roots.map fun r => (r.link, r.external) :=
    List.mem_map.mpr ⟨r, hr, rfl⟩
  rw [PathMap.toExternal, hm, PathMap.transfer?_eq hpair hstrip hrest, Option.getD_some]
  rintro pair hp hin
  obtain ⟨r', hr', rfl⟩ := List.mem_map.mp hp
  rw [(hwithin hr').mp hin]

section Reading

variable (h : Apart before home V session bound) (hst : Stands before home session bound files)
variable (hdir : ∀ r ∈ bound.roots, files.isDir r.link = true)

include h hst hdir

lemma Apart.isDirAt_top (hr : r ∈ bound.roots) (ht : files.Straight home r.external top) :
    files.locate r.link = .ok top ∧ files.isDirAt top = true := by
  have hn : ∀ n ∈ ([] : List String), IsName n := by simp
  have hlocate := h.reach_tree hst hr (hdir r hr) ht hn (.inl rfl)
  rw [Path.under, List.foldl_nil, List.append_nil] at hlocate
  exact ⟨hlocate, isDirAt_of_locate (hdir r hr) hlocate⟩

/-- Exactly the files that links show are found and read. -/
lemma Apart.mem_texts_iff (hst' : ∀ r ∈ bound.roots, ∃ top, files.Straight home r.external top)
    {p : String} :
    p ∈ (Sources.texts files (Sources.filesBelowAll files (bound.roots.map (·.link)))).map (·.1) ↔
      ∃ r ∈ bound.roots, ∃ ns l, p = Path.under r.link ns ∧ Shows files home r ns l := by
  have hwf := hst.kept.wellFormed
  have hpath := hst.kept.anchored.path_ne_empty
  have hlinkne {r : LinkedRoot} (hr : r ∈ bound.roots) : r.link ≠ "" := by
    rw [h.link r hr]
    exact Path.under_ne_empty hpath (Workspace.isName_link h.isName (h.plain r hr).isName)
  have hfound {r : LinkedRoot} (hr : r ∈ bound.roots) {top : Location}
      (ht : files.Straight home r.external top) {p : String} :
      p ∈ Sources.filesBelow files r.link ↔ ∃ ns content x, p = Path.under r.link ns ∧
        (∀ n ∈ ns, Sources.isHidden n = false) ∧ files.entry? (top ++ ns) = some (.file content x) ∧
        Sources.isSource p = true := by
    rw [Sources.filesBelow, (h.isDirAt_top hst hdir hr ht).1]
    exact Sources.mem_filesAt_iff hwf ht.plain .start
  constructor
  · intro hp
    obtain ⟨⟨p, text⟩, hm, rfl⟩ := List.mem_map.mp hp
    obtain ⟨q, hq, hmap⟩ := List.mem_filterMap.mp hm
    obtain ⟨text, hread, heq⟩ := Option.map_eq_some_iff.mp hmap
    obtain ⟨rfl, rfl⟩ := Prod.mk.inj heq
    obtain ⟨link, hlink, hq⟩ := List.mem_flatMap.mp (Path.mem_of_mem_distinct hq)
    obtain ⟨r, hr, rfl⟩ := List.mem_map.mp hlink
    obtain ⟨top, ht⟩ := hst' r hr
    obtain ⟨ns, content, x, rfl, hv, he, hs⟩ := (hfound hr ht).mp hq
    have hd := (h.isDirAt_top hst hdir hr ht).2
    have hn : ∀ n ∈ ns, IsName n := fun n hn =>
      (hwf.isName_of_some he n (List.mem_append_right _ hn)).1
    have hne : ns ≠ [] := by
      rintro rfl
      rw [List.append_nil] at he
      simp [isDirAt, he] at hd
    have hlocate := h.reach_tree hst hr (hdir r hr) ht hn (.inr (by simp [he]))
    rw [readText_of_locate hlocate he] at hread
    refine ⟨r, hr, ns, top ++ ns, rfl, ⟨top, ht, rfl⟩, hne, hn, hv, ?_, content, x, text, he, hread⟩
    simpa [Sources.isSource, Path.fileName?_under (hlinkne hr) hne hn] using hs
  · rintro ⟨r, hr, ns, l, rfl, ⟨top, ht, rfl⟩, hne, hn, hv, hs, content, x, text, he, hdecode⟩
    have hp : Path.under r.link ns ∈ Sources.filesBelow files r.link := by
      refine (hfound hr ht).mpr ⟨ns, content, x, rfl, hv, he, ?_⟩
      simp [Sources.isSource, Path.fileName?_under (hlinkne hr) hne hn, hs]
    have hall : Path.under r.link ns ∈ (bound.roots.map (·.link)).flatMap (Sources.filesBelow files) :=
      List.mem_flatMap.mpr ⟨r.link, List.mem_map_of_mem hr, hp⟩
    obtain ⟨q, hq, hcs⟩ := Path.exists_mem_distinct hall
    -- the path that is kept for it is the path itself
    obtain ⟨link, hlink, hq'⟩ := List.mem_flatMap.mp (Path.mem_of_mem_distinct hq)
    obtain ⟨r', hr', rfl⟩ := List.mem_map.mp hlink
    obtain ⟨top', ht'⟩ := hst' r' hr'
    obtain ⟨ms, _, _, rfl, -, he', -⟩ := (hfound hr' ht').mp hq'
    have hm : ∀ n ∈ ms, IsName n := fun n hn =>
      (hwf.isName_of_some he' n (List.mem_append_right _ hn)).1
    obtain ⟨rfl, rfl⟩ := h.under_link_inj hpath hr' hr hm hn hcs
    have hlocate := h.reach_tree hst hr' (hdir r' hr') ht hn (.inr (by simp [he]))
    refine List.mem_map.mpr ⟨(_, text), List.mem_filterMap.mpr ⟨_, hq, ?_⟩, rfl⟩
    rw [readText_of_locate hlocate he, hdecode]
    rfl

/-- Each source file below a source directory is shown through its link. -/
lemma Apart.sourceBelow_iff (hr : r ∈ bound.roots) (ht : files.Straight home r.external top)
    {l : Location} : SourceBelow files r.external l ↔ ∃ ns, Shows files home r ns l := by
  obtain ⟨-, hd⟩ := h.isDirAt_top hst hdir hr ht
  constructor
  · rintro ⟨top', ns, content, x, text, hlocate, rfl, hv, hs, he, hdecode⟩
    obtain rfl : top = top' := Except.ok.inj (ht.locate_eq.symm.trans hlocate)
    have hne : ns ≠ [] := by
      rintro rfl
      rw [List.append_nil] at he
      simp [isDirAt, he] at hd
    refine ⟨ns, ⟨top, ht, rfl⟩, hne, fun n hn => ?_, hv, ?_, content, x, text, he, hdecode⟩
    · exact (hst.kept.wellFormed.isName_of_some he n (List.mem_append_right _ hn)).1
    · rwa [List.getLast?_append_of_ne_nil _ hne] at hs
  · rintro ⟨ns, ⟨top', ht', rfl⟩, hne, hn, hv, hs, content, x, text, he, hdecode⟩
    refine ⟨top', ns, content, x, text, ht'.locate_eq, rfl, hv, ?_, he, hdecode⟩
    rwa [List.getLast?_append_of_ne_nil _ hne]

/-- The files of a project are each there once if and only if no two of its source directories share
one. -/
theorem Apart.places_nodup_iff (hst' : ∀ r ∈ bound.roots, ∃ top, files.Straight home r.external top)
    {m : PathMap} (hm : m.roots = bound.roots) :
    ((Project.readIndex files ⟨bound.name, bound.location, bound.output, bound.classpath, none⟩).units.map
      fun u => files.locate (m.toExternal u.ref.path)).Nodup ↔
      bound.roots.Pairwise fun r r' => ¬ files.ShareSource r.external r'.external := by
  have hpath := hst.kept.anchored.path_ne_empty
  have hplace {r : LinkedRoot} (hr : r ∈ bound.roots) {ns : List String} {l : Location}
      (hs : Shows files home r ns l) : files.locate (m.toExternal (Path.under r.link ns)) = .ok l := by
    obtain ⟨⟨top, ht, rfl⟩, hne, hn, -, -, content, x, text, he, -⟩ := hs
    rw [h.toExternal_under hpath hst.kept.anchored.slash hr hne hn hm,
      ht.locate_join hst.kept.wellFormed hne hn (by simp [he])]
  have hmem (p : String) := h.mem_texts_iff hst hdir hst' (p := p)
  have hnodup := Sources.nodup_texts files (Path.nodup_distinct
    ((bound.roots.map (·.link)).flatMap (Sources.filesBelow files))).of_map
  rw [← Sources.filesBelowAll] at hnodup
  have hunits : (Project.readIndex files ⟨bound.name, bound.location, bound.output, bound.classpath,
      none⟩).units.map (fun u => files.locate (m.toExternal u.ref.path)) =
      ((Sources.texts files (Sources.filesBelowAll files (bound.roots.map (·.link)))).map (·.1)).map
        fun p => files.locate (m.toExternal p) := by
    rw [Project.readIndex, h.sourceRoots, ← Index.paths_ofFiles, List.map_map]
    rfl
  rw [hunits]
  generalize (Sources.texts files (Sources.filesBelowAll files (bound.roots.map (·.link)))).map (·.1) =
    paths at hmem hnodup
  constructor
  · intro hplaces
    refine h.nodup.of_map.pairwise_of_forall_ne fun r hr r' hr' hne hshare => ?_
    obtain ⟨l, hs, hs'⟩ := hshare
    obtain ⟨top, ht⟩ := hst' r hr
    obtain ⟨top', ht'⟩ := hst' r' hr'
    obtain ⟨ns, hns⟩ := (h.sourceBelow_iff hst hdir hr ht).mp hs
    obtain ⟨ms, hms⟩ := (h.sourceBelow_iff hst hdir hr' ht').mp hs'
    have heq := List.inj_on_of_nodup_map hplaces ((hmem _).mpr ⟨r, hr, ns, l, rfl, hns⟩)
      ((hmem _).mpr ⟨r', hr', ms, l, rfl, hms⟩) ((hplace hr hns).trans (hplace hr' hms).symm)
    exact hne (h.under_link_inj hpath hr hr' hns.isName hms.isName (congrArg Path.components heq)).1
  · intro hshare
    refine hnodup.map_on fun p hp q hq heq => ?_
    obtain ⟨r, hr, ns, l, rfl, hns⟩ := (hmem p).mp hp
    obtain ⟨r', hr', ms, l', rfl, hms⟩ := (hmem q).mp hq
    obtain rfl : l = l' := Except.ok.inj ((hplace hr hns).symm.trans (heq.trans (hplace hr' hms)))
    obtain ⟨⟨top, ht, hl⟩, -⟩ := id hns
    obtain ⟨⟨top', ht', hl'⟩, -⟩ := id hms
    by_cases hrr : r = r'
    · subst hrr
      obtain rfl : top = top' := Except.ok.inj (ht.locate_eq.symm.trans ht'.locate_eq)
      rw [List.append_cancel_left (hl.symm.trans hl')]
    · have hsymm : Std.Symm fun r r' : LinkedRoot => ¬ files.ShareSource r.external r'.external := by
        refine ⟨fun r r' hd hshare => hd ?_⟩
        obtain ⟨l, hs, hs'⟩ := hshare
        exact ⟨l, hs', hs⟩
      refine absurd ⟨l, ?_, ?_⟩ (hshare.forall hr hr' hrr)
      · exact (h.sourceBelow_iff hst hdir hr ht).mpr ⟨ns, hns⟩
      · exact (h.sourceBelow_iff hst hdir hr' ht').mpr ⟨ms, hms⟩

end Reading

end Workspace

namespace Service

variable {before : FileTree} {home : Location} {s s' : Service}

/-- The links of the new project stand once the one before it was taken out. -/
lemma stands_replaceCurrent {session : Session} (project : LoadedProject) {workspace : Workspace}
    (hn : ∀ previous, s.current = some previous → IsName previous.bound.name)
    (hs : workspace.session = session)
    (h : Workspace.Stands before home session project.bound workspace.files) :
    Workspace.Stands before home session project.bound
      ({ s with workspace }.replaceCurrent project).workspace.files := by
  rw [replaceCurrent]
  subst hs
  split
  · next previous hp =>
    split
    · next hne => exact h.unbind (hn previous hp) (by simpa using hne)
    · exact h
  · exact h

/-- A file of a loaded tree is indexed once for each source directory that it lies below: the files
of the index map back to distinct files exactly when no two source directories of the project have a
file in common. The source directories hold no links and are not reached through any. -/
theorem load_units_distinct_iff {path : String} {now : Nat} {summary : ProjectSummary}
    {project : LoadedProject} (hk : s.Kept before home)
    (hfree : ∀ dir, before.entry? (dir ++ [Classpath.dumpName]) = none)
    (hm : s.workspace.mode = .link) (hload : s.load path now = (.ok summary, s'))
    (hproject : s'.current = some project)
    (hstraight : ∀ r ∈ project.bound.roots, ∃ top, before.Straight home r.external top)
    (hlinks : ∀ r ∈ project.bound.roots, s'.workspace.files.isDir r.link = true) :
    summary.sourceFileCount = project.query.index.units.length ∧
      ((project.query.index.units.map fun u =>
          s'.workspace.files.locate (project.query.paths.toExternal u.ref.path)).Nodup ↔
        project.bound.roots.Pairwise fun r r' =>
          ¬ s'.workspace.files.ShareSource r.external r'.external) := by
  have hloads := s.loads path now
  rw [hload] at hloads
  cases hloads with
  | @loaded root assembly files bound workspace _ _ ha hb =>
    obtain rfl := Option.some.inj hproject
    refine ⟨rfl, ?_⟩
    have hkept := assemble_kept hk hfree root
    rw [ha] at hkept
    obtain rfl : bound = Workspace.planned s.workspace.session root assembly.entries :=
      Workspace.bind_planned (w := { s.workspace with files }) hb
    have hclear (r : SourceRoot) (hr : .source r ∈ assembly.entries) : before.Clear home
        {l | ∃ p ∈ {p | ∃ r : SourceRoot, .source r ∈ assembly.entries ∧ r.path = p},
          ∃ top, before.Straight home p top ∧ top <+: l} r.path := by
      obtain ⟨linked, hm, he⟩ := Workspace.exists_linkPlan hr
      obtain ⟨top, ht⟩ := hstraight linked hm
      exact Straight.clear ⟨r, hr, rfl⟩ (he ▸ ht)
    have hsecluded := Straight.secluded before home
      {p | ∃ r : SourceRoot, .source r ∈ assembly.entries ∧ r.path = p}
    obtain ⟨hsession, hstands, -⟩ := Workspace.bind_stands (w := { s.workspace with files }) hsecluded
      hclear hm hkept hb
    have hapart := Workspace.apart_planned hsecluded hclear s.workspace.session root
    have hstands' := stands_replaceCurrent
      (s.loadedFrom workspace.files root assembly _ now) hk.named hsession hstands
    have hstraight' (r : LinkedRoot) (hr : r ∈ _) : ∃ top, _ :=
      (hstraight r hr).imp fun _ ht => ht.congr hstands'.kept.same
    have hiff := hapart.places_nodup_iff hstands' hlinks hstraight'
      (m := ⟨root, _, s.config.absolutePaths⟩) rfl
    rw [hapart.readIndex_eq hstands hstands'] at hiff
    exact hiff

/-- A tree whose source directory is one of its module as well. -/
def nestedTree : FileTree where
  entries := [(["t"], .dir),
    (["t", "pom.xml"], .file (encodeText "<modules><module>src</module>") false),
    (["t", "src"], .dir), (["t", "src", "java"], .dir),
    (["t", "src", "java", "A.java"], .file [] false), (["0123abcd"], .dir)]
  cwd := []

def nestedService : Service :=
  .ofSession .initial listingTool .unresolved nestedTree ⟨"0123abcd", "/0123abcd", false⟩

lemma nestedService_kept : nestedService.Kept nestedTree ["0123abcd"] := by
  have hc : Session.create (nestedTree.erase ["0123abcd"]) "/" ["0123abcd"] =
      .ok (⟨"0123abcd", "/0123abcd", false⟩, nestedTree) := by decide +kernel
  obtain ⟨-, -, home, -, hk⟩ := Session.create_kept (by decide +kernel) (by decide +kernel) hc
  have hhome := hk.locate_path rfl
  rw [show nestedTree.locate "/0123abcd" = .ok ["0123abcd"] by decide +kernel] at hhome
  obtain rfl := Except.ok.inj hhome
  exact ⟨hk, nofun, listingTool_writesListOnly⟩

lemma nestedTree_straight :
    nestedTree.Straight ["0123abcd"] "/t/src/java" ["t", "src", "java"] := by
  refine ⟨by decide, ?_, fun rest t he => ?_, by decide⟩
  · have henter {loc loc' : Location} {name : String} {ns : List String}
        (hh : ¬ ["0123abcd"] <+: loc) (hd : nestedTree.entry? loc = some .dir) (hn : IsStep name)
        (he : nestedTree.entry? (loc ++ [name]) = some .dir)
        (hl : nestedTree.Leads (outside ["0123abcd"]) 0 (loc ++ [name]) ns 0 loc') :
        nestedTree.Leads (outside ["0123abcd"]) 0 loc (name :: ns) 0 loc' :=
      .enter hh (isDirAt_iff.mpr hd) hn he nofun hl
    rw [show namesOf "/t/src/java" = ["t", "src", "java"] by decide]
    have hend : ¬ ["0123abcd"] <+: ["t", "src", "java"] := by decide
    have hstep {name : String} (h : name ≠ "." ∧ name ≠ ".." ∧ name.utf8ByteSize ≤ 255) :
        IsStep name := ⟨h.1, h.2.1, h.2.2⟩
    exact henter (by decide) (by decide) (hstep (by decide)) (by decide)
      (henter (by decide) (by decide) (hstep (by decide)) (by decide)
        (henter (by decide) (by decide) (hstep (by decide)) (by decide) (.here hend)))
  · have hm := mem_entries (by simp) he
    simp [nestedTree] at hm

/-- What loading the tree comes to: its one file is there through two links. -/
lemma nestedService_load : ∃ project s', nestedService.load "/t" 1 = (.ok ⟨.maven, 2, [], 3⟩, s') ∧
    s'.current = some project ∧ project.bound.roots = [
      ⟨"src_java", "/0123abcd/projects/t/links/src_java", "/t/src/java"⟩,
      ⟨"src_java_2", "/0123abcd/projects/t/links/src_java_2", "/t/src/java"⟩] ∧
    (∀ r ∈ project.bound.roots, s'.workspace.files.isDir r.link = true) ∧
    s'.workspace.files.entry? ["t", "src", "java", "A.java"] = some (.file [] false) ∧
    s'.workspace.files.locate "/t/src/java" = .ok ["t", "src", "java"] := by
  have hload : (match nestedService.load "/t" 1 with
    | (answer, s') => decide (answer = .ok ⟨.maven, 2, [], 3⟩) &&
      (s'.current.map (·.bound.roots) == some [
        ⟨"src_java", "/0123abcd/projects/t/links/src_java", "/t/src/java"⟩,
        ⟨"src_java_2", "/0123abcd/projects/t/links/src_java_2", "/t/src/java"⟩]) &&
      s'.workspace.files.isDir "/0123abcd/projects/t/links/src_java" &&
      s'.workspace.files.isDir "/0123abcd/projects/t/links/src_java_2" &&
      (s'.workspace.files.entry? ["t", "src", "java", "A.java"] == some (.file [] false)) &&
      decide (s'.workspace.files.locate "/t/src/java" = .ok ["t", "src", "java"])) = true := by
    decide +kernel
  generalize nestedService.load "/t" 1 = result at hload
  obtain ⟨answer, s'⟩ := result
  simp only [Bool.and_eq_true, decide_eq_true_eq, beq_iff_eq, Option.map_eq_some_iff] at hload
  obtain ⟨⟨⟨⟨⟨rfl, project, hproject, hroots⟩, hfirst⟩, hsecond⟩, hfile⟩, hplace⟩ := hload
  refine ⟨project, s', rfl, hproject, hroots, ?_, hfile, hplace⟩
  simpa [hroots] using ⟨hfirst, hsecond⟩

theorem load_units_distinct_iff_nestedTree : ∃ summary project s',
    nestedService.load "/t" 1 = (.ok summary, s') ∧ s'.current = some project ∧
      summary.sourceFileCount = 2 ∧ ¬ (project.query.index.units.map fun u =>
        s'.workspace.files.locate (project.query.paths.toExternal u.ref.path)).Nodup := by
  obtain ⟨project, s', hload, hproject, hroots, hlinks, hfile, hplace⟩ := nestedService_load
  have hstraight : ∀ r ∈ project.bound.roots,
      ∃ top, nestedTree.Straight ["0123abcd"] r.external top := by
    rw [hroots]
    simpa using ⟨_, nestedTree_straight⟩
  have hfree (dir : Location) : nestedTree.entry? (dir ++ [Classpath.dumpName]) = none := by
    rw [← Option.not_isSome_iff_eq_none]
    intro hs
    obtain ⟨e, he⟩ := Option.isSome_iff_exists.mp hs
    have hname : ∀ e ∈ nestedTree.entries, e.1.getLast? ≠ some Classpath.dumpName := by
      decide +kernel
    exact hname _ (mem_entries (by simp) he) (by simp)
  have hiff := load_units_distinct_iff nestedService_kept hfree rfl hload hproject hstraight hlinks
  refine ⟨_, project, s', hload, hproject, rfl, fun hnodup => ?_⟩
  have hpairs := hiff.2.mp hnodup
  have hbelow : SourceBelow s'.workspace.files "/t/src/java" ["t", "src", "java", "A.java"] :=
    ⟨_, ["A.java"], [], false, "", hplace, rfl, by decide, by decide, hfile, by decide⟩
  rw [hroots, List.pairwise_cons] at hpairs
  exact hpairs.1 _ List.mem_cons_self ⟨_, hbelow, hbelow⟩

end Service

end JavaAtlas
