import JavaAtlas.Proofs.ReportedPaths

/-! Whether a path of the user comes back when it is moved into the workspace and out again. Both
ways the longest of the directories around the path decides. On the way in the directories may lie
in each other; on the way out they are links side by side, of which one at most is around a path. -/

namespace JavaAtlas

open Text

namespace Path

variable {base p rest : String} {cs : List Char}

/-- A path that is not absolute has a first component, and the others are written after it. -/
lemma exists_components_eq (hp : isAbsolute p = false) (hne : p ≠ "") :
    ∃ c, components p = c :: (properPieces (dropFirst p.toList)).map componentOf := by
  have hhead : p.toList.head? ≠ some '/' := by simpa [isAbsolute] using hp
  have hdrop : dropFirst p.toList = p.toList.dropWhile (· != '/') := by
    rw [dropFirst, if_neg (by simpa using hhead)]
  obtain ⟨first, more, hfirst, hpieces, hproper⟩ : ∃ first more, first ≠ [] ∧
      pieces '/' p = String.ofList first :: more ∧
      properPieces p.toList =
        (if IsProper first then [first] else []) ++ properPieces (dropFirst p.toList) := by
    by_cases hs : '/' ∈ p.toList
    · obtain ⟨first, rest, hsplit, hns⟩ := List.eq_append_cons_of_mem hs
      refine ⟨first, (splitChars '/' rest).map String.ofList, ?_, ?_, ?_⟩
      · rintro rfl
        simp [hsplit] at hhead
      · rw [pieces, hsplit, splitChars_append_sep, splitChars_of_not_mem hns]
        rfl
      · rw [hdrop, hsplit, dropWhile_slash hns, properPieces_slash, properPieces_append_slash,
          properPieces_of_not_mem hns]
    · refine ⟨p.toList, [], by simpa using hne, ?_, ?_⟩
      · rw [pieces, splitChars_of_not_mem hs, List.map_singleton]
      · have hnil : p.toList.dropWhile (· != '/') = [] := by
          rw [List.dropWhile_eq_nil_iff]
          intro c hc
          simpa using fun h : c = '/' => hs (h ▸ hc)
        rw [hdrop, hnil, properPieces_of_not_mem hs]
        exact (List.append_nil _).symm
  rw [components_eq, if_neg (by simp [hp]), ofNames_pieces, hproper, hpieces]
  by_cases hpoint : first = ['.']
  · subst hpoint
    exact ⟨.current, rfl⟩
  · have htext : String.ofList first ≠ "." := fun h =>
      hpoint (by simpa using congrArg String.toList h)
    refine ⟨componentOf first, ?_⟩
    rw [if_pos (show IsProper first from ⟨hfirst, hpoint⟩), if_neg (by simpa using htext)]
    rfl

lemma components_ne_nil (hp : p ≠ "") : components p ≠ [] := by
  by_cases habs : isAbsolute p = true
  · rw [components_of_isAbsolute habs]
    exact List.cons_ne_nil _ _
  · obtain ⟨c, hc⟩ := exists_components_eq (by simpa using habs) hp
    rw [hc]
    exact List.cons_ne_nil _ _

/-- What is written after the first components has the components that follow. -/
lemma ofNames_textAfter_succ (n : Nat) (p : String) :
    ofNames (pieces '/' (textAfter (n + 1) p)) = (components p).drop (n + 1) ∧
      isAbsolute (textAfter (n + 1) p) = false := by
  have htext : (textAfter (n + 1) p).toList = trimBack (dropInner n (dropFirst p.toList)) := by
    simp [textAfter]
  refine ⟨?_, ?_⟩
  · by_cases hp : isAbsolute p = true
    · rw [(ofNames_textAfter hp n).1, components_of_isAbsolute hp, List.drop_succ_cons]
    · rw [ofNames_pieces, htext, properPieces_trimBack, properPieces_dropInner, List.map_drop]
      by_cases hne : p = ""
      · subst hne
        simp [dropFirst, properPieces, components, pieces, splitChars, IsProper, isAbsolute, ofNames]
      · obtain ⟨c, hc⟩ := exists_components_eq (by simpa using hp) hne
        rw [hc, List.drop_succ_cons]
  · rw [isAbsolute, htext, beq_eq_false_iff_ne]
    exact trimBack_head? (dropInner_head? n _)

/-- When nothing is taken away, an absolute path stays the same. -/
lemma textAfter_zero (hp : isAbsolute p = true) :
    components (textAfter 0 p) = components p ∧ isAbsolute (textAfter 0 p) = true := by
  have hh : p.toList.head? = some '/' := by simpa [isAbsolute] using hp
  obtain ⟨cs, hcs⟩ := List.head?_eq_some_iff.mp hh
  have htext : (textAfter 0 p).toList = '/' :: trimBack cs := by simp [textAfter, hp, hcs]
  have habs : isAbsolute (textAfter 0 p) = true := by simp [isAbsolute, htext]
  refine ⟨?_, habs⟩
  rw [components_of_isAbsolute habs, components_of_isAbsolute hp, ofNames_pieces, ofNames_pieces, htext,
    hcs, properPieces_slash, properPieces_slash, properPieces_trimBack]

lemma isWithin_iff : isWithin base p = true ↔ components base <+: components p := by
  rw [isWithin, List.isPrefixOf_iff_prefix]

/-- The components that a path at the true location begins with are kept when it is cleaned. -/
lemma cleanComponents_root (kept cs : List Component) :
    ∃ more, cleanComponents (kept ++ [.root]) cs = .root :: more := by
  induction cs generalizing kept with
  | nil => exact ⟨kept.reverse, by simp [cleanComponents]⟩
  | cons c cs ih =>
    cases c with
    | current =>
      rw [cleanComponents]
      exact ih kept
    | parent =>
      cases kept with
      | nil =>
        rw [List.nil_append, cleanComponents]
        exact ih [.parent]
      | cons k kept =>
        have hstep : cleanComponents (k :: kept ++ [.root]) (.parent :: cs) =
            cleanComponents (kept ++ [.root]) cs := by
          rw [List.cons_append, cleanComponents]
          simp
        rw [hstep]
        exact ih kept
    | root => exact ih (.root :: kept)
    | normal name => exact ih (.normal name :: kept)

lemma isAbsolute_clean (hp : isAbsolute p = true) : isAbsolute (clean p) = true := by
  obtain ⟨more, hmore⟩ := cleanComponents_root [] (ofNames (pieces '/' p))
  have hcs : cleanComponents [] (components p) = .root :: more := by
    rw [components_of_isAbsolute hp, ← hmore]
    rfl
  rw [clean, hcs, isAbsolute, render]
  simp

end Path

lemma FileTree.isAbsolute_normalize (fs : FileTree) (path : String) :
    Path.isAbsolute (fs.normalize path) = true := by
  have habs : Path.isAbsolute
      (if Path.isAbsolute path then path else Path.join (pathOf fs.cwd) path) = true := by
    split
    · next h => exact h
    · next h =>
      rw [Path.isAbsolute_join (by simpa using h)]
      exact isAbsolute_pathOf _
  unfold normalize
  simp only [canonicalize]
  cases fs.locate (if Path.isAbsolute path then path else Path.join (pathOf fs.cwd) path) with
  | ok loc => exact isAbsolute_pathOf loc
  | error e => exact Path.isAbsolute_clean habs

namespace PathMap

/-- Links side by side in one directory, each of them once. -/
structure Siblings (m : PathMap) : Prop where
  beside : ∃ dir, ∀ r ∈ m.roots, ∃ last, Path.components r.link = dir ++ [last]
  distinct : (m.roots.map fun r => Path.components r.link).Nodup

/-- The true location of a path of the user, seen from the root of the tree. -/
def located (m : PathMap) (fs : FileTree) (path : String) : String :=
  fs.normalize (Path.join m.treeRoot path)

/-- What stands in `target` for the rest of a path. -/
def within (target rest : String) : String :=
  if rest.isEmpty then target else Path.join target rest

variable {m : PathMap} {fs : FileTree} {path q w target : String} {r r' : LinkedRoot}

lemma components_within (ht : target ≠ "") (n : Nat) (q : String) :
    Path.components (within target (Path.textAfter (n + 1) q)) =
      Path.components target ++ (Path.components q).drop (n + 1) := by
  obtain ⟨hof, habs⟩ := Path.ofNames_textAfter_succ n q
  rw [within]
  split
  · next h =>
    have hempty : Path.textAfter (n + 1) q = "" := by simpa using h
    rw [← hof, hempty, show Path.ofNames (pieces '/' "") = [] by decide, List.append_nil]
  · rw [Path.components_join ht habs, hof]

lemma isAbsolute_within_empty (n : Nat) (q : String) :
    Path.isAbsolute (within "" (Path.textAfter (n + 1) q)) = false := by
  obtain ⟨-, habs⟩ := Path.ofNames_textAfter_succ n q
  rw [within]
  split
  · decide
  · rw [Path.isAbsolute_join habs]
    decide

/-- An absolute path of which nothing was taken away is not moved. -/
lemma components_within_zero (hq : Path.isAbsolute q = true) (target : String) :
    Path.components (within target (Path.textAfter 0 q)) = Path.components q := by
  obtain ⟨hcs, habs⟩ := Path.textAfter_zero hq
  have hne : Path.textAfter 0 q ≠ "" := by
    intro h
    rw [h] at habs
    exact absurd habs (by decide)
  rw [within, if_neg (by simpa using hne), Path.join, if_pos habs, hcs]

lemma components_length_pos (h : target ≠ "") :
    ∃ n, (Path.components target).length = n + 1 :=
  Nat.exists_eq_succ_of_ne_zero fun hz =>
    Path.components_ne_nil h (List.eq_nil_of_length_eq_zero hz)

/-- A directory around a path goes on, in what stands for it, as the path goes on. -/
lemma components_moved {source : String} (hs : source ≠ "") (ht : target ≠ "") (q : String) :
    Path.components (within target (Path.textAfter (Path.components source).length q)) =
      Path.components target ++ (Path.components q).drop (Path.components source).length := by
  obtain ⟨n, hn⟩ := components_length_pos hs
  rw [hn]
  exact components_within ht n q

lemma exists_toExternal_eq (hr : r ∈ m.roots) (hin : Path.isWithin r.link w = true) :
    ∃ r' ∈ m.roots, Path.isWithin r'.link w = true ∧
      m.toExternal w =
        within r'.external (Path.textAfter (Path.components r'.link).length w) := by
  obtain ⟨pair, hp, hwithin, -, heq⟩ := exists_transfer?_eq
    (List.mem_map_of_mem (f := fun r : LinkedRoot => (r.link, r.external)) hr) hin
  obtain ⟨r', hr', rfl⟩ := List.mem_map.mp hp
  refine ⟨r', hr', hwithin, ?_⟩
  rw [toExternal, heq, Option.getD_some]
  rfl

lemma toExternal_eq_self (h : ∀ r ∈ m.roots, Path.isWithin r.link w = false) :
    m.toExternal w = w := by
  rw [toExternal]
  cases ht : transfer? (m.roots.map fun r => (r.link, r.external)) w with
  | none => rfl
  | some result =>
    obtain ⟨pair, hp, hin⟩ := exists_of_transfer?_eq ht
    obtain ⟨r, hr, rfl⟩ := List.mem_map.mp hp
    rw [h r hr] at hin
    cases hin

/-- The source directory that is chosen is one of the longest around the path. -/
lemma exists_toWorkspace?_eq (h : m.toWorkspace? fs.normalize path = some w) :
    ∃ r ∈ m.roots, Path.isWithin r.external (m.located fs path) = true ∧
      (∀ r' ∈ m.roots, Path.isWithin r'.external (m.located fs path) = true →
        (Path.components r'.external).length ≤ (Path.components r.external).length) ∧
      w = within r.link
        (Path.textAfter (Path.components r.external).length (m.located fs path)) := by
  rw [toWorkspace?] at h
  obtain ⟨pair, hp, hin⟩ := exists_of_transfer?_eq h
  obtain ⟨chosen, hc, hwithin, hmax, heq⟩ := exists_transfer?_eq hp hin
  obtain ⟨r, hr, rfl⟩ := List.mem_map.mp hc
  rw [h] at heq
  refine ⟨r, hr, hwithin, fun r' hr' h' => ?_, Option.some.inj heq⟩
  have hpair : (r'.external, r'.link) ∈ m.roots.map fun r => (r.external, r.link) :=
    List.mem_map_of_mem hr'
  exact hmax (r'.external, r'.link) hpair h'

lemma toWorkspace?_eq_none_iff : m.toWorkspace? fs.normalize path = none ↔
    ∀ r ∈ m.roots, Path.isWithin r.external (m.located fs path) = false := by
  constructor
  · intro h r hr
    by_contra hin
    obtain ⟨chosen, hc, hwithin, hmax, heq⟩ := exists_transfer?_eq
      (List.mem_map_of_mem (f := fun r : LinkedRoot => (r.external, r.link)) hr)
      (by simpa using hin : Path.isWithin r.external (m.located fs path) = true)
    rw [toWorkspace?] at h
    cases h.symm.trans heq
  · intro h
    cases hw : m.toWorkspace? fs.normalize path with
    | none => rfl
    | some w =>
      obtain ⟨r, hr, hin, -⟩ := exists_toWorkspace?_eq hw
      rw [h r hr] at hin
      cases hin

namespace Siblings

lemma components_ne_nil (h : m.Siblings) (hr : r ∈ m.roots) : Path.components r.link ≠ [] := by
  obtain ⟨dir, hdir⟩ := h.beside
  obtain ⟨last, hlast⟩ := hdir r hr
  rw [hlast]
  exact List.concat_ne_nil last dir

lemma link_ne_empty (h : m.Siblings) (hr : r ∈ m.roots) : r.link ≠ "" := by
  intro he
  have hne := h.components_ne_nil hr
  rw [he] at hne
  exact hne (by decide)

/-- Of links side by side one at most is around a path. -/
lemma eq_of_isWithin (h : m.Siblings) (hr : r ∈ m.roots) (hr' : r' ∈ m.roots)
    (hin : Path.isWithin r.link w = true) (hin' : Path.isWithin r'.link w = true) : r = r' := by
  obtain ⟨dir, hdir⟩ := h.beside
  obtain ⟨last, hlast⟩ := hdir r hr
  obtain ⟨last', hlast'⟩ := hdir r' hr'
  have hlen : (Path.components r.link).length = (Path.components r'.link).length := by
    rw [hlast, hlast', List.length_append, List.length_append]
    rfl
  have heq := List.prefix_of_prefix_length_le (Path.isWithin_iff.mp hin) (Path.isWithin_iff.mp hin')
    hlen.le
  exact List.inj_on_of_nodup_map h.distinct hr hr' (heq.eq_of_length hlen)

lemma toExternal_eq (h : m.Siblings) (hr : r ∈ m.roots) (hin : Path.isWithin r.link w = true) :
    m.toExternal w =
      within r.external (Path.textAfter (Path.components r.link).length w) := by
  obtain ⟨r', hr', hin', heq⟩ := exists_toExternal_eq hr hin
  rw [h.eq_of_isWithin hr hr' hin hin', heq]

/-- A path below a source directory is moved below the link, and from there back. -/
lemma components_toExternal (h : m.Siblings) (hr : r ∈ m.roots) (he : r.external ≠ "")
    (hin : Path.isWithin r.external q = true) :
    Path.components (m.toExternal
      (within r.link (Path.textAfter (Path.components r.external).length q))) =
      Path.components q := by
  have hl := h.link_ne_empty hr
  have hmoved := components_moved he hl q
  have hwithin : Path.isWithin r.link
      (within r.link (Path.textAfter (Path.components r.external).length q)) = true := by
    rw [Path.isWithin_iff, hmoved]
    exact List.prefix_append _ _
  rw [h.toExternal_eq hr hwithin, components_moved hl he, hmoved, List.drop_left]
  obtain ⟨rest, hrest⟩ := Path.isWithin_iff.mp hin
  rw [← hrest, List.drop_left]

/-- A path that goes through no source directory but the empty path stays where it is, and comes back
unless it lies in a link. -/
lemma components_toExternal_iff (h : m.Siblings) (hq : Path.isAbsolute q = true)
    (hcs : Path.components w = Path.components q)
    (hout : ∀ r ∈ m.roots, Path.isWithin r.external q = true → r.external = "") :
    Path.components (m.toExternal w) = Path.components q ↔
      ∀ r ∈ m.roots, Path.isWithin r.link q = false := by
  have hsame (r : LinkedRoot) : Path.isWithin r.link w = Path.isWithin r.link q := by
    rw [Path.isWithin, Path.isWithin, hcs]
  refine ⟨fun heq r hr => ?_, fun hnone => ?_⟩
  · by_contra hin
    have hin : Path.isWithin r.link q = true := by simpa using hin
    rw [h.toExternal_eq hr ((hsame r).trans hin)] at heq
    by_cases he : r.external = ""
    · obtain ⟨n, hn⟩ := components_length_pos (h.link_ne_empty hr)
      have habs := isAbsolute_within_empty n w
      rw [he, hn] at heq
      rw [← Path.head?_components, heq, Path.head?_components, hq] at habs
      cases habs
    · rw [components_moved (h.link_ne_empty hr) he, hcs] at heq
      exact he (hout r hr (Path.isWithin_iff.mpr ⟨_, heq⟩))
  · rw [toExternal_eq_self fun r hr => (hsame r).trans (hnone r hr), hcs]

end Siblings

/-- What the resolver makes of a path of the user: nothing if no source directory is around it; else
it goes below the link of one of the longest of these, and from there back to where it was. A source
directory that is the empty path is around every path and moves none of them: then a path comes back
only if it does not lie in a link. -/
theorem toExternal_of_toWorkspace (h : m.Siblings) (fs : FileTree) (path : String) :
    (m.toWorkspace? fs.normalize path = none ↔
      ∀ r ∈ m.roots, Path.isWithin r.external (m.located fs path) = false) ∧
    ∀ w, m.toWorkspace? fs.normalize path = some w →
      ∃ r ∈ m.roots, Path.isWithin r.external (m.located fs path) = true ∧
        (∀ r' ∈ m.roots, Path.isWithin r'.external (m.located fs path) = true →
          (Path.components r'.external).length ≤ (Path.components r.external).length) ∧
        w = within r.link
          (Path.textAfter (Path.components r.external).length (m.located fs path)) ∧
        (Path.components (m.toExternal w) = Path.components (m.located fs path) ↔
          (r.external = "" → ∀ r' ∈ m.roots, Path.isWithin r'.link (m.located fs path) = false)) := by
  refine ⟨toWorkspace?_eq_none_iff, fun w hw => ?_⟩
  obtain ⟨r, hr, hin, hmax, rfl⟩ := exists_toWorkspace?_eq hw
  refine ⟨r, hr, hin, hmax, rfl, ?_⟩
  have hq : Path.isAbsolute (m.located fs path) = true := fs.isAbsolute_normalize _
  by_cases he : r.external = ""
  · have hout (r' : LinkedRoot) (hr' : r' ∈ m.roots)
        (h' : Path.isWithin r'.external (m.located fs path) = true) : r'.external = "" := by
      by_contra hne
      obtain ⟨n, hn⟩ := components_length_pos hne
      have hle := hmax r' hr' h'
      rw [hn, he, show Path.components "" = [] by decide] at hle
      cases hle
    have hcs := components_within_zero hq r.link
    rw [he]
    exact (h.components_toExternal_iff hq hcs hout).trans ⟨fun hno _ => hno, fun hno => hno rfl⟩
  · exact iff_of_true (h.components_toExternal hr he hin) fun h => absurd h he

/-- Two source directories, one in the other. -/
def nestedMap : PathMap :=
  ⟨"/t", [⟨"a", "/w/links/a", "/t/src"⟩, ⟨"b", "/w/links/b", "/t/src/gen"⟩], false⟩

lemma nestedMap_siblings : nestedMap.Siblings := by
  refine ⟨⟨[.root, .normal "w", .normal "links"], fun r hr => ?_⟩, by decide⟩
  obtain rfl | rfl : r = ⟨"a", "/w/links/a", "/t/src"⟩ ∨ r = ⟨"b", "/w/links/b", "/t/src/gen"⟩ := by
    simpa [nestedMap] using hr
  · exact ⟨.normal "a", by decide⟩
  · exact ⟨.normal "b", by decide⟩

theorem toExternal_of_toWorkspace_nestedMap :
    nestedMap.toWorkspace? FileTree.empty.normalize "src/gen/X.java" = some "/w/links/b/X.java" ∧
      Path.components (nestedMap.toExternal "/w/links/b/X.java") =
        Path.components "/t/src/gen/X.java" := by
  have hw : nestedMap.toWorkspace? FileTree.empty.normalize "src/gen/X.java" =
      some "/w/links/b/X.java" := by decide +kernel
  obtain ⟨r, hr, -, -, -, hiff⟩ :=
    (toExternal_of_toWorkspace nestedMap_siblings FileTree.empty "src/gen/X.java").2 _ hw
  have hne : ∀ r ∈ nestedMap.roots, r.external ≠ "" := by decide
  have hlocated : nestedMap.located FileTree.empty "src/gen/X.java" = "/t/src/gen/X.java" := by
    decide +kernel
  exact ⟨hw, hlocated ▸ hiff.mpr fun he => absurd he (hne r hr)⟩

/-- A source directory that is the empty path. -/
def emptyRootMap : PathMap := ⟨"/t", [⟨"a", "/w/links/a", ""⟩], false⟩

/-- A file in the link of the empty path is not moved, and taken for one that was. -/
theorem toExternal_of_toWorkspace_emptyRoot : emptyRootMap.Siblings ∧
    emptyRootMap.toWorkspace? FileTree.empty.normalize "/w/links/a/X" = some "/w/links/a/X" ∧
    Path.components (emptyRootMap.toExternal "/w/links/a/X") ≠
      Path.components (emptyRootMap.located FileTree.empty "/w/links/a/X") := by
  refine ⟨⟨⟨[.root, .normal "w", .normal "links"], fun r hr => ?_⟩, by decide⟩, by decide +kernel,
    by decide +kernel⟩
  obtain rfl : r = ⟨"a", "/w/links/a", ""⟩ := by simpa [emptyRootMap] using hr
  exact ⟨.normal "a", by decide⟩

end PathMap

/-- The links of a bound project lie side by side. -/
theorem Workspace.siblings_planned (session : Session) (treeRoot : String)
    (entries : List ClasspathEntry) (root : String) (absolute : Bool) :
    PathMap.Siblings ⟨root, (planned session treeRoot entries).roots, absolute⟩ := by
  generalize hdir : Path.join (session.projectDir (projectName treeRoot)) "links" = dir
  have hne : dir ≠ "" := hdir ▸ Path.join_ne_empty (by decide)
  have hroots : (planned session treeRoot entries).roots = (linkPlan dir [] entries).1 := by
    rw [← hdir]
    rfl
  have hlink (r : LinkedRoot) (hr : r ∈ (linkPlan dir [] entries).1) :
      Path.components r.link = Path.components dir ++ [.normal r.name] := by
    obtain ⟨hplain, -, hl, -⟩ := linkPlan_mem hr
    have hn : ∀ n ∈ [r.name], IsName n := List.forall_mem_singleton.mpr hplain.isName
    have hof := Path.ofNames_joinWith hn
    rw [hl, Path.components_join hne (Path.isAbsolute_of_isName hplain.isName)]
    exact congrArg _ hof
  rw [hroots]
  refine ⟨⟨Path.components dir, fun r hr => ⟨_, hlink r hr⟩⟩, ?_⟩
  refine (linkPlan_nodup dir [] entries).of_map.map_on fun r hr r' hr' heq => ?_
  have hnames : r.name = r'.name := by
    rw [hlink r hr, hlink r' hr'] at heq
    simpa using heq
  exact List.inj_on_of_nodup_map (linkPlan_nodup dir [] entries) hr hr' hnames

end JavaAtlas
