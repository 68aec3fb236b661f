import JavaAtlas.Proofs.PathTexts
import JavaAtlas.Proofs.ServiceLifecycle

/-! Whether a path that callers were shown leads back to the file it was shown for. On its way back
the path is brought to the true location of the file, and that location is looked for below the
source directories as they are written: a directory whose path goes up by two points is not found
again, and a file below two directories can come back through one link only. -/

namespace JavaAtlas

open Text FileTree

namespace FileTree

variable {fs : FileTree} {home loc top : Location} {path : String} {ns : List String}

lemma isAbsolute_pathOf (loc : Location) : Path.isAbsolute (pathOf loc) = true := by
  simp [Path.isAbsolute, pathOf]

lemma names_pathOf (hn : ∀ n ∈ loc, IsName n) : Path.names (pathOf loc) = loc := by
  have hjoin := Path.names_append_slash "" (joinWith "/" loc)
  rw [String.empty_append, show Path.names "" = [] by decide, List.nil_append] at hjoin
  rw [pathOf, hjoin, Path.names_joinWith fun n hm => ⟨(hn n hm).ne_empty, (hn n hm).no_slash⟩]

lemma components_pathOf (hn : ∀ n ∈ loc, IsName n) :
    Path.components (pathOf loc) = .root :: loc.map .normal := by
  have hpieces : pieces '/' (pathOf loc) = "" :: pieces '/' (joinWith "/" loc) := by
    have h := pieces_append_slash "" (joinWith "/" loc)
    rwa [String.empty_append, show pieces '/' "" = [""] by decide, List.singleton_append] at h
  have hof : Path.ofNames ("" :: pieces '/' (joinWith "/" loc)) =
      Path.ofNames (pieces '/' (joinWith "/" loc)) := by simp [Path.ofNames]
  rw [Path.components_of_isAbsolute (isAbsolute_pathOf loc), hpieces, hof, Path.ofNames_joinWith hn]

lemma getLast?_pathOf (hne : loc ≠ []) (hn : ∀ n ∈ loc, IsName n) :
    (pathOf loc).toList.getLast? ≠ some '/' := by
  have hok : ∀ n ∈ loc, n ≠ "" ∧ '/' ∉ n.toList := fun n hm => ⟨(hn n hm).ne_empty, (hn n hm).no_slash⟩
  have hlast := Path.getLast?_joinWith hne hok
  have hjoin : (joinWith "/" loc).toList ≠ [] := by
    intro he
    have hnames := Path.names_joinWith hok
    rw [String.toList_eq_nil_iff.mp he, show Path.names "" = [] by decide] at hnames
    exact hne hnames.symm
  rwa [pathOf, String.toList_append, List.getLast?_append, List.getLast?_eq_some_getLast hjoin,
    Option.some_or, ← List.getLast?_eq_some_getLast hjoin]

/-- The path of a place below another goes on by names. -/
lemma pathOf_append (hl : loc ≠ []) (hloc : ∀ n ∈ loc, IsName n) (hne : ns ≠ [])
    (hn : ∀ n ∈ ns, IsName n) : pathOf (loc ++ ns) = Path.under (pathOf loc) ns := by
  have hempty : pathOf loc ≠ "" := by simp [pathOf]
  rw [Path.under_eq hempty (getLast?_pathOf hl hloc) hne hn, pathOf, joinWith_append hl hne, pathOf]
  simp only [String.append_assoc]

lemma namesOf_ne_nil (hne : path ≠ "") (habs : Path.isAbsolute path = false) : namesOf path ≠ [] := by
  obtain ⟨c, cs, hcs⟩ := List.exists_cons_of_ne_nil (l := path.toList) (by simpa using hne)
  have hc : c ≠ '/' := by
    rintro rfl
    simp [Path.isAbsolute, hcs] at habs
  obtain ⟨piece, rest, hs⟩ := List.exists_cons_of_ne_nil (splitChars_ne_nil '/' cs)
  have hpieces : pieces '/' path = String.ofList (c :: piece) :: rest.map String.ofList := by
    rw [pieces, hcs, splitChars, if_neg hc, hs, List.map_cons]
  have hmem : String.ofList (c :: piece) ∈ Path.names path := by
    simp [Path.names, hpieces]
  rw [namesOf]
  split
  · simp
  · exact List.ne_nil_of_mem hmem

/-- A path that leads to a place is brought to the path of that place. -/
lemma normalize_of_locate (hw : fs.WellFormed) (h : fs.locate path = .ok loc) :
    fs.normalize path = pathOf loc := by
  have habsolute : fs.locate (if Path.isAbsolute path then path else Path.join (pathOf fs.cwd) path) =
      .ok loc := by
    split
    · exact h
    · next habs =>
      have habs : Path.isAbsolute path = false := by simpa using habs
      have hne : path ≠ "" := by
        rintro rfl
        simp [locate, reach] at h
      have hreach := Workspace.locate_eq_ok.mp h
      rw [reach_eq hne, startOf, if_neg (by simp [habs])] at hreach
      -- the first name can only be followed in a directory
      obtain ⟨n, ns, hns⟩ := List.exists_cons_of_ne_nil (namesOf_ne_nil hne habs)
      have hcwd : fs.isDirAt fs.cwd = true := by
        by_contra hd
        rw [hns, follow_not_dir (by simpa using hd)] at hreach
        cases hreach
      have hnames : namesOf (Path.join (pathOf fs.cwd) path) = fs.cwd ++ namesOf path := by
        have hin := names_pathOf fun n hm => (hw.isName_of_some (isDirAt_iff.mp hcwd) n hm).1
        rw [namesOf_join habs hne, hin]
      rw [Workspace.locate_eq_ok, reach_eq (Path.join_ne_empty hne), startOf,
        Path.isAbsolute_join habs, if_pos (isAbsolute_pathOf _), hnames]
      have hdown : fs.follow false 40 [] (fs.cwd ++ namesOf path) =
          fs.follow false 40 ([] ++ fs.cwd) (namesOf path) := follow_down hw hcwd
      exact hdown.trans hreach
  unfold normalize
  simp only [canonicalize, habsolute]
  rfl

/-- Names that are not points lead straight down when no link is followed. -/
lemma Leads.eq_append {S : Set Location} {b b' : Nat} {loc' : Location}
    (h : fs.Leads S b loc ns b' loc') (hb : b ≤ b') (hn : ∀ n ∈ ns, n ≠ "." ∧ n ≠ "..") :
    loc' = loc ++ ns := by
  induction h with
  | here => simp
  | stay => exact absurd rfl (hn "." List.mem_cons_self).1
  | up => exact absurd rfl (hn ".." List.mem_cons_self).2
  | enter _ _ _ _ _ _ ih =>
    rw [ih hb fun n hm => hn n (List.mem_cons_of_mem _ hm), List.append_assoc,
      List.singleton_append]
  | link _ _ _ _ _ h =>
    have hle := h.left_le
    omega

namespace Straight

lemma leads_texts (h : fs.Straight home path top) (b : Nat) :
    fs.Leads (outside home) b [] (Path.texts (Path.components path)) b top :=
  (h.leads_names b).drop_points [] (Path.dropsPoints_texts path)

/-- Without double points a path is written as the path of the place that it leads to. -/
lemma components_eq (h : fs.Straight home path top) (hp : .parent ∉ Path.components path) :
    Path.components path = .root :: top.map .normal := by
  have hnormal : ∀ c ∈ Path.ofNames (pieces '/' path),
      c = .normal c.text ∧ c.text ≠ "." ∧ c.text ≠ ".." := by
    intro c hc
    have hne : c ≠ .parent := by
      rintro rfl
      rw [Path.components_of_isAbsolute h.absolute] at hp
      exact hp (List.mem_cons_of_mem _ hc)
    obtain ⟨n, hn, rfl⟩ := List.mem_map.mp hc
    obtain ⟨-, hn⟩ := List.mem_filter.mp hn
    split at hne
    · exact absurd rfl hne
    · next hpoints => simp_all [Path.Component.text]
  have hleads := h.leads_texts 0
  rw [Path.texts_of_isAbsolute h.absolute] at hleads
  have htop := hleads.eq_append le_rfl fun n hn => by
    obtain ⟨c, hc, rfl⟩ := List.mem_map.mp hn
    exact (hnormal c hc).2
  rw [Path.components_of_isAbsolute h.absolute, htop, List.nil_append, List.map_map]
  congr 1
  nth_rewrite 1 [← List.map_id (Path.ofNames _)]
  exact List.map_congr_left fun c hc => (hnormal c hc).1

/-- Whatever has the names of a file in the tree leads to it. -/
lemma locate_of_namesOf (h : fs.Straight home path top) (hw : fs.WellFormed) (hne : ns ≠ [])
    (hn : ∀ n ∈ ns, IsName n) (he : (fs.entry? (top ++ ns)).isSome) {p : String}
    (hp : Path.isAbsolute p = true) (hnames : namesOf p = Path.texts (Path.components path) ++ ns) :
    fs.locate p = .ok (top ++ ns) := by
  have hpne : p ≠ "" := by
    rintro rfl
    exact absurd hp (by decide)
  rw [locate, reach_eq hpne, startOf, if_pos hp, hnames, (h.leads_texts 40).follow_append false hne,
    h.follow_down_eq hw hn (.inr he)]

end Straight

end FileTree

namespace PathMap

lemma measure_le_of_lastGreatest? {α : Type} {measure : α → Nat} {xs : List α} {x : α}
    (h : lastGreatest? measure xs = some x) : ∀ y ∈ xs, measure y ≤ measure x := by
  induction xs generalizing x with
  | nil => cases h
  | cons z zs ih =>
    rw [lastGreatest?] at h
    split at h
    · next hnone =>
      obtain rfl := Option.some.inj h
      intro y hy
      rcases List.mem_cons.mp hy with rfl | hy
      · exact le_rfl
      · obtain ⟨w, hw⟩ : ∃ w, lastGreatest? measure zs = some w :=
          exists_lastGreatest? (List.ne_nil_of_mem hy)
        rw [hnone] at hw
        cases hw
    · next w hw =>
      have hle := ih hw
      split at h
      · next hz =>
        obtain rfl := Option.some.inj h
        exact List.forall_mem_cons.mpr ⟨hz, hle⟩
      · next hz =>
        obtain rfl := Option.some.inj h
        exact List.forall_mem_cons.mpr ⟨le_rfl, fun y hy => (hle y hy).trans (by omega)⟩

/-- Of the directories around a path, one with the most components decides where the path goes. -/
lemma exists_transfer?_eq {pairs : List (String × String)} {path : String} {pair : String × String}
    (hm : pair ∈ pairs) (hin : Path.isWithin pair.1 path = true) :
    ∃ chosen ∈ pairs, Path.isWithin chosen.1 path = true ∧
      (∀ other ∈ pairs, Path.isWithin other.1 path = true →
        (Path.components other.1).length ≤ (Path.components chosen.1).length) ∧
      transfer? pairs path =
        some (if (Path.textAfter (Path.components chosen.1).length path).isEmpty then chosen.2
          else Path.join chosen.2 (Path.textAfter (Path.components chosen.1).length path)) := by
  have hstrip (other : String × String) (h : Path.isWithin other.1 path = true) :
      Path.stripBase? other.1 path =
        some (Path.textAfter (Path.components other.1).length path) := by
    rw [Path.stripBase?, if_pos h]
  generalize hl : pairs.filterMap (fun pair =>
    (Path.stripBase? pair.1 path).map fun rest => (pair.1, pair.2, rest)) = around
  have hmem (other : String × String) (ho : other ∈ pairs) (h : Path.isWithin other.1 path = true) :
      (other.1, other.2, Path.textAfter (Path.components other.1).length path) ∈ around := by
    rw [← hl]
    exact List.mem_filterMap.mpr ⟨other, ho, by simp [hstrip other h]⟩
  obtain ⟨x, hx⟩ : ∃ x, lastGreatest? (fun x => (Path.components x.1).length) around = some x :=
    exists_lastGreatest? (List.ne_nil_of_mem (hmem pair hm hin))
  have hxm := mem_of_lastGreatest? hx
  rw [← hl] at hxm
  obtain ⟨chosen, hc, hx'⟩ := List.mem_filterMap.mp hxm
  have hwithin : Path.isWithin chosen.1 path = true := by
    by_contra hno
    rw [Path.stripBase?, if_neg hno] at hx'
    cases hx'
  rw [hstrip chosen hwithin, Option.map_some] at hx'
  obtain rfl := Option.some.inj hx'
  refine ⟨chosen, hc, hwithin, fun other ho h => ?_, ?_⟩
  · have hle := measure_le_of_lastGreatest? hx _ (hmem other ho h)
    exact hle
  · rw [transfer?_eq_map, hl, hx, Option.map_some]

/-- What comes out of a transfer comes from one of the directories around the path. -/
lemma exists_of_transfer?_eq {pairs : List (String × String)} {path result : String}
    (h : transfer? pairs path = some result) : ∃ pair ∈ pairs, Path.isWithin pair.1 path = true := by
  by_contra hno
  push Not at hno
  have hnil : pairs.filterMap (fun pair =>
      (Path.stripBase? pair.1 path).map fun rest => (pair.1, pair.2, rest)) = [] := by
    rw [List.filterMap_eq_nil_iff]
    intro pair hp
    rw [Path.stripBase?, if_neg (hno pair hp), Option.map_none]
  rw [transfer?_eq_map, hnil] at h
  cases h

end PathMap

lemma Sources.texts_sublist (fs : FileTree) (paths : List String) :
    ((Sources.texts fs paths).map (·.1)).Sublist paths := by
  induction paths with
  | nil => exact List.Sublist.refl []
  | cons p paths ih =>
    rw [Sources.texts, List.filterMap_cons]
    split
    · exact ih.cons p
    · next pair hpair =>
      obtain ⟨text, -, rfl⟩ := Option.map_eq_some_iff.mp hpair
      exact ih.cons_cons p

/-- A file is found at its path when no two paths are the same. -/
lemma Index.unit?_of_mem {index : Index}
    (hn : ((index.units.map (·.ref.path)).map Path.components).Nodup) {u : IndexedUnit}
    (hu : u ∈ index.units) : index.unit? u.ref.path = some u := by
  rw [List.map_map] at hn
  obtain ⟨i, hi⟩ := List.mem_iff_getElem?.mp hu
  rw [unit?]
  cases hf : index.unitAt? u.ref.path with
  | none =>
    have hnone := List.find?_eq_none.mp (Option.map_eq_none_iff.mp hf) (u, i)
      (List.mem_reverse.mpr (List.mem_zipIdx_iff_getElem?.mpr hi))
    simp [Path.same] at hnone
  | some j =>
    obtain ⟨⟨v, k⟩, hfind, rfl⟩ := Option.map_eq_some_iff.mp hf
    have hv := List.mem_zipIdx_iff_getElem?.mp (List.mem_reverse.mp (List.mem_of_find?_eq_some hfind))
    have hsame := List.find?_some hfind
    simp only [Path.same, beq_iff_eq] at hsame
    obtain rfl : v = u := List.inj_on_of_nodup_map hn (List.mem_of_getElem? hv) hu hsame
    exact hv

namespace Workspace

variable {before files : FileTree} {home loc : Location} {V : Set Location} {session : Session}
variable {bound : BoundProject} {r : LinkedRoot} {ns : List String} {l : Location} {m : PathMap}

lemma Shows.file_names (h : Shows files home r ns l) : ∃ top, files.Straight home r.external top ∧
    top ≠ [] ∧ l = top ++ ns := by
  obtain ⟨top, ht, hl⟩ := h.place
  refine ⟨top, ht, ?_, hl⟩
  rintro rfl
  exact ht.apart.2 List.nil_prefix

lemma not_parent_of_isWithin (hn : ∀ n ∈ l, IsName n) {p : String}
    (h : Path.isWithin p (pathOf l) = true) : .parent ∉ Path.components p := by
  rw [Path.isWithin, List.isPrefixOf_iff_prefix, components_pathOf hn] at h
  intro hp
  have hmem := h.subset hp
  simp at hmem

lemma isWithin_pathOf_iff (hn : ∀ n ∈ l, IsName n) {p : String} {top : Location}
    (hp : Path.components p = .root :: top.map .normal) :
    Path.isWithin p (pathOf l) = true ↔ top <+: l := by
  rw [Path.isWithin, List.isPrefixOf_iff_prefix, components_pathOf hn, hp, List.cons_prefix_cons,
    List.prefix_map_iff_of_injective fun _ _ => Path.Component.normal.inj]
  simp

/-- A file is below a directory that lies between it and another one that shows it. -/
lemma Shows.sourceBelow (h : Shows files home r ns l) {r' : LinkedRoot} {top top' : Location}
    (ht : files.Straight home r.external top) (ht' : files.Straight home r'.external top')
    (hlen : top.length ≤ top'.length) (hl : top' <+: l) : SourceBelow files r'.external l := by
  obtain ⟨⟨top₁, ht₁, rfl⟩, hne, -, hvisible, hsource, content, x, text, he, hdecode⟩ := h
  obtain rfl : top = top₁ := Except.ok.inj (ht.locate_eq.symm.trans ht₁.locate_eq)
  obtain ⟨xs, rfl⟩ := List.prefix_of_prefix_length_le (List.prefix_append top ns) hl hlen
  obtain ⟨ms, hms⟩ := hl
  rw [List.append_assoc, List.append_cancel_left_eq] at hms
  subst hms
  refine ⟨top ++ xs, ms, content, x, text, ht'.locate_eq, (List.append_assoc ..).symm,
    fun n hn => hvisible n (List.mem_append_right _ hn), ?_, he, hdecode⟩
  rw [List.getLast?_append_of_ne_nil _ hne, hsource]

section Returning

variable (h : Apart before home V session bound) (hst : Stands before home session bound files)

include h hst

/-- The path that is shown for a file leads to the file. -/
lemma Apart.normalize_report (hm : m.roots = bound.roots) (hroot : m.treeRoot = pathOf loc)
    (hloc : ∀ n ∈ loc, IsName n) (hd : loc ∈ outside home → files.isDirAt loc = true)
    (hr : r ∈ bound.roots) (hs : Shows files home r ns l) :
    files.normalize (Path.join m.treeRoot (m.report (Path.under r.link ns))) = pathOf l := by
  have hwf := hst.kept.wellFormed
  obtain ⟨top, ht, -, rfl⟩ := hs.file_names
  obtain ⟨content, x, text, he, -⟩ := hs.readable
  have hsome : (files.entry? (top ++ ns)).isSome := by simp [he]
  have hout := h.toExternal_under hst.kept.anchored.path_ne_empty hst.kept.anchored.slash hr
    hs.ne_nil hs.isName hm
  have habs : Path.isAbsolute (Path.join r.external (joinWith "/" ns)) = true := by
    rw [Path.isAbsolute_join (Path.isAbsolute_joinWith hs.isName), ht.absolute]
  have hexternal : r.external ≠ "" := by
    intro he
    have ha := ht.absolute
    rw [he] at ha
    exact absurd ha (by decide)
  have htexts : Path.texts (Path.components (Path.join r.external (joinWith "/" ns))) =
      Path.texts (Path.components r.external) ++ ns := by
    rw [Path.components_join_names hexternal hs.isName, Path.texts_append_names]
  have hne : Path.texts (Path.components r.external) ++ ns ≠ [] := by simp [hs.ne_nil]
  have hnames : Path.names m.treeRoot = Path.texts (Path.components m.treeRoot) := by
    have htext := Path.texts_append_names [.root] loc
    rw [hroot, names_pathOf hloc, components_pathOf hloc]
    exact htext.symm
  -- the file is not the root of the tree, which is a directory
  have hother : Path.components (Path.join r.external (joinWith "/" ns)) ≠
      Path.components m.treeRoot := by
    intro heq
    rw [heq, ← hnames, hroot, names_pathOf hloc] at htexts
    have htop := (ht.leads_texts 0).eq_append le_rfl fun n hn => by
      have hname := hloc n (htexts ▸ List.mem_append_left _ hn)
      exact ⟨hname.ne_point, hname.ne_points⟩
    rw [List.nil_append] at htop
    rw [← htop] at htexts
    have hdir := hd (htexts ▸ ht.below_outside (List.prefix_append top ns))
    rw [htexts, isDirAt, he] at hdir
    cases hdir
  rw [← hout] at habs hother htexts
  obtain ⟨hjoin, hnamesOf⟩ := PathMap.names_report (hroot ▸ isAbsolute_pathOf loc) hnames habs hother
    (htexts ▸ hne)
  rw [htexts] at hnamesOf
  exact normalize_of_locate hwf (ht.locate_of_namesOf hwf hs.ne_nil hs.isName hsome hjoin hnamesOf)

lemma Apart.join_link (hr : r ∈ bound.roots) (hne : ns ≠ []) (hn : ∀ n ∈ ns, IsName n) :
    Path.join r.link (joinWith "/" ns) = Path.under r.link ns := by
  have hlinkname := Workspace.isName_link h.isName (h.plain r hr).isName
  have hlink : r.link ≠ "" := by
    rw [h.link r hr]
    exact Path.under_ne_empty hst.kept.anchored.path_ne_empty hlinkname
  have hend : r.link.toList.getLast? ≠ some '/' := by
    rw [h.link r hr]
    exact (Spells.under hst.kept.anchored.slash hlinkname).slash
  rw [Path.under_eq hlink hend hne hn, Path.join, if_neg (by simp [Path.isAbsolute_joinWith hn]),
    if_neg (by simpa [hlink] using hend)]

/-- A file that lies below one source directory only comes back to the link of that directory, if
the path of the directory does not go up. -/
lemma Apart.transfer?_of_alone (hst' : ∀ r ∈ bound.roots, ∃ top, files.Straight home r.external top)
    (hr : r ∈ bound.roots) (hs : Shows files home r ns l) (hp : .parent ∉ Path.components r.external)
    (hone : ∀ r' ∈ bound.roots, SourceBelow files r'.external l → r' = r) :
    PathMap.transfer? (bound.roots.map fun r => (r.external, r.link)) (pathOf l) =
      some (Path.under r.link ns) := by
  obtain ⟨top, ht, htop, hl⟩ := hs.file_names
  obtain ⟨content, x, text, he, hdecode⟩ := hs.readable
  have hnames : ∀ n ∈ l, IsName n := fun n hn => (hst.kept.wellFormed.isName_of_some he n hn).1
  have htopnames : ∀ n ∈ top, IsName n := fun n hn => hnames n (hl ▸ List.mem_append_left _ hn)
  have hrt := ht.components_eq hp
  have hpair : (r.external, r.link) ∈ bound.roots.map fun r => (r.external, r.link) :=
    List.mem_map.mpr ⟨r, hr, rfl⟩
  have hin : Path.isWithin r.external (pathOf l) = true :=
    (isWithin_pathOf_iff hnames hrt).mpr (hl ▸ List.prefix_append top ns)
  obtain ⟨chosen, hc, hwithin, hmost, htransfer⟩ := PathMap.exists_transfer?_eq hpair hin
  obtain ⟨r', hr', rfl⟩ := List.mem_map.mp hc
  obtain ⟨top', ht'⟩ := hst' r' hr'
  have hrt' := ht'.components_eq (not_parent_of_isWithin hnames hwithin)
  have hlen : top.length ≤ top'.length := by
    have hle := hmost _ hpair hin
    rw [hrt, hrt'] at hle
    simpa using hle
  -- the directory that decides is at least as deep, so the file lies below it as well
  obtain rfl := hone r' hr' (hs.sourceBelow ht ht' hlen ((isWithin_pathOf_iff hnames hrt').mp hwithin))
  have hlength : (Path.components r'.external).length = (Path.components (pathOf top)).length := by
    rw [hrt, components_pathOf htopnames]
  have hrest : Path.textAfter (Path.components r'.external).length (pathOf l) = joinWith "/" ns := by
    rw [hl, pathOf_append htop htopnames hs.ne_nil hs.isName, hlength]
    exact Path.textAfter_under (by simp [pathOf]) (getLast?_pathOf htop htopnames) hs.ne_nil hs.isName
  have hjoin : joinWith "/" ns ≠ "" := by
    intro hj
    have hns := Path.names_joinWith fun n hn => ⟨(hs.isName n hn).ne_empty, (hs.isName n hn).no_slash⟩
    rw [hj, show Path.names "" = [] by decide] at hns
    exact hs.ne_nil hns.symm
  rw [htransfer, hrest, if_neg (by simpa using hjoin), h.join_link hst hr hs.ne_nil hs.isName]

/-- A file that comes back to a link does so through the source directory of that link. -/
lemma Apart.not_parent_of_transfer? (hr : r ∈ bound.roots) (hs : Shows files home r ns l)
    (ht : PathMap.transfer? (bound.roots.map fun r => (r.external, r.link)) (pathOf l) =
      some (Path.under r.link ns)) : .parent ∉ Path.components r.external := by
  have hpath := hst.kept.anchored.path_ne_empty
  obtain ⟨content, x, text, he, -⟩ := hs.readable
  have hnames : ∀ n ∈ l, IsName n := fun n hn => (hst.kept.wellFormed.isName_of_some he n hn).1
  obtain ⟨pair, hp, hin⟩ := PathMap.exists_of_transfer?_eq ht
  obtain ⟨chosen, hc, hwithin, -, htransfer⟩ := PathMap.exists_transfer?_eq hp hin
  obtain ⟨r', hr', rfl⟩ := List.mem_map.mp hc
  have hself := h.components_link hpath hr' (show ∀ n ∈ ([] : List String), IsName n by simp)
  rw [Path.under, List.foldl_nil, List.append_nil] at hself
  have hlink : r'.link ≠ "" := by
    rw [h.link r' hr']
    exact Path.under_ne_empty hpath (Workspace.isName_link h.isName (h.plain r' hr').isName)
  have hrel : Path.isAbsolute (Path.textAfter (Path.components r'.external).length (pathOf l)) =
      false := by
    rw [Path.components_of_isAbsolute (h.clear r' hr').absolute, List.length_cons]
    exact (Path.ofNames_textAfter (isAbsolute_pathOf l) _).2
  have hcomponents : ∃ more, Path.components (Path.under r.link ns) =
      Path.components r'.link ++ more := by
    have heq := Option.some.inj (ht.symm.trans htransfer)
    rw [heq]
    split
    · exact ⟨[], (List.append_nil _).symm⟩
    · exact ⟨_, Path.components_join hlink hrel⟩
  obtain ⟨more, hmore⟩ := hcomponents
  rw [h.components_link hpath hr hs.isName, hself, List.append_assoc, List.append_cancel_left_eq]
    at hmore
  have hname : r.name = r'.name := by simp at hmore; exact hmore.1
  rw [List.inj_on_of_nodup_map h.nodup hr hr' hname]
  exact not_parent_of_isWithin hnames hwithin

/-- The paths that are shown all lead back if and only if no source directory with a file goes up
and no two source directories share a file. -/
theorem Apart.paths_return_iff (hdir : ∀ r ∈ bound.roots, files.isDir r.link = true)
    (hst' : ∀ r ∈ bound.roots, ∃ top, files.Straight home r.external top)
    (hm : m.roots = bound.roots) (hroot : m.treeRoot = pathOf loc) (hloc : ∀ n ∈ loc, IsName n)
    (hd : loc ∈ outside home → files.isDirAt loc = true) :
    (∀ p ∈ (Sources.texts files (Sources.filesBelowAll files (bound.roots.map (·.link)))).map (·.1),
        m.toWorkspace? files.normalize (m.report p) = some p) ↔
      (∀ r ∈ bound.roots, (∃ l, SourceBelow files r.external l) →
        .parent ∉ Path.components r.external) ∧
      bound.roots.Pairwise fun r r' => ¬ files.ShareSource r.external r'.external := by
  have hpath := hst.kept.anchored.path_ne_empty
  have hmem (p : String) := h.mem_texts_iff hst hdir hst' (p := p)
  have hback {r : LinkedRoot} (hr : r ∈ bound.roots) {ns : List String} {l : Location}
      (hs : Shows files home r ns l) :
      m.toWorkspace? files.normalize (m.report (Path.under r.link ns)) =
        PathMap.transfer? (bound.roots.map fun r => (r.external, r.link)) (pathOf l) := by
    rw [PathMap.toWorkspace?, h.normalize_report hst hm hroot hloc hd hr hs, hm]
  have hbelow {r : LinkedRoot} (hr : r ∈ bound.roots) {l : Location} :
      SourceBelow files r.external l ↔ ∃ ns, Shows files home r ns l := by
    obtain ⟨top, ht⟩ := hst' r hr
    exact h.sourceBelow_iff hst hdir hr ht
  constructor
  · intro hreturn
    have hto {r : LinkedRoot} (hr : r ∈ bound.roots) {ns : List String} {l : Location}
        (hs : Shows files home r ns l) :
        PathMap.transfer? (bound.roots.map fun r => (r.external, r.link)) (pathOf l) =
          some (Path.under r.link ns) :=
      (hback hr hs).symm.trans (hreturn _ ((hmem _).mpr ⟨r, hr, ns, l, rfl, hs⟩))
    refine ⟨fun r hr hsource => ?_, ?_⟩
    · obtain ⟨l, hl⟩ := hsource
      obtain ⟨ns, hs⟩ := (hbelow hr).mp hl
      exact h.not_parent_of_transfer? hst hr hs (hto hr hs)
    · refine h.nodup.of_map.pairwise_of_forall_ne fun r hr r' hr' hne hshare => ?_
      obtain ⟨l, hl, hl'⟩ := hshare
      obtain ⟨ns, hs⟩ := (hbelow hr).mp hl
      obtain ⟨ms, hs'⟩ := (hbelow hr').mp hl'
      have heq := Option.some.inj ((hto hr hs).symm.trans (hto hr' hs'))
      exact hne (h.under_link_inj hpath hr hr' hs.isName hs'.isName (congrArg Path.components heq)).1
  · rintro ⟨hparent, hshare⟩ p hp
    obtain ⟨r, hr, ns, l, rfl, hs⟩ := (hmem p).mp hp
    have hl : SourceBelow files r.external l := (hbelow hr).mpr ⟨ns, hs⟩
    rw [hback hr hs]
    refine h.transfer?_of_alone hst hst' hr hs (hparent r hr ⟨l, hl⟩) fun r' hr' hl' => ?_
    have hsymm : Std.Symm fun r r' : LinkedRoot => ¬ files.ShareSource r.external r'.external :=
      ⟨fun a b hab hba => hab (hba.imp fun _ hboth => ⟨hboth.2, hboth.1⟩)⟩
    by_contra hne
    exact hshare.forall hr' hr hne ⟨l, hl', hl⟩

/-- The same of the files of the index, which are found again at the paths that lead back. -/
theorem Apart.units_return_iff (hdir : ∀ r ∈ bound.roots, files.isDir r.link = true)
    (hst' : ∀ r ∈ bound.roots, ∃ top, files.Straight home r.external top)
    (hm : m.roots = bound.roots) (hroot : m.treeRoot = pathOf loc) (hloc : ∀ n ∈ loc, IsName n)
    (hd : loc ∈ outside home → files.isDirAt loc = true) {index : Index}
    (hindex : Project.readIndex files
      ⟨bound.name, bound.location, bound.output, bound.classpath, none⟩ = index) :
    (∀ u ∈ index.units, m.toWorkspace? files.normalize (m.report u.ref.path) = some u.ref.path ∧
        Query.unit? ⟨index, m⟩ files.normalize (m.report u.ref.path) = some u) ↔
      (∀ r ∈ bound.roots, (∃ l, SourceBelow files r.external l) →
        .parent ∉ Path.components r.external) ∧
      bound.roots.Pairwise fun r r' => ¬ files.ShareSource r.external r'.external := by
  have hpaths : index.units.map (·.ref.path) =
      (Sources.texts files (Sources.filesBelowAll files (bound.roots.map (·.link)))).map (·.1) := by
    rw [← hindex, Project.readIndex, h.sourceRoots, Index.paths_ofFiles]
  have hnodup : ((index.units.map (·.ref.path)).map Path.components).Nodup := by
    rw [hpaths]
    exact (Path.nodup_distinct _).sublist ((Sources.texts_sublist files _).map Path.components)
  rw [← h.paths_return_iff hst hdir hst' hm hroot hloc hd, ← hpaths, List.forall_mem_map]
  refine forall₂_congr fun u hu => ⟨fun hback => hback.1, fun hback => ⟨hback, ?_⟩⟩
  rw [Query.unit?, hback]
  exact Index.unit?_of_mem hnodup hu

end Returning

end Workspace

lemma FileTree.locate_of_isDir {fs : FileTree} {path : String} (h : fs.isDir path = true) :
    ∃ loc, fs.locate path = .ok loc ∧ fs.isDirAt loc = true := by
  cases hl : fs.locate path with
  | error e => simp [isDir, status, hl, Bind.bind, Except.bind, Except.toOption] at h
  | ok loc => exact ⟨loc, rfl, Workspace.isDirAt_of_locate h hl⟩

namespace Service

variable {before : FileTree} {home : Location} {s s' : Service}

/-- After a load, the path that is shown for a file, from the root of the tree or absolute as the
service is set up, leads back to that file for all files of the project exactly when no source
directory that has a file is written with double points, and no two source directories have a file
in common. The source directories hold no links and are not reached through any. -/
theorem load_reported_paths_return_iff {path : String} {now : Nat} {summary : ProjectSummary}
    {project : LoadedProject} (hk : s.Kept before home)
    (hfree : ∀ dir, before.entry? (dir ++ [Classpath.dumpName]) = none)
    (hm : s.workspace.mode = .link) (hload : s.load path now = (.ok summary, s'))
    (hproject : s'.current = some project)
    (hstraight : ∀ r ∈ project.bound.roots, ∃ top, before.Straight home r.external top)
    (hlinks : ∀ r ∈ project.bound.roots, s'.workspace.files.isDir r.link = true) :
    (∀ u ∈ project.query.index.units,
        project.query.paths.toWorkspace? s'.workspace.files.normalize
            (project.query.paths.report u.ref.path) = some u.ref.path ∧
          project.query.unit? s'.workspace.files.normalize
            (project.query.paths.report u.ref.path) = some u) ↔
      (∀ r ∈ project.bound.roots, (∃ l, SourceBelow s'.workspace.files r.external l) →
        .parent ∉ Path.components r.external) ∧
      project.bound.roots.Pairwise fun r r' =>
        ¬ s'.workspace.files.ShareSource r.external r'.external := by
  have hloads := s.loads path now
  rw [hload] at hloads
  cases hloads with
  | @loaded root assembly files bound workspace hcheck hnormal ha hb =>
    obtain rfl := Option.some.inj hproject
    have hkept := assemble_kept hk hfree root
    rw [ha] at hkept
    obtain rfl : bound = Workspace.planned s.workspace.session root assembly.entries :=
      Workspace.bind_planned (w := { s.workspace with files }) hb
    have hclear (r : SourceRoot) (hr : .source r ∈ assembly.entries) : before.Clear home
        {l | ∃ p ∈ {p | ∃ r : SourceRoot, .source r ∈ assembly.entries ∧ r.path = p},
          ∃ top, before.Straight home p top ∧ top <+: l} r.path := by
      obtain ⟨linked, hm, he⟩ := Workspace.exists_linkPlan hr
      obtain ⟨top, ht⟩ := hstraight linked hm
      exact Straight.clear ⟨r, hr, rfl⟩ (he ▸ ht)
    have hsecluded := Straight.secluded before home
      {p | ∃ r : SourceRoot, .source r ∈ assembly.entries ∧ r.path = p}
    obtain ⟨hsession, hstands, -⟩ := Workspace.bind_stands (w := { s.workspace with files }) hsecluded
      hclear hm hkept hb
    have hapart := Workspace.apart_planned hsecluded hclear s.workspace.session root
    have hstands' := stands_replaceCurrent
      (s.loadedFrom workspace.files root assembly _ now) hk.named hsession hstands
    have hstraight' (r : LinkedRoot) (hr : r ∈ _) : ∃ top, _ :=
      (hstraight r hr).imp fun _ ht => ht.congr hstands'.kept.same
    obtain ⟨loc, hlocate, hd⟩ := locate_of_isDir (isDir_of_checkLoad hcheck)
    have hroot : root = pathOf loc := hnormal.symm.trans (normalize_of_locate hk.session.wellFormed hlocate)
    have hloc : ∀ n ∈ loc, IsName n := fun n hn =>
      (hk.session.wellFormed.isName_of_some (isDirAt_iff.mp hd) n hn).1
    have hiff := hapart.units_return_iff hstands' (m := ⟨root, _, s.config.absolutePaths⟩) hlinks
      hstraight' rfl hroot hloc (fun hout => by
        rw [isDirAt_congr (hstands'.kept.same.entry? loc hout),
          ← isDirAt_congr (hk.session.same.entry? loc hout), hd])
      (hapart.readIndex_eq hstands hstands')
    exact hiff

/-- A tree whose one module is named by a path that goes up. -/
def upwardTree : FileTree where
  entries := [(["t"], .dir),
    (["t", "pom.xml"], .file (encodeText "<modules><module>a/../b</module>") false),
    (["t", "a"], .dir), (["t", "b"], .dir), (["t", "b", "src"], .dir),
    (["t", "b", "src", "A.java"], .file [] false), (["0123abcd"], .dir)]
  cwd := []

def upwardService : Service :=
  .ofSession .initial listingTool .unresolved upwardTree ⟨"0123abcd", "/0123abcd", false⟩

lemma upwardService_kept : upwardService.Kept upwardTree ["0123abcd"] := by
  have hc : Session.create (upwardTree.erase ["0123abcd"]) "/" ["0123abcd"] =
      .ok (⟨"0123abcd", "/0123abcd", false⟩, upwardTree) := by decide +kernel
  obtain ⟨-, -, home, -, hk⟩ := Session.create_kept (by decide +kernel) (by decide +kernel) hc
  have hhome := hk.locate_path rfl
  rw [show upwardTree.locate "/0123abcd" = .ok ["0123abcd"] by decide +kernel] at hhome
  obtain rfl := Except.ok.inj hhome
  exact ⟨hk, nofun, listingTool_writesListOnly⟩

lemma upwardTree_straight :
    upwardTree.Straight ["0123abcd"] "/t/a/../b/src" ["t", "b", "src"] := by
  refine ⟨by decide, ?_, fun rest t he => ?_, by decide⟩
  · have henter {loc loc' : Location} {name : String} {ns : List String}
        (hh : ¬ ["0123abcd"] <+: loc) (hd : upwardTree.entry? loc = some .dir)
        (hn : name ≠ "." ∧ name ≠ ".." ∧ name.utf8ByteSize ≤ 255)
        (he : upwardTree.entry? (loc ++ [name]) = some .dir)
        (hl : upwardTree.Leads (outside ["0123abcd"]) 0 (loc ++ [name]) ns 0 loc') :
        upwardTree.Leads (outside ["0123abcd"]) 0 loc (name :: ns) 0 loc' :=
      .enter hh (isDirAt_iff.mpr hd) ⟨hn.1, hn.2.1, hn.2.2⟩ he nofun hl
    rw [show namesOf "/t/a/../b/src" = ["t", "a", "..", "b", "src"] by decide]
    have hend : ¬ ["0123abcd"] <+: ["t", "b", "src"] := by decide
    have hmiddle : ¬ ["0123abcd"] <+: ["t", "a"] := by decide
    have hdown : upwardTree.Leads (outside ["0123abcd"]) 0 ["t"] ["b", "src"] 0 ["t", "b", "src"] :=
      henter (by decide) (by decide) (by decide) (by decide)
        (henter (by decide) (by decide) (by decide) (by decide) (.here hend))
    exact henter (by decide) (by decide) (by decide) (by decide)
      (henter (by decide) (by decide) (by decide) (by decide)
        (.up hmiddle (by decide) hdown))
  · have hm := mem_entries (by simp) he
    simp [upwardTree] at hm

lemma upwardService_load : ∃ project s', upwardService.load "/t" 1 = (.ok ⟨.maven, 1, [], 2⟩, s') ∧
    s'.current = some project ∧ project.bound.roots = [
      ⟨"a____b_src", "/0123abcd/projects/t/links/a____b_src", "/t/a/../b/src"⟩] ∧
    (∀ r ∈ project.bound.roots, s'.workspace.files.isDir r.link = true) ∧
    s'.workspace.files.entry? ["t", "b", "src", "A.java"] = some (.file [] false) ∧
    s'.workspace.files.locate "/t/a/../b/src" = .ok ["t", "b", "src"] := by
  have hload : (match upwardService.load "/t" 1 with
    | (answer, s') => decide (answer = .ok ⟨.maven, 1, [], 2⟩) &&
      (s'.current.map (·.bound.roots) == some [
        ⟨"a____b_src", "/0123abcd/projects/t/links/a____b_src", "/t/a/../b/src"⟩]) &&
      s'.workspace.files.isDir "/0123abcd/projects/t/links/a____b_src" &&
      (s'.workspace.files.entry? ["t", "b", "src", "A.java"] == some (.file [] false)) &&
      decide (s'.workspace.files.locate "/t/a/../b/src" = .ok ["t", "b", "src"])) = true := by
    decide +kernel
  generalize upwardService.load "/t" 1 = result at hload
  obtain ⟨answer, s'⟩ := result
  simp only [Bool.and_eq_true, decide_eq_true_eq, beq_iff_eq, Option.map_eq_some_iff] at hload
  obtain ⟨⟨⟨⟨rfl, project, hproject, hroots⟩, hlink⟩, hfile⟩, hplace⟩ := hload
  refine ⟨project, s', rfl, hproject, hroots, ?_, hfile, hplace⟩
  simpa [hroots] using hlink

theorem load_reported_paths_return_iff_upwardTree : ∃ summary project s',
    upwardService.load "/t" 1 = (.ok summary, s') ∧ s'.current = some project ∧
      summary.sourceFileCount = 1 ∧ ¬ ∀ u ∈ project.query.index.units,
        project.query.paths.toWorkspace? s'.workspace.files.normalize
            (project.query.paths.report u.ref.path) = some u.ref.path ∧
          project.query.unit? s'.workspace.files.normalize
            (project.query.paths.report u.ref.path) = some u := by
  obtain ⟨project, s', hload, hproject, hroots, hlinks, hfile, hplace⟩ := upwardService_load
  have hstraight : ∀ r ∈ project.bound.roots,
      ∃ top, upwardTree.Straight ["0123abcd"] r.external top := by
    rw [hroots]
    simpa using ⟨_, upwardTree_straight⟩
  have hfree (dir : Location) : upwardTree.entry? (dir ++ [Classpath.dumpName]) = none := by
    rw [← Option.not_isSome_iff_eq_none]
    intro hs
    obtain ⟨e, he⟩ := Option.isSome_iff_exists.mp hs
    have hname : ∀ e ∈ upwardTree.entries, e.1.getLast? ≠ some Classpath.dumpName := by
      decide +kernel
    exact hname _ (mem_entries (by simp) he) (by simp)
  have hiff := load_reported_paths_return_iff upwardService_kept hfree rfl hload hproject hstraight
    hlinks
  refine ⟨_, project, s', hload, hproject, rfl, fun hreturn => ?_⟩
  have hbelow : SourceBelow s'.workspace.files "/t/a/../b/src" ["t", "b", "src", "A.java"] :=
    ⟨_, ["A.java"], [], false, "", hplace, rfl, by decide, by decide, hfile, by decide⟩
  have hparent := (hiff.mp hreturn).1
  rw [hroots] at hparent
  exact absurd (hparent _ List.mem_cons_self ⟨_, hbelow⟩) (by decide)

end Service

end JavaAtlas
