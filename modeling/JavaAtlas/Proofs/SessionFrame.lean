import JavaAtlas.Proofs.Confinement
import JavaAtlas.Workspace
import Mathlib.Data.List.Nodup
import Mathlib.Data.List.Perm.Subperm

/-! What happens outside the directory of a session while projects are put into it and taken out
again: nothing. Inside, links stand only where the projects have them, so that no other path of the
session leads out of it. -/

namespace JavaAtlas

open Text FileTree

/-- A text of letters, digits and underscores. -/
structure IsPlain (s : String) : Prop where
  ne_empty : s ≠ ""
  chars : ∀ c ∈ s.toList, c.isAlphanum = true ∨ c = '_'

namespace IsPlain

variable {s t : String}

lemma isName (h : IsPlain s) : IsName s := by
  have hno {c : Char} (hc : c.isAlphanum = false) (hu : c ≠ '_') : c ∉ s.toList := fun hm =>
    (h.chars c hm).elim (by simp [hc]) hu
  refine ⟨h.ne_empty, ?_, ?_, hno (by decide) (by decide)⟩
  · rintro rfl
    exact hno (c := '.') (by decide) (by decide) (by decide)
  · rintro rfl
    exact hno (c := '.') (by decide) (by decide) (by decide)

lemma no_point (h : IsPlain s) : '.' ∉ s.toList := fun hm =>
  (h.chars '.' hm).elim (by decide) (by decide)

lemma append (hs : IsPlain s) (ht : ∀ c ∈ t.toList, c.isAlphanum = true ∨ c = '_') :
    IsPlain (s ++ t) := by
  refine ⟨by simp [hs.ne_empty], fun c hc => ?_⟩
  rw [String.toList_append] at hc
  exact (List.mem_append.mp hc).elim (hs.chars c) (ht c)

end IsPlain

namespace Workspace

lemma isPlain_orName {other name : String} (ho : IsPlain other) :
    IsPlain (orName other (sanitize name)) := by
  rw [orName]
  split
  · exact ho
  · next h =>
    refine ⟨by simpa using h, fun c hc => ?_⟩
    obtain ⟨d, -, rfl⟩ : ∃ d ∈ name.toList, (if d.isAlphanum || d == '_' then d else '_') = c := by
      simpa [sanitize] using hc
    split
    · next hd => simpa using hd
    · exact .inr rfl

lemma isPlain_projectName (treeRoot : String) : IsPlain (projectName treeRoot) :=
  isPlain_orName ⟨by decide, by simp⟩

lemma isPlain_linkName (relative : String) : IsPlain (linkName relative) :=
  isPlain_orName ⟨by decide, by simp⟩

lemma uniqueName_mem (taken : List String) (base : String) : uniqueName taken base = base ∨
    ∃ i, uniqueName taken base = base ++ "_" ++ toString (i + 2) := by
  rw [uniqueName]
  generalize hn : (List.range (taken.length + 1)).map
    (fun i => base ++ "_" ++ toString (i + 2)) = numbered
  cases hf : (base :: numbered).find? (!taken.contains ·) with
  | none => exact .inl rfl
  | some name =>
    rcases List.mem_cons.mp (List.mem_of_find?_eq_some hf) with rfl | hm
    · exact .inl rfl
    · rw [← hn] at hm
      obtain ⟨i, -, rfl⟩ := List.mem_map.mp hm
      exact .inr ⟨i, rfl⟩

lemma isPlain_uniqueName {base : String} (hb : IsPlain base) (taken : List String) :
    IsPlain (uniqueName taken base) := by
  rcases uniqueName_mem taken base with h | ⟨i, h⟩
  · rwa [h]
  · rw [h]
    refine (hb.append (by simp)).append fun c hc => .inl ?_
    have hd : c.isDigit = true := by
      refine Nat.isDigit_of_mem_toDigits (b := 10) (n := i + 2) (by decide) (by decide) ?_
      simpa [toString, Nat.repr] using hc
    simp [Char.isAlphanum, hd]

/-- There are more candidates than names that are taken. -/
lemma uniqueName_not_mem (taken : List String) (base : String) : uniqueName taken base ∉ taken := by
  rw [uniqueName]
  generalize hn : (List.range (taken.length + 1)).map
    (fun i => base ++ "_" ++ toString (i + 2)) = numbered
  have hlen : numbered.length = taken.length + 1 := by simp [← hn]
  have hnodup : numbered.Nodup := by
    rw [← hn]
    refine List.Nodup.map (fun i j hij => ?_) List.nodup_range
    have hs : (toString (i + 2)).toList = (toString (j + 2)).toList := by
      simpa using congrArg String.toList hij
    simpa [Nat.toString_eq_ofList_toDigits] using congrArg (Nat.ofDigitChars 10 · 0) hs
  cases hf : (base :: numbered).find? (!taken.contains ·) with
  | some name => simpa using List.find?_some hf
  | none =>
    have hsub : numbered ⊆ taken := fun name hm => by
      simpa using List.find?_eq_none.mp hf name (List.mem_cons_of_mem _ hm)
    have := (List.subperm_of_subset hnodup hsub).length_le
    omega

end Workspace

namespace Session

/-- How a session keeps its directory: outside of it all is as before, and links stand only among the
links of projects. -/
structure Kept (before : FileTree) (home : Location) (s : Session) (files : FileTree) : Prop where
  wellFormed : files.WellFormed
  same : SameOutside home before files
  anchored : Anchored files s.path home
  links : ∀ xs t, files.entry? (home ++ xs) = some (.link t) →
    ∃ project name, xs = ["projects", project, "links", name] ∧ '.' ∉ name.toList
  standing : files.entry? home = if s.tornDown then none else some .dir

variable {before files files' : FileTree} {home : Location} {s : Session}

namespace Kept

lemma not_link (h : s.Kept before home files) {xs : List String} (hlen : xs.length ≠ 4) (t : String) :
    files.entry? (home ++ xs) ≠ some (.link t) := by
  intro he
  obtain ⟨_, _, rfl, -⟩ := h.links xs t he
  exact hlen rfl

lemma names (h : s.Kept before home files) {p : String} {rest : List String}
    (hs : Spells s.path p rest) (hlen : rest.length ≤ 4) : Names files s.path home p rest := by
  refine ⟨h.wellFormed, h.anchored, hs, fun xs ys t hx hy => h.not_link ?_ t⟩
  have := List.length_pos_iff.mpr hy
  simp only [hx, List.length_append] at hlen
  omega

lemma of_fills (h : s.Kept before home files) {Z : Set Location} (hf : Fills Z files files')
    (hz : ∀ l ∈ Z, home <+: l ∧ l ≠ home) : s.Kept before home files' := by
  have hsame := hf.same_outside fun l hl => (hz l hl).1
  refine ⟨hf.wellFormed, h.same.trans hsame, h.anchored.of_same_outside hsame,
    fun xs t he => h.links xs t (hf.not_link he), ?_⟩
  have he := (hf.entry? home).resolve_right fun hh => (hz home hh.1).2 rfl
  rw [he, h.standing]

lemma of_removed (h : s.Kept before home files) {rest : List String}
    (hr : Removed (home ++ rest) files files') (hne : rest ≠ []) : s.Kept before home files' := by
  have hsame := hr.same_outside (List.prefix_append home rest)
  refine ⟨hr.wellFormed, h.same.trans hsame, h.anchored.of_same_outside hsame, fun xs t he => ?_, ?_⟩
  · rw [hr.entry?] at he
    split at he
    · cases he
    · exact h.links xs t he
  · have hn : ¬ home ++ rest <+: home := fun hp => by
      have hle := hp.length_le
      have := List.length_pos_iff.mpr hne
      simp only [List.length_append] at hle
      omega
    rw [hr.entry?, if_neg hn, h.standing]

lemma of_link (h : s.Kept before home files) {project name target : String} (hn : '.' ∉ name.toList)
    (hseat : files.Seat (home ++ ["projects", project, "links", name]))
    (hnone : files.entry? (home ++ ["projects", project, "links", name]) = none) :
    s.Kept before home
      (files.insert (home ++ ["projects", project, "links", name]) (.link target)) := by
  have hentry (l : Location) :
      FileTree.entry? (files.insert (home ++ ["projects", project, "links", name]) (.link target)) l =
        _ := entry?_insert hseat.ne_nil
  have hsame : SameOutside home files
      (files.insert (home ++ ["projects", project, "links", name]) (.link target)) := by
    refine ⟨rfl, fun l hl => ?_⟩
    rw [hentry, if_neg]
    rintro rfl
    exact hl (List.prefix_append _ _)
  refine ⟨h.wellFormed.insert hseat (by simp [isDirAt, hnone]), h.same.trans hsame,
    h.anchored.of_same_outside hsame, fun xs t he => ?_, ?_⟩
  · rw [hentry] at he
    split at he
    · next hx => exact ⟨project, name, List.append_cancel_left hx, hn⟩
    · exact h.links xs t he
  · rw [hentry, if_neg (by simp), h.standing]

lemma isDirAt_home (h : s.Kept before home files) (ht : s.tornDown = false) :
    files.isDirAt home = true := by
  rw [isDirAt_iff, h.standing, ht]
  rfl

/-- A directory of a project is made below that of the session. -/
lemma makes_dirs (h : s.Kept before home files) (hd : files.isDirAt home = true)
    {project last : String} (hp : IsName project) (hl : IsName last) :
    MakesDirs files home ["projects", project, last]
      (files.createDirAll (Path.under s.path ["projects", project, last])) := by
  have hrest : ∀ n ∈ ["projects", project, last], IsName n := by
    simp only [List.forall_mem_cons]
    exact ⟨by decide, hp, hl, by simp⟩
  refine createDirAll_makes h.wellFormed h.anchored hd
    (Path.components_under h.anchored.path_ne_empty hrest) hrest fun xs ys t hx => h.not_link ?_ t
  have hlen := congrArg List.length hx
  simp only [List.length_cons, List.length_nil, List.length_append] at hlen
  omega

/-- The directory of a project is taken away, and nothing that its links lead to. -/
lemma removed_project (h : s.Kept before home files) {name : String} (hn : IsName name) :
    Removed (home ++ ["projects", name]) files (files.removeTree (s.projectDir name)) := by
  have hs : Spells s.path (s.projectDir name) ["projects", name] :=
    Spells.under h.anchored.slash (show ∀ n ∈ ["projects", name], IsName n by simp [hn]; decide)
  exact (h.names hs (by simp)).removeTree_removed (h.not_link (by simp))

lemma remove_project (h : s.Kept before home files) {name : String} (hn : IsName name) :
    s.Kept before home (files.removeTree (s.projectDir name)) :=
  h.of_removed (h.removed_project hn) (by simp)

lemma teardown (h : s.Kept before home files) :
    (s.teardown files).1.Kept before home (s.teardown files).2 ∧
      (s.teardown files).1.tornDown = true := by
  rw [Session.teardown]
  split
  · next ht => exact ⟨h, ht⟩
  · have hr : Removed (home ++ []) files (files.removeTree s.path) :=
      (h.names (.refl h.anchored.slash) (by simp)).removeTree_removed (h.not_link (by simp))
    rw [List.append_nil] at hr
    have hsame := hr.same_outside List.prefix_rfl
    refine ⟨⟨hr.wellFormed, h.same.trans hsame, h.anchored.of_same_outside hsame,
      fun xs t he => ?_, ?_⟩, rfl⟩
    · rw [hr.entry?, if_pos (List.prefix_append _ _)] at he
      cases he
    · rw [hr.entry?, if_pos List.prefix_rfl]
      rfl

end Kept

end Session

namespace FileTree

variable {fs : FileTree} {loc : Location}

lemma isName_of_mem_namesAt (hw : fs.WellFormed) {name : String} (h : name ∈ fs.namesAt loc) :
    IsName name := by
  obtain ⟨⟨l, e⟩, he, hl⟩ := List.mem_filterMap.mp (List.mem_mergeSort.mp h)
  cases hlast : l.getLast? with
  | none => simp [hlast] at hl
  | some last =>
    have hname : last = name := by
      simp only [hlast] at hl
      split at hl
      · exact Option.some.inj hl
      · cases hl
    exact hname ▸ (hw.isName _ he last (List.mem_of_getLast? hlast)).1

lemma listBelow_paths (hw : fs.WellFormed) {fuel : Nat} (above : List String)
    (ha : ∀ n ∈ above, IsName n) {item : String × FileEntry}
    (h : item ∈ fs.listBelow fuel loc (joinWith "/" above)) :
    ∃ ns, item.1 = joinWith "/" ns ∧ ∀ n ∈ ns, IsName n := by
  induction fuel generalizing loc above with
  | zero => simp [listBelow] at h
  | succ fuel ih =>
    obtain ⟨name, hm, hi⟩ := List.mem_flatMap.mp h
    have hname := isName_of_mem_namesAt hw hm
    have hns : ∀ n ∈ above ++ [name], IsName n := by
      intro n hn
      rcases List.mem_append.mp hn with hn | hn
      · exact ha n hn
      · exact (by simpa using hn : n = name) ▸ hname
    have hpath : (if (joinWith "/" above).isEmpty then name else joinWith "/" above ++ "/" ++ name) =
        joinWith "/" (above ++ [name]) := by
      by_cases hab : above = []
      · subst hab
        rfl
      · have hne : joinWith "/" above ≠ "" := by
          intro he
          have hnames := Path.names_joinWith fun n hn => ⟨(ha n hn).ne_empty, (ha n hn).no_slash⟩
          rw [he, show Path.names "" = [] by decide] at hnames
          exact hab hnames.symm
        rw [if_neg (by simpa using hne), joinWith_append hab (by simp)]
        rfl
    simp only [hpath] at hi
    split at hi
    · rcases List.mem_cons.mp hi with rfl | hi
      · exact ⟨_, rfl, hns⟩
      · exact ih _ hns hi
    · obtain rfl := List.mem_singleton.mp hi
      exact ⟨_, rfl, hns⟩
    · cases hi

lemma attempt_fills {Z : Set Location} {result : Except IoError FileTree} (hw : fs.WellFormed)
    (h : ∀ made, result = .ok made → Fills Z fs made) : Fills Z fs (fs.attempt result).2 := by
  cases result with
  | error e => exact .refl hw
  | ok made => exact h made rfl

lemma copyFile_slash {target : String} (ht : target ≠ "") (source : String) {made : FileTree} :
    fs.copyFile source (Path.join target "") ≠ .ok made := by
  intro hc
  have hslash : (Path.join target "").toList.getLast? = some '/' := by
    rw [Path.join, if_neg (by decide)]
    split
    · next h => simpa [ht] using h
    · simp
  obtain ⟨entry, -, hc⟩ := ok_of_bind hc
  cases entry with
  | dir | link => cases hc
  | file content executable =>
    obtain ⟨written, hw, -⟩ := ok_of_bind hc
    rw [write, if_pos (by simpa using hslash)] at hw
    cases hw

lemma listing_paths (hw : fs.WellFormed) {path : String} {item : String × FileEntry}
    (h : item ∈ fs.listing path) : ∃ ns, item.1 = joinWith "/" ns ∧ ∀ n ∈ ns, IsName n := by
  rw [listing] at h
  split at h
  · split at h
    · exact listBelow_paths hw [] (by simp) h
    · cases h
  · cases h

end FileTree

namespace Workspace

lemma copyItems_paths {fs : FileTree} (hw : fs.WellFormed) {source : String}
    {items : List (String × FileEntry)} (h : copyItems fs source = .ok items) :
    ∀ item ∈ items, ∃ ns, item.1 = joinWith "/" ns ∧ ∀ n ∈ ns, IsName n := by
  intro item hm
  obtain ⟨loc, -, h⟩ := ok_of_bind h
  split at h
  · obtain ⟨_, -, h⟩ := ok_of_bind h
    obtain rfl : fs.listing source = items := Except.ok.inj h
    exact listing_paths hw hm
  · obtain rfl : ("", FileEntry.dir) :: fs.listing source = items := Except.ok.inj h
    rcases List.mem_cons.mp hm with rfl | hm
    · exact ⟨[], rfl, by simp⟩
    · exact listing_paths hw hm
  · obtain rfl : [("", _)] = items := Except.ok.inj h
    obtain rfl := List.mem_singleton.mp hm
    exact ⟨[], rfl, by simp⟩
  · cases h

/-- Whatever an action comes to, it leaves the workspace so. -/
def Leaves {α : Type} (P : Workspace → Prop) (x : Action α) (Q : Workspace → Prop) : Prop :=
  ∀ w, P w → Q (x.run w).2

section Actions

variable {α β : Type} {P Q R : Workspace → Prop} {x : Action α}

lemma run_bind (x : Action α) (f : α → Action β) (w : Workspace) : (x >>= f).run w =
    match x.run w with
    | (.ok a, w') => (f a).run w'
    | (.error e, w') => (.error e, w') := by
  rw [ExceptT.run_bind]
  simp only [Bind.bind, StateT.bind]
  rcases x.run w with ⟨_ | _, w'⟩ <;> rfl

lemma ok_of_run_bind {f : α → Action β} {w w' : Workspace} {b : β}
    (h : (x >>= f).run w = (.ok b, w')) :
    ∃ a w₁, x.run w = (.ok a, w₁) ∧ (f a).run w₁ = (.ok b, w') := by
  rw [run_bind] at h
  generalize x.run w = r at h
  obtain ⟨_ | a, w₁⟩ := r
  · cases h
  · exact ⟨a, w₁, rfl, h⟩

lemma Leaves.bind {f : α → Action β} (hx : Leaves P x Q) (hf : ∀ a, Leaves Q (f a) R)
    (hr : ∀ w, Q w → R w) : Leaves P (x >>= f) R := by
  intro w hw
  have hq := hx w hw
  rw [run_bind]
  generalize x.run w = r at hq
  obtain ⟨_ | a, w'⟩ := r
  · exact hr w' hq
  · exact hf a w' hq

lemma Leaves.forM {f : α → Action Unit} {xs : List α} (h : ∀ a ∈ xs, Leaves P (f a) P) :
    Leaves P (xs.forM f) P := by
  induction xs with
  | nil => exact fun w hw => hw
  | cons a xs ih =>
    change Leaves P (f a >>= fun _ => xs.forM f) P
    exact (h a List.mem_cons_self).bind (fun _ => ih fun b hb => h b (List.mem_cons_of_mem _ hb))
      fun _ hw => hw

/-- Only the files have changed, and they only at places of `Z`. -/
def Filled (Z : Set Location) (start w : Workspace) : Prop :=
  ∃ files, w = { start with files } ∧ Fills Z start.files files

lemma run_edit (change : FileTree → Except IoError Unit × FileTree) (w : Workspace) :
    ((edit change).run w).2 = { w with files := (change w.files).2 } := by
  have hget : (get : Action Workspace).run w = (.ok w, w) := rfl
  rw [edit, run_bind, hget]
  rcases hc : change w.files with ⟨_ | _, files⟩ <;> simp only [hc] <;> rfl

lemma Filled.edit {Z : Set Location} {start : Workspace}
    {change : FileTree → Except IoError Unit × FileTree}
    (h : ∀ files, Fills Z start.files files → Fills Z files (change files).2) :
    Leaves (Filled Z start) (edit change) (Filled Z start) := by
  rintro _ ⟨files, rfl, hf⟩
  rw [run_edit]
  exact ⟨_, rfl, hf.trans (h files hf)⟩

end Actions

/-- What a source directory may fill: places below the directory of the session, but of the links
of the project only its own. -/
def linkZone (home : Location) (project name : String) : Set Location :=
  {l | home <+: l ∧ l ≠ home ∧
    ∀ other, l = home ++ ["projects", project, "links", other] → other = name}

section Binding

variable {before files : FileTree} {home : Location} {start w : Workspace} {project name : String}

lemma isName_link (hp : IsName project) (hn : IsName name) :
    ∀ n ∈ ["projects", project, "links", name], IsName n := by
  simp only [List.forall_mem_cons]
  exact ⟨by decide, hp, by decide, hn, by simp⟩

/-- Below a place that is no link among the links of a project there is no link. -/
lemma not_link_below {s : Session} (hk : s.Kept before home files) {ns : List String}
    (hx : ∀ t, files.entry? (home ++ ["projects", project, "links", name]) ≠ some (.link t))
    {xs ys : List String} {t : String}
    (hxs : ["projects", project, "links", name] ++ ns = xs ++ ys) :
    files.entry? (home ++ xs) ≠ some (.link t) := by
  intro he
  obtain ⟨project', name', rfl, -⟩ := hk.links xs t he
  obtain ⟨rfl, rfl⟩ : project = project' ∧ name = name' := by
    simp only [List.cons_append, List.cons.injEq] at hxs
    exact ⟨hxs.2.1, hxs.2.2.2.1⟩
  exact hx t he

lemma Filled.copyItem (hk : start.session.Kept before home start.files)
    (hd : start.files.isDirAt home = true) (hp : IsName project) (hn : IsName name)
    (hx : ∀ t, start.files.entry? (home ++ ["projects", project, "links", name]) ≠ some (.link t))
    {source : String} {item : String × FileEntry} {ns : List String}
    (hi : item.1 = joinWith "/" ns) (hns : ∀ n ∈ ns, IsName n) :
    Leaves (Filled (linkZone home project name) start)
      (copyItem source (Path.under start.session.path ["projects", project, "links", name]) item)
      (Filled (linkZone home project name) start) := by
  have hrest := isName_link hp hn
  have hall : ∀ n ∈ ["projects", project, "links", name] ++ ns, IsName n := fun n hm =>
    (List.mem_append.mp hm).elim (hrest n) (hns n)
  have hne := hk.anchored.path_ne_empty
  have hz : ∀ l ∈ linkZone home project name, home <+: l ∧ l ≠ home := fun l hl => ⟨hl.1, hl.2.1⟩
  have hin {l : Location} (hl : l <+: home ++ (["projects", project, "links", name] ++ ns))
      {other : String} (ho : l = home ++ ["projects", project, "links", other]) : other = name := by
    subst ho
    have := (List.prefix_append_right_inj home).mp hl
    simpa using this
  have hplain {files : FileTree} (hf : Fills (linkZone home project name) start.files files)
      {xs : List String} (ys : List String) {t : String}
      (hxs : ["projects", project, "links", name] ++ ns = xs ++ ys) :
      files.entry? (home ++ xs) ≠ some (.link t) :=
    not_link_below (hk.of_fills hf hz) (fun t he => hx t (hf.not_link he)) hxs
  obtain ⟨path, entry⟩ := item
  obtain rfl : path = joinWith "/" ns := hi
  cases entry with
  | link t => exact fun w hw => hw
  | dir =>
    rw [Workspace.copyItem]
    refine Filled.edit fun files hf => ?_
    have hkept := hk.of_fills hf hz
    have hdir : files.isDirAt home = true := by
      rw [isDirAt_congr ((hf.entry? home).resolve_right fun hh => hh.1.2.1 rfl), hd]
    have hcs : Path.components (Path.join (Path.under start.session.path
        ["projects", project, "links", name]) (joinWith "/" ns)) =
        Path.components start.session.path ++
          (["projects", project, "links", name] ++ ns).map .normal := by
      rw [Path.components_join_names (Path.under_ne_empty hne hrest) hns,
        Path.components_under hne hrest, List.map_append, List.append_assoc]
    refine (createDirAll_makes hkept.wellFormed hkept.anchored hdir hcs hall
      fun xs ys t hxs => hplain hf ys hxs).fills.mono ?_
    exact fun l hl => ⟨hl.1, hl.2.1, fun other ho => hin hl.2.2 ho⟩
  | file content executable =>
    rw [Workspace.copyItem]
    refine Filled.edit fun files hf => ?_
    have hkept := hk.of_fills hf hz
    refine attempt_fills hkept.wellFormed fun made hc => ?_
    by_cases hnil : ns = []
    · -- a path that ends in a slash is never written
      subst hnil
      exact absurd hc (copyFile_slash (Path.under_ne_empty hne hrest) _)
    · have hnames : Names files start.session.path home _ _ :=
        ⟨hkept.wellFormed, hkept.anchored, (Spells.under hkept.anchored.slash hrest).join hnil hns,
          fun xs ys t hxs _ => hplain hf ys hxs⟩
      refine (hnames.copyFile_fills (fun t => hplain hf [] (by simp)) hc).mono ?_
      rintro l rfl
      exact ⟨List.prefix_append _ _, by simp, fun other ho => hin List.prefix_rfl ho⟩

lemma Filled.copyTree (hk : start.session.Kept before home start.files)
    (hd : start.files.isDirAt home = true) (hp : IsName project) (hn : IsName name)
    (hx : ∀ t, start.files.entry? (home ++ ["projects", project, "links", name]) ≠ some (.link t))
    (source : String) :
    Filled (linkZone home project name) start ((copyTree source
      (Path.under start.session.path ["projects", project, "links", name])).run start).2 := by
  have hstart : Filled (linkZone home project name) start start := ⟨_, rfl, .refl hk.wellFormed⟩
  have hget : (get : Action Workspace).run start = (.ok start, start) := rfl
  rw [Workspace.copyTree, run_bind, hget]
  simp only
  cases hc : copyItems start.files source with
  | error e => exact hstart
  | ok items =>
    refine Leaves.forM (fun item hm => ?_) start hstart
    obtain ⟨ns, hi, hns⟩ := copyItems_paths hk.wellFormed hc item hm
    exact Filled.copyItem hk hd hp hn hx hi hns

/-- A source directory comes into the workspace by one link, or by a copy that follows none. -/
lemma materialize_kept (hk : start.session.Kept before home start.files)
    (hd : start.files.isDirAt home = true) (hp : IsName project) (hn : IsPlain name)
    (hx : start.files.entry? (home ++ ["projects", project, "links", name]) = none)
    (source : String) : ∃ files, ((materialize source
      (Path.under start.session.path ["projects", project, "links", name])).run start).2 =
        { start with files } ∧ start.session.Kept before home files ∧
      (∀ other ≠ name, files.entry? (home ++ ["projects", project, "links", other]) =
        start.files.entry? (home ++ ["projects", project, "links", other])) ∧
      ∀ l, start.files.isDirAt l = true → files.isDirAt l = true := by
  have hget : (get : Action Workspace).run start = (.ok start, start) := rfl
  have hcopy := Filled.copyTree hk hd hp hn.isName (by simp [hx]) source
  rw [materialize, run_bind, hget]
  simp only
  split
  · next made _ hc =>
    have hnames := hk.names (Spells.under hk.anchored.slash (isName_link hp hn.isName)) (by simp)
    obtain ⟨rfl, hseat, hnone⟩ := hnames.createLink_eq hc
    refine ⟨_, rfl, hk.of_link hn.no_point hseat hnone, fun other ho => ?_, fun l hl => ?_⟩
    · rw [entry?_insert hseat.ne_nil, if_neg (by simpa using ho)]
    · have hne : l ≠ home ++ ["projects", project, "links", name] := by
        rintro rfl
        simp [isDirAt, hnone] at hl
      rw [isDirAt_congr ((entry?_insert hseat.ne_nil).trans (if_neg hne)), hl]
  · obtain ⟨files, hfiles, hf⟩ := hcopy
    refine ⟨files, hfiles, hk.of_fills hf fun l hl => ⟨hl.1, hl.2.1⟩, fun other ho => ?_, hf.dirs⟩
    exact (hf.entry? _).resolve_right fun hh => ho (hh.1.2.2 other rfl)

/-- What holds after each source directory holds after all of them. The names that were given already
are counted as taken. -/
lemma linkEntries_leaves {dir : String} {P : List String → Workspace → Prop} {Q : Workspace → Prop}
    (hstep : ∀ taken source name, name ∉ taken → IsPlain name →
      Leaves (P taken) (materialize source (Path.join dir name)) (P (name :: taken)))
    (hend : ∀ taken w, P taken w → Q w) (entries : List ClasspathEntry) (taken : List String) :
    Leaves (P taken) (linkEntries dir taken entries) Q := by
  induction entries generalizing taken with
  | nil => exact hend taken
  | cons entry rest ih =>
    cases entry with
    | source root =>
      rw [linkEntries]
      exact (hstep taken root.path _ (uniqueName_not_mem taken (linkName root.relative))
        (isPlain_uniqueName (isPlain_linkName root.relative) taken)).bind
        (fun _ => (ih _).bind (fun _ w hw => hw) fun _ hw => hw) (hend _)
    | container runtime =>
      rw [linkEntries]
      · exact (ih taken).bind (fun _ w hw => hw) fun _ hw => hw
      · exact nofun
    | library path =>
      rw [linkEntries]
      · exact (ih taken).bind (fun _ w hw => hw) fun _ hw => hw
      · exact nofun

/-- The session is that one, its directory is kept, and under the names that are not taken there is
nothing among the links of a project. -/
structure Ready (before : FileTree) (home : Location) (session : Session) (project : String)
    (taken : List String) (w : Workspace) : Prop where
  session_eq : w.session = session
  kept : session.Kept before home w.files
  free : ∀ name ∉ taken, w.files.entry? (home ++ ["projects", project, "links", name]) = none

lemma Ready.materialize {session : Session} {taken : List String} (hs : session.tornDown = false)
    (hp : IsName project) (hfresh : name ∉ taken) (hn : IsPlain name)
    (h : Ready before home session project taken w) (source : String) :
    Ready before home session project (name :: taken) ((materialize source (Path.join
      (Path.under session.path ["projects", project, "links"]) name)).run w).2 ∧
    ∀ l, w.files.isDirAt l = true → ((materialize source (Path.join
      (Path.under session.path ["projects", project, "links"]) name)).run w).2.files.isDirAt l = true := by
  obtain ⟨rfl, hk, hfree⟩ := h
  obtain ⟨files, hfiles, hkept, hother, hdirs⟩ :=
    materialize_kept hk (hk.isDirAt_home hs) hp hn (hfree name hfresh) source
  rw [Path.join_under, List.cons_append, List.cons_append, List.cons_append, List.nil_append, hfiles]
  refine ⟨⟨rfl, hkept, fun other ho => ?_⟩, hdirs⟩
  obtain ⟨hne, ho⟩ : other ≠ name ∧ other ∉ taken := by simpa using ho
  rw [hother other hne, hfree other ho]

lemma linkEntries_kept {session : Session} (hs : session.tornDown = false) (hp : IsName project)
    (entries : List ClasspathEntry) (taken : List String) :
    Leaves (Ready before home session project taken)
      (linkEntries (Path.under session.path ["projects", project, "links"]) taken entries)
      fun w => w.session = session ∧ session.Kept before home w.files :=
  linkEntries_leaves (fun _ source _ hfresh hn _ hw => (hw.materialize hs hp hfresh hn source).1)
    (fun _ _ hw => ⟨hw.session_eq, hw.kept⟩) entries taken

lemma run_bind_eq (treeRoot : String) (entries : List ClasspathEntry) (w : Workspace) :
    (bind treeRoot entries).run w =
      if w.session.tornDown then (.error (.session (.tornDown w.session.path)), w)
      else (build (projectName treeRoot) (w.session.projectDir (projectName treeRoot)) entries).run
        (w.unbind (projectName treeRoot)) := by
  have hget : (get : Action Workspace).run w = (.ok w, w) := rfl
  rw [bind, run_bind, hget]
  cases ht : w.session.tornDown with
  | true =>
    simp only [ht, if_true]
    rfl
  | false =>
    simp only [ht, Bool.false_eq_true, if_false]
    rw [run_bind]
    rfl

lemma register_kept {session : Session} (p : Project) :
    Leaves (fun w => w.session = session ∧ session.Kept before home w.files) (register p)
      fun w => w.session = session ∧ session.Kept before home w.files := by
  intro w hw
  have hget : (get : Action Workspace).run w = (.ok w, w) := rfl
  rw [register, run_bind, hget]
  simp only
  split <;> exact hw

/-- A directory of the project is made, and nothing among its links. -/
lemma createDirs_ready {session : Session} (hs : session.tornDown = false) (hp : IsName project)
    {last : String} (hl : IsName last) :
    Leaves (Ready before home session project [])
      (edit (·.createDirAll (Path.under session.path ["projects", project, last])))
      (Ready before home session project []) := by
  rintro w ⟨rfl, hk, hfree⟩
  have hf := (hk.makes_dirs (hk.isDirAt_home hs) hp hl).fills
  rw [run_edit]
  refine ⟨rfl, hk.of_fills hf fun l hl => ⟨hl.1, hl.2.1⟩, fun name hn => ?_⟩
  rcases hf.entry? (home ++ ["projects", project, "links", name]) with he | ⟨hz, -⟩
  · exact he.trans (hfree name hn)
  · have := hz.2.2.length_le
    simp at this

lemma join_projectDir (session : Session) (project last : String) :
    Path.join (session.projectDir project) last =
      Path.under session.path ["projects", project, last] := rfl

lemma build_kept {session : Session} (hs : session.tornDown = false) (hp : IsName project)
    (entries : List ClasspathEntry) :
    Leaves (Ready before home session project [])
      (build project (session.projectDir project) entries)
      fun w => w.session = session ∧ session.Kept before home w.files := by
  rw [build, join_projectDir, join_projectDir]
  refine (createDirs_ready hs hp (by decide)).bind (fun _ => ?_) ?_
  · refine (createDirs_ready hs hp (by decide)).bind (fun _ => ?_) ?_
    · refine (linkEntries_kept hs hp entries []).bind (fun _ => ?_) fun _ hw => hw
      exact (register_kept _).bind (fun _ w hw => hw) fun _ hw => hw
    · exact fun w hw => ⟨hw.session_eq, hw.kept⟩
  · exact fun w hw => ⟨hw.session_eq, hw.kept⟩

/-- Putting a tree into the workspace changes nothing outside the directory of the session, however
far it gets. -/
lemma bind_kept (treeRoot : String) (entries : List ClasspathEntry) (session : Session) :
    Leaves (fun w => w.session = session ∧ session.Kept before home w.files)
      (bind treeRoot entries)
      fun w => w.session = session ∧ session.Kept before home w.files := by
  rintro w ⟨rfl, hk⟩
  rw [run_bind_eq]
  split
  · exact ⟨rfl, hk⟩
  · next ht =>
    have hn := (isPlain_projectName treeRoot).isName
    have hkept := hk.remove_project hn
    refine build_kept (by simpa using ht) hn entries _ ⟨rfl, hkept, fun name _ => ?_⟩
    have hr := hk.removed_project hn
    exact (hr.entry? _).trans (if_pos (by simp))

/-- A project gets the name of its tree. -/
lemma name_of_bind {treeRoot : String} {entries : List ClasspathEntry} {bound : BoundProject}
    {w' : Workspace} (h : (bind treeRoot entries).run w = (.ok bound, w')) :
    bound.name = projectName treeRoot := by
  rw [run_bind_eq] at h
  split at h
  · cases h
  · obtain ⟨_, _, -, h⟩ := ok_of_run_bind h
    obtain ⟨_, _, -, h⟩ := ok_of_run_bind h
    obtain ⟨_, _, -, h⟩ := ok_of_run_bind h
    obtain ⟨_, _, -, h⟩ := ok_of_run_bind h
    cases h
    rfl

lemma unbind_kept (hk : w.session.Kept before home w.files) (hn : IsName name) :
    (w.unbind name).session.Kept before home (w.unbind name).files := hk.remove_project hn

end Binding

end Workspace

end JavaAtlas
