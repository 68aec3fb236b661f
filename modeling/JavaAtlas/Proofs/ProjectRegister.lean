import JavaAtlas.Proofs.BoundProjects
import JavaAtlas.Proofs.SourceTreeSafety

/-! What putting a tree into the workspace leaves behind: in the register of the engine, and where the
projects of the session lie. A tree that cannot be put there is not registered either. -/

namespace JavaAtlas

open Text FileTree

namespace FileTree

variable {fs fs' : FileTree} {l : Location} {path : String}

lemma createDir_new (hw : fs.WellFormed) (h : fs.createDir path = .ok fs') (l : Location) :
    FileTree.entry? fs' l = fs.entry? l ∨ fs'.isDirAt l = true := by
  rw [createDir] at h
  split at h
  · next loc hr =>
    obtain ⟨hs, -⟩ := seat_of_reach hw hr
    obtain rfl := Except.ok.inj h
    rw [isDirAt, entry?_insert hs.ne_nil]
    by_cases hl : l = loc
    · exact .inr (by simp [hl])
    · exact .inl (if_neg hl)
  all_goals cases h

/-- All that comes up where directories are made are directories. -/
lemma createDirsFrom_new (hw : fs.WellFormed) (cs : List Path.Component) (l : Location) :
    FileTree.entry? (fs.createDirsFrom cs).2 l = fs.entry? l ∨
      (fs.createDirsFrom cs).2.isDirAt l = true := by
  induction cs with
  | nil => exact .inl rfl
  | cons c before ih =>
    rw [createDirsFrom]
    split
    · exact .inl rfl
    · split
      · next made hc => exact createDir_new hw hc l
      · have hw' := (createDirsFrom_grows hw before).wellFormed
        split
        · next he => exact he ▸ ih
        · next parent he =>
          rw [he] at ih hw'
          split
          · next made hc =>
            rcases createDir_new hw' hc l with hnew | hnew
            · rwa [isDirAt_congr hnew, hnew]
            · exact .inr hnew
          · split <;> exact ih
      · exact .inl rfl

lemma createDirAll_new (hw : fs.WellFormed) (path : String) (l : Location) :
    FileTree.entry? (fs.createDirAll path).2 l = fs.entry? l ∨
      (fs.createDirAll path).2.isDirAt l = true := by
  rw [createDirAll]
  exact createDirsFrom_new hw _ l

end FileTree

namespace Workspace

variable {before files : FileTree} {home : Location} {start w w' : Workspace} {project : String}

/-- Nothing but the files has changed. -/
def OnlyFiles (start w : Workspace) : Prop := ∃ files, w = { start with files }

lemma edit_onlyFiles (change : FileTree → Except IoError Unit × FileTree) :
    Leaves (OnlyFiles start) (edit change) (OnlyFiles start) := by
  rintro _ ⟨files, rfl⟩
  rw [run_edit]
  exact ⟨_, rfl⟩

lemma copyTree_onlyFiles (source target : String) :
    Leaves (OnlyFiles start) (copyTree source target) (OnlyFiles start) := by
  intro w hw
  have hget : (get : Action Workspace).run w = (.ok w, w) := rfl
  rw [copyTree, run_bind, hget]
  simp only
  cases copyItems w.files source with
  | error e => exact hw
  | ok items =>
    refine Leaves.forM (fun item _ => ?_) w hw
    obtain ⟨path, entry⟩ := item
    cases entry with
    | dir =>
      rw [copyItem]
      exact edit_onlyFiles _
    | file content executable =>
      rw [copyItem]
      exact edit_onlyFiles _
    | link target => exact fun w hw => hw

lemma materialize_onlyFiles (source target : String) :
    Leaves (OnlyFiles start) (materialize source target) (OnlyFiles start) := by
  intro w hw
  have hget : (get : Action Workspace).run w = (.ok w, w) := rfl
  have hcopy := copyTree_onlyFiles source target w hw
  rw [materialize, run_bind, hget]
  simp only
  split
  · obtain ⟨files, rfl⟩ := hw
    exact ⟨_, rfl⟩
  · exact hcopy

lemma linkEntries_onlyFiles (dir : String) (taken : List String) (entries : List ClasspathEntry) :
    Leaves (OnlyFiles start) (linkEntries dir taken entries) (OnlyFiles start) :=
  linkEntries_leaves (P := fun _ => OnlyFiles start)
    (fun _ source _ _ _ => materialize_onlyFiles source _) (fun _ _ hw => hw) entries taken

lemma create_projects {engine engine' : Engine} {p : Project} (h : engine.create p = .ok engine') :
    engine' = { engine with projects := engine.projects ++ [p] } := by
  rw [Engine.create] at h
  split at h
  · cases h
  · split at h
    · cases h
    · split at h
      · cases h
      · exact (Except.ok.inj h).symm

/-- What building a project comes to: it is registered at the end, or only files have changed. -/
inductive Builds (w : Workspace) (project : String) :
    Except WorkspaceError BoundProject × Workspace → Prop
  | failed {e : WorkspaceError} {files : FileTree} :
      Builds w project (.error e, { w with files })
  | done {bound : BoundProject} {files : FileTree} {p : Project} : p.name = project →
      Builds w project (.ok bound,
        { w with files, engine := { w.engine with projects := w.engine.projects ++ [p] } })

lemma build_builds (project location : String) (entries : List ClasspathEntry) (w : Workspace) :
    Builds w project ((build project location entries).run w) := by
  -- every step before the last changes files only, and so does one that fails
  have hstep {α : Type} {x : Action α} {f : α → Action BoundProject} {w' : Workspace}
      (hw : OnlyFiles w w') (hx : Leaves (OnlyFiles w) x (OnlyFiles w))
      (hf : ∀ a w', OnlyFiles w w' → Builds w project ((f a).run w')) :
      Builds w project ((x >>= f).run w') := by
    have hafter := hx w' hw
    rw [run_bind]
    generalize x.run w' = result at hafter
    obtain ⟨e | a, w''⟩ := result
    · obtain ⟨files, rfl⟩ : ∃ files, w'' = { w with files } := hafter
      exact .failed
    · exact hf a w'' hafter
  rw [build]
  refine hstep ⟨_, rfl⟩ (edit_onlyFiles _) fun _ w₁ h₁ => hstep h₁ (edit_onlyFiles _)
    fun _ w₂ h₂ => hstep h₂ (linkEntries_onlyFiles _ _ _) fun plan w₃ h₃ => ?_
  obtain ⟨files, rfl⟩ := h₃
  have hget : (get : Action Workspace).run { w with files } =
      (.ok { w with files }, { w with files }) := rfl
  rw [run_bind, register, run_bind, hget]
  cases hc : w.engine.create ⟨project, location, Path.join location "bin", plan.2, none⟩ with
  | error e =>
    simp only [hc]
    exact .failed
  | ok engine =>
    obtain rfl := create_projects hc
    simp only [hc]
    exact .done rfl

/-- What putting a tree into the workspace does to all but its files. -/
theorem bind_builds (treeRoot : String) (entries : List ClasspathEntry) (w : Workspace) :
    (bind treeRoot entries).run w = (.error (.session (.tornDown w.session.path)), w) ∨
      Builds (w.unbind (projectName treeRoot)) (projectName treeRoot)
        ((bind treeRoot entries).run w) := by
  rw [run_bind_eq]
  split
  · exact .inl rfl
  · exact .inr (build_builds _ _ _ _)

/-- The place of the projects is free or a directory. -/
def Tidy (home : Location) (files : FileTree) : Prop :=
  files.entry? (home ++ ["projects"]) = none ∨ files.isDirAt (home ++ ["projects"]) = true

lemma Tidy.congr {files' : FileTree} (h : Tidy home files)
    (he : FileTree.entry? files' (home ++ ["projects"]) = files.entry? (home ++ ["projects"]) ∨
      files'.isDirAt (home ++ ["projects"]) = true) : Tidy home files' := by
  rcases he with he | he
  · rwa [Tidy, he, isDirAt_congr he]
  · exact .inr he

lemma Tidy.remove_project {session : Session} (h : Tidy home files)
    (hk : session.Kept before home files) (hp : IsName project) :
    Tidy home (files.removeTree (session.projectDir project)) :=
  h.congr (.inl ((Removed.entry? (hk.removed_project hp) _).trans (if_neg (by simp))))

/-- Once the directory of projects is there, it stays while a project is built. -/
lemma linkEntries_dirs {session : Session} (hs : session.tornDown = false) (hp : IsName project)
    (entries : List ClasspathEntry) (l : Location) :
    Leaves (fun w => Ready before home session project [] w ∧ w.files.isDirAt l = true)
      (linkEntries (Path.under session.path ["projects", project, "links"]) [] entries)
      fun w => w.files.isDirAt l = true :=
  linkEntries_leaves (P := fun taken w => Ready before home session project taken w ∧
      w.files.isDirAt l = true)
    (fun _ source _ hfresh hn _ hw =>
      (hw.1.materialize hs hp hfresh hn source).imp_right fun hdirs => hdirs l hw.2)
    (fun _ _ hw => hw.2) entries []

lemma register_files (p : Project) (w : Workspace) : ((register p).run w).2.files = w.files := by
  have hget : (get : Action Workspace).run w = (.ok w, w) := rfl
  rw [register, run_bind, hget]
  simp only
  split <;> rfl

/-- A directory stays while the rest of a project is built. -/
lemma rest_dirs {session : Session} (hs : session.tornDown = false) (hp : IsName project)
    (l : Location) (location : String) (entries : List ClasspathEntry) :
    Leaves (fun w => Ready before home session project [] w ∧ w.files.isDirAt l = true)
      (do
        edit (·.createDirAll (Path.under session.path ["projects", project, "bin"]))
        let plan ← linkEntries (Path.under session.path ["projects", project, "links"]) [] entries
        register ⟨project, location, Path.under session.path ["projects", project, "bin"], plan.2,
          none⟩
        return ⟨project, location, Path.under session.path ["projects", project, "bin"], plan.1,
          plan.2⟩ : Action BoundProject) fun w => w.files.isDirAt l = true := by
  have hbin : Leaves (fun w => Ready before home session project [] w ∧ w.files.isDirAt l = true)
      (edit (·.createDirAll (Path.under session.path ["projects", project, "bin"])))
      fun w => Ready before home session project [] w ∧ w.files.isDirAt l = true := by
    rintro w ⟨hw, hd⟩
    refine ⟨createDirs_ready hs hp (by decide) w hw, ?_⟩
    have hmakes := hw.kept.makes_dirs (hw.kept.isDirAt_home hs) hp (show IsName "bin" by decide)
    have hdirs := hmakes.fills.dirs l hd
    rw [run_edit]
    dsimp only
    rw [hdirs]
  refine hbin.bind (fun _ => ?_) fun _ hw => hw.2
  refine (linkEntries_dirs hs hp entries l).bind (fun plan => ?_) fun _ hw => hw
  intro w hd
  have hfiles := register_files ⟨project, location,
    Path.under session.path ["projects", project, "bin"], plan.2, none⟩ w
  rw [run_bind]
  generalize (register _).run w = result at hfiles
  have hd' : result.2.files.isDirAt l = true := hfiles ▸ hd
  obtain ⟨_ | _, w'⟩ := result <;> exact hd'

lemma build_tidy {session : Session} (hs : session.tornDown = false) (hp : IsName project)
    (entries : List ClasspathEntry) :
    Leaves (fun w => Ready before home session project [] w ∧ Tidy home w.files)
      (build project (session.projectDir project) entries) fun w => Tidy home w.files := by
  rintro w ⟨hready, ht⟩
  have hready₁ := createDirs_ready hs hp (show IsName "links" by decide) w hready
  obtain ⟨rfl, hk, hfree⟩ := hready
  have hlinks := hk.makes_dirs (hk.isDirAt_home hs) hp (show IsName "links" by decide)
  rw [build, run_bind, join_projectDir, join_projectDir]
  rcases hr : w.files.createDirAll (Path.under w.session.path ["projects", project, "links"]) with
    ⟨e | _, made⟩
  · have hnew := createDirAll_new hk.wellFormed
      (Path.under w.session.path ["projects", project, "links"]) (home ++ ["projects"])
    rw [hr] at hnew
    have hrun : (edit (·.createDirAll (Path.under w.session.path ["projects", project, "links"]))).run
        w = (.error (.io e), { w with files := made }) := run_edit_error hr
    rw [hrun]
    exact ht.congr hnew
  · rw [hr] at hlinks
    have hrun : (edit (·.createDirAll (Path.under w.session.path ["projects", project, "links"]))).run
        w = (.ok (), { w with files := made }) := run_edit_ok hr
    rw [hrun] at hready₁ ⊢
    dsimp only at hready₁ ⊢
    have hdir : made.isDirAt (home ++ ["projects"]) = true :=
      hlinks.fills.wellFormed.isDirAt_of_append (List.cons_ne_nil project ["links"])
        (by simpa using isDirAt_iff.mp (hlinks.isDirAt rfl))
    have hrest := rest_dirs hs hp (home ++ ["projects"]) (w.session.projectDir project) entries
      { w with files := made } ⟨hready₁, hdir⟩
    refine .inr ?_
    rw [hrest]

/-- The place of the projects stays free or a directory, however far a tree gets. -/
lemma bind_tidy (hk : w.session.Kept before home w.files) (ht : Tidy home w.files)
    (treeRoot : String) (entries : List ClasspathEntry) :
    Tidy home ((bind treeRoot entries).run w).2.files := by
  rw [run_bind_eq]
  split
  · exact ht
  · next hs =>
    have hp := (isPlain_projectName treeRoot).isName
    refine build_tidy (by simpa using hs) hp entries _
      ⟨⟨rfl, hk.remove_project hp, fun name _ => ?_⟩, ht.remove_project hk hp⟩
    exact (Removed.entry? (hk.removed_project hp) _).trans (if_pos (by simp))

end Workspace

end JavaAtlas
