import JavaAtlas.Proofs.AssembledEntries
import JavaAtlas.Proofs.ServiceLifecycle
import JavaAtlas.Proofs.SharedSources

/-! The answers of a service over a whole run: when there are none, which load they come from, what a
load that fails means for them, and what is in the register. -/

namespace JavaAtlas

open Text FileTree

namespace Classpath

variable {fs files : FileTree} {path : String}

/-- Names that lead on from the directory of a tree: no name that may stand in a path alone. -/
def LeadsOn (name : String) : Prop := ∀ n ∈ pieces '/' name, IsName n

instance (name : String) : Decidable (LeadsOn name) :=
  inferInstanceAs (Decidable (∀ n ∈ pieces '/' name, IsName n))

/-- The class path of a tree that Maven does not build depends on what is found by fixed names
below its root. -/
lemma assemble_congr (asm : Assembler)
    (hstatus : ∀ name, LeadsOn name →
      files.status (Path.join path name) = fs.status (Path.join path name))
    (hkind : Build.detect fs path ≠ .maven) :
    (asm.assemble files path).1 = (asm.assemble fs path).1 := by
  have hfile (name : String) (hn : LeadsOn name) :
      files.isFile (Path.join path name) = fs.isFile (Path.join path name) := by
    rw [isFile, isFile, hstatus name hn]
  have hdetect : Build.detect files path = Build.detect fs path := by
    have hmarker := hfile Build.mavenMarker (by decide +kernel)
    have hgradle := hfile "build.gradle" (by decide +kernel)
    have hkotlin := hfile "build.gradle.kts" (by decide +kernel)
    simp only [Build.detect, Build.gradleMarkers, List.any_cons, List.any_nil, hmarker, hgradle,
      hkotlin]
    rfl
  have hmodules (tree : FileTree) (h : Build.detect tree path ≠ .maven) :
      Build.modules tree path = [""] := by
    rw [Build.modules, if_neg (by simpa using h)]
  have hdirs (names : List String) (hn : ∀ name ∈ names, LeadsOn name) :
      existingDirs files path names = existingDirs fs path names := by
    rw [existingDirs, existingDirs, List.filter_map, List.filter_map]
    congr 1
    refine List.filter_congr fun name hm => ?_
    rw [Function.comp_apply, Function.comp_apply, isDir, isDir, hstatus name (hn name hm)]
  have hdir : moduleDir path "" = path := rfl
  have hlayouts : layouts.map (existingDirs files path) = layouts.map (existingDirs fs path) := by
    have hall : ∀ names ∈ layouts, ∀ name ∈ names, LeadsOn name := by decide +kernel
    exact List.map_congr_left fun names hm => hdirs names (hall names hm)
  have houtput : existingDirs files path (outputDirs (Build.detect fs path)) =
      existingDirs fs path (outputDirs (Build.detect fs path)) := by
    have hall : ∀ kind, ∀ name ∈ outputDirs kind, LeadsOn name := by
      intro kind
      cases kind <;> decide +kernel
    exact hdirs _ (hall _)
  have hroots : sourceRoots files path = sourceRoots fs path := by
    simp only [sourceRoots, moduleSourceRoots, hdir, hmodules files (hdetect ▸ hkind),
      hmodules fs hkind, List.flatMap_singleton, hlayouts]
  have hexists : ∀ p ∈ existingDirs fs path (outputDirs .gradle), files.pathExists p = fs.pathExists p := by
    intro p hp
    obtain ⟨name, hm, rfl⟩ := List.mem_map.mp (List.mem_filter.mp hp).1
    have hall : ∀ name ∈ outputDirs .gradle, LeadsOn name := by decide +kernel
    rw [pathExists, pathExists, hstatus name (hall name hm)]
  rw [Assembler.assemble, Assembler.assemble, hdetect, hroots, hmodules files (hdetect ▸ hkind),
    hmodules fs hkind]
  cases hk : Build.detect fs path with
  | maven => exact absurd hk hkind
  | gradle =>
    rw [hk] at houtput
    simp only [Assembler.dependencies, compiledDirs, hmodules files (hdetect ▸ hkind),
      hmodules fs hkind, List.flatMap_singleton, hdir, houtput,
      List.filter_congr hexists]
  | unknown =>
    rw [hk] at houtput
    simp only [Assembler.dependencies, List.flatMap_singleton, hdir, houtput,
      List.filter_nil]

/-- The source directories of a tree that Maven does not build have fixed names. -/
lemma source_of_mem_assemble (asm : Assembler) (hkind : Build.detect fs path ≠ .maven)
    {root : SourceRoot} (h : .source root ∈ (asm.assemble fs path).1.entries) :
    ∃ name, LeadsOn name ∧ root.path = Path.join path name := by
  have hmodules : Build.modules fs path = [""] := by
    rw [Build.modules, if_neg (by simpa using hkind)]
  have hmem : root ∈ sourceRoots fs path := by
    have h := (ClasspathEntry.firsts_sublist _).subset (assemble_firsts asm fs path ▸ h)
    simpa using h
  rw [sourceRoots, hmodules, List.flatMap_singleton] at hmem
  obtain ⟨p, hp, rfl⟩ := List.mem_map.mp hmem
  cases hfound : (layouts.map (existingDirs fs (moduleDir path ""))).find? (!·.isEmpty) with
  | none => simp [hfound] at hp
  | some dirs =>
    rw [hfound, Option.getD_some] at hp
    obtain ⟨names, hn, rfl⟩ := List.mem_map.mp (List.mem_of_find?_eq_some hfound)
    obtain ⟨name, hm, rfl⟩ := List.mem_map.mp (List.mem_filter.mp hp).1
    have hall : ∀ names ∈ layouts, ∀ name ∈ names, LeadsOn name := by decide +kernel
    exact ⟨name, hall names hn name hm, rfl⟩

end Classpath

namespace FileTree.Straight

variable {fs : FileTree} {home top : Location} {path : String}

lemma clear_join (h : fs.Straight home path top) (hw : fs.WellFormed) {name : String}
    (hn : Classpath.LeadsOn name) : fs.Clear home
      {l | ∃ p ∈ ({path} : Set String), ∃ top, fs.Straight home p top ∧ top <+: l}
      (Path.join path name) := by
  have hne : pieces '/' name ≠ [] := by
    simpa [pieces] using splitChars_ne_nil '/' name.toList
  have hjoin := joinWith_pieces name
  have hok : ∀ n ∈ pieces '/' name, n ≠ "" ∧ '/' ∉ n.toList :=
    fun n hm => ⟨(hn n hm).ne_empty, (hn n hm).no_slash⟩
  have habs : Path.isAbsolute name = false := hjoin ▸ Path.isAbsolute_joinWith hn
  have hnames : Path.names name = pieces '/' name := by
    have hnames := Path.names_joinWith hok
    rwa [hjoin] at hnames
  have hempty : name ≠ "" := by
    rintro rfl
    exact (hok "" (by decide)).1 rfl
  have hlast : (Path.join path name).toList.getLast? ≠ some '/' := by
    rw [Path.getLast?_join hempty, ← hjoin]
    exact Path.getLast?_joinWith hne hok
  have hsecluded := secluded fs home {path}
  have htop : top ∈ {l | ∃ p ∈ ({path} : Set String), ∃ top, fs.Straight home p top ∧ top <+: l} :=
    ⟨path, rfl, top, h, List.prefix_rfl⟩
  refine ⟨by rw [Path.isAbsolute_join habs, h.absolute], ?_⟩
  rw [namesOf_eq hlast, Path.names_join habs, hnames]
  obtain ⟨r, hr⟩ := (h.leads_names 40).follows.append fun l hl c hc => by
    obtain rfl := Walk.arrived.inj hl
    exact hsecluded.follows htop hc hn
  refine ⟨r, hr, fun l hl => ?_⟩
  have hlands : fs.Lands (top ++ pieces '/' name) (fs.follow false 40 top (pieces '/' name)) :=
    follow_lands hw hne hn fun xs ys t _ _ _ => h.plain xs t
  rw [← (h.leads_names 40).follow_append false hne, hr.eq_follow, hl] at hlands
  cases hlands with
  | arrived => exact ⟨path, rfl, top, h, List.prefix_append _ _⟩

/-- A tree without links that lies apart from `home` and is not built by Maven is loaded without
looking there. -/
lemma keepsOut (h : fs.Straight home path top) (hw : fs.WellFormed) (asm : Classpath.Assembler)
    (hpath : fs.normalize path = path) (hkind : Build.detect fs path ≠ .maven) :
    Service.KeepsOut fs home asm path := by
  have hsecluded := secluded fs home {path}
  have hclear : fs.Clear home _ path := clear (Set.mem_singleton path) h
  refine ⟨fun files _ hsame => hclear.status_congr hsecluded hsame, fun files _ hsame => ?_,
    fun files _ hsame => ?_, _, hsecluded, fun root hr => ?_⟩
  · unfold normalize
    simp only [if_pos h.absolute, canonicalize, (hclear.locate_congr hsame).1]
  · rw [hpath]
    exact Classpath.assemble_congr asm
      (fun name hn => (h.clear_join hw hn).status_congr hsecluded hsame) hkind
  · rw [hpath] at hr
    obtain ⟨name, hn, hp⟩ := Classpath.source_of_mem_assemble asm hkind hr
    exact hp ▸ h.clear_join hw hn

end FileTree.Straight

namespace Service

variable {before : FileTree} {home : Location} {s t : Service} {path : String} {now : Nat}
variable {calls : List Call}

lemma Alike.symm (h : s.Alike t) : t.Alike s := ⟨h.assembler.symm, h.absolute.symm, h.session.symm⟩

lemma Alike.trans {u : Service} (h : s.Alike t) (h' : t.Alike u) : s.Alike u :=
  ⟨h'.assembler.trans h.assembler, h'.absolute.trans h.absolute, h'.session.trans h.session⟩

/-- A load changes neither the settings nor the session. -/
lemma alike_load (hs : s.Kept before home)
    (hfree : ∀ dir, before.entry? (dir ++ [Classpath.dumpName]) = none) (path : String) (now : Nat) :
    s.Alike (s.load path now).2 := by
  have hsession := (load_kept hs hfree path now).2
  have hloads := s.loads path now
  generalize s.load path now = result at hsession hloads
  cases hloads with
  | refused => exact ⟨rfl, rfl, rfl⟩
  | unbound => exact ⟨rfl, rfl, hsession⟩
  | loaded =>
    refine ⟨?_, ?_, hsession⟩
    · rw [replaceCurrent]
      rfl
    · rw [replaceCurrent]

lemma Alike.shutdown (h : s.Alike t) : s.shutdown.Alike t.shutdown := by
  have hsession (u : Service) : u.shutdown.workspace.session =
      if u.workspace.session.tornDown then u.workspace.session
      else { u.workspace.session with tornDown := true } := by
    have hteardown (w : Workspace) : w.teardown.session =
        if w.session.tornDown then w.session else { w.session with tornDown := true } := by
      simp only [Workspace.teardown, Session.teardown]
      split <;> rfl
    rw [Service.shutdown]
    cases u.current with
    | none => exact hteardown _
    | some project => exact hteardown _
  refine ⟨h.assembler, h.absolute, ?_⟩
  rw [hsession, hsession, h.session]

/-- Services that differ in nothing but what their projects have left load the same. -/
lemma load_current_agree (hs : s.Sound before home) (ht : t.Sound before home) (hst : s.Alike t)
    (hc : t.current = s.current)
    (hfree : ∀ dir, before.entry? (dir ++ [Classpath.dumpName]) = none)
    (hout : KeepsOut before home s.assembler path) (now : Nat) :
    (t.load path now).2.current = (s.load path now).2.current := by
  cases hok : (s.load path now).1.isOk with
  | true =>
    obtain ⟨summary, s', hload⟩ := isOk_load_iff.mp hok
    obtain ⟨t', hload', heq⟩ := load_agree hs ht hst hfree hout hload
    rw [hload, hload', heq]
  | false =>
    have hfail : (t.load path now).1.isOk = false := by
      by_contra hok'
      obtain ⟨summary, t', hload⟩ := isOk_load_iff.mp (by simpa using hok')
      obtain ⟨s', hload', -⟩ := load_agree ht hs hst.symm hfree (hst.assembler ▸ hout) hload
      rw [isOk_load_iff.mpr ⟨summary, s', hload'⟩] at hok
      cases hok
    rw [(s.load_current path now).2 hok, (t.load_current path now).2 hfail, hc]

/-- They stay so over a run whose loads do not look into the directory of the session. -/
lemma afterAll_agree (hs : s.Sound before home) (ht : t.Sound before home) (hst : s.Alike t)
    (hc : t.current = s.current)
    (hfree : ∀ dir, before.entry? (dir ++ [Classpath.dumpName]) = none)
    (hout : ∀ path now, .load path now ∈ calls → KeepsOut before home s.assembler path) :
    (s.afterAll calls).Alike (t.afterAll calls) ∧
      (t.afterAll calls).current = (s.afterAll calls).current := by
  induction calls generalizing s t with
  | nil => exact ⟨hst, hc⟩
  | cons call rest ih =>
    have hrest {u : Service} (hu : u.assembler = s.assembler) (path : String) (now : Nat)
        (hm : .load path now ∈ rest) : KeepsOut before home u.assembler path :=
      hu ▸ hout path now (List.mem_cons_of_mem _ hm)
    cases call with
    | ask question => exact ih hs ht hst hc (hrest rfl)
    | shutdown => exact ih hs.shutdown.1 ht.shutdown.1 hst.shutdown rfl (hrest rfl)
    | load path now =>
      have hload := alike_load hs.kept hfree path now
      have hload' := alike_load ht.kept hfree path now
      exact ih (hs.load hfree path now) (ht.load hfree path now)
        (hload.symm.trans (hst.trans hload'))
        (load_current_agree hs ht hst hc hfree (hout path now List.mem_cons_self) now)
        (hrest hload.assembler)

lemma answer_agree {question : Question} (hs : s.Sound before home) (ht : t.Sound before home)
    (hst : s.Alike t) (hc : t.current = s.current) (hask : AsksOutside before home s question) :
    t.answer question = s.answer question := by
  refine answer_congr hc hst.session fun path hp project hproject => ?_
  have hblind := hask path hp project hproject
  exact (hblind _ ht.kept.session.wellFormed ht.kept.session.same).trans
    (hblind _ hs.kept.session.wellFormed hs.kept.session.same).symm

/-- Until the session ends, a run changes neither the settings nor the session. -/
lemma alike_afterAll (hs : s.Sound before home)
    (hfree : ∀ dir, before.entry? (dir ++ [Classpath.dumpName]) = none) (hend : .shutdown ∉ calls) :
    s.Alike (s.afterAll calls) := by
  induction calls generalizing s with
  | nil => exact ⟨rfl, rfl, rfl⟩
  | cons call rest ih =>
    obtain ⟨hne, hrest⟩ : .shutdown ≠ call ∧ .shutdown ∉ rest := by simpa using hend
    cases call with
    | ask question => exact ih hs hrest
    | shutdown => exact absurd rfl hne
    | load path now =>
      exact (alike_load hs.kept hfree path now).trans (ih (hs.load hfree path now) hrest)

lemma assembler_afterAll (hs : s.Sound before home)
    (hfree : ∀ dir, before.entry? (dir ++ [Classpath.dumpName]) = none) (calls : List Call) :
    (s.afterAll calls).assembler = s.assembler := by
  induction calls generalizing s with
  | nil => rfl
  | cons call rest ih =>
    refine (ih (hs.after hfree call)).trans ?_
    cases call with
    | ask | shutdown => rfl
    | load path now => exact (alike_load hs.kept hfree path now).assembler

/-- What a service answers is what it would answer after the last load that succeeded alone. -/
lemma answer_of_last_load (hs : s.Sound before home)
    (hfree : ∀ dir, before.entry? (dir ++ [Classpath.dumpName]) = none)
    (hlast : (s.successes calls).getLast? = some (path, now)) (hend : .shutdown ∉ calls)
    (hout : KeepsOut before home s.assembler path) :
    (s.load path now).1.isOk = true ∧ ∀ question, AsksOutside before home (s.afterAll calls) question →
      (s.afterAll calls).answer question = (s.load path now).2.answer question := by
  have halike := alike_afterAll hs hfree hend
  have hsound := hs.afterAll hfree calls
  obtain ⟨xs, ys, rfl, hok, hquiet⟩ := exists_last_success hlast
  obtain ⟨hxs, hys⟩ : .shutdown ∉ xs ∧ .shutdown ∉ ys := by simpa using hend
  have hmid := hs.afterAll hfree xs
  have halikemid := alike_afterAll hs hfree hxs
  obtain ⟨summary, s', hload⟩ := isOk_load_iff.mp hok
  obtain ⟨t', hload', hcurrent⟩ := load_agree hmid hs halikemid.symm hfree
    (halikemid.assembler ▸ hout) hload
  have hrest : (s.afterAll (xs ++ .load path now :: ys)).current =
      ((s.afterAll xs).load path now).2.current := by
    rw [afterAll_append]
    exact afterAll_quiet (hmid.load hfree path now) hfree hquiet hys
  refine ⟨isOk_load_iff.mpr ⟨summary, t', hload'⟩, fun question hask => ?_⟩
  refine (answer_agree hsound (hs.load hfree path now)
    (halike.symm.trans (alike_load hs.kept hfree path now)) ?_ hask).symm
  rw [hrest, hload, hload', hcurrent]

/-- A load that fails changes no answer, whatever comes after it. -/
lemma answer_of_failed_load (hs : s.Sound before home)
    (hfree : ∀ dir, before.entry? (dir ++ [Classpath.dumpName]) = none)
    (hfail : (s.load path now).1.isOk = false)
    (hout : ∀ path now, .load path now ∈ calls → KeepsOut before home s.assembler path)
    {question : Question} (hask : AsksOutside before home (s.afterAll calls) question) :
    (s.afterAll (.load path now :: calls)).answer question = (s.afterAll calls).answer question := by
  have hload := hs.load hfree path now
  obtain ⟨halike, hcurrent⟩ := afterAll_agree hs hload (alike_load hs.kept hfree path now)
    ((s.load_current path now).2 hfail) hfree hout
  exact answer_agree (hs.afterAll hfree calls) (hload.afterAll hfree calls) halike hcurrent hask

lemma load_of_tornDown (ht : s.workspace.session.tornDown = true)
    (hd : s.workspace.files.isDir path = true) (now : Nat) :
    s.load path now = (.error (.internal "session workspace already torn down"), s) := by
  rw [load, checkLoad_of_isDir hd, if_pos ht]

/-- After a load that succeeds, the register holds the project that is loaded and no other. -/
lemma names_of_load (hs : s.Sound before home) (hok : (s.load path now).1.isOk = true) :
    ∃ project, (s.load path now).2.current = some project ∧
      (s.load path now).2.workspace.engine.names = [project.bound.name] := by
  have hregistered := load_registered hs path now
  obtain ⟨-, hsome⟩ := (s.load_current path now).1 hok
  obtain ⟨summary, s', hload⟩ := isOk_load_iff.mp hok
  rw [hload] at hregistered hsome ⊢
  obtain ⟨project, hproject⟩ := Option.isSome_iff_exists.mp hsome
  refine ⟨project, hproject, ?_⟩
  rw [hregistered, hproject]
  rfl

end Service

/-- A run of a service from the start of its session. Without a load that has succeeded, and after a
shutdown, every question is answered by `notLoaded`, and no other ever is. In between, the answers
are those after the last load that succeeded alone, if that load does not look into the directory of
the session; a load that failed can be left out of the run. After a shutdown the directory stays
away and no directory can be loaded. The register holds the loaded project after each load that
succeeds, and nothing after a shutdown. -/
theorem Service.answers_follow_last_load {initial files : FileTree} {base : String}
    {draws : List String} {session : Session} {home : Location} (hw : initial.WellFormed)
    (hd : ∀ token ∈ draws, Session.isToken token = true)
    (hc : Session.create initial base draws = .ok (session, files))
    (hhome : files.locate session.path = .ok home) (config : ServiceConfig)
    (container : RuntimeContainer) {launch : Launcher} (htools : Classpath.WritesListOnly launch)
    (hname : ∀ e ∈ files.entries, e.1.getLast? ≠ some Classpath.dumpName) {start s : Service}
    (hstart : start = .ofSession config launch container files session) {calls : List Call}
    (hs : s = start.afterAll calls) :
    (∀ question, s.answer question = .error .notLoaded ↔
      .shutdown ∈ calls ∨ start.successes calls = []) ∧
    (∀ path now, (start.successes calls).getLast? = some (path, now) → .shutdown ∉ calls →
      KeepsOut files home start.assembler path → (start.load path now).1.isOk = true ∧
        ∀ question, AsksOutside files home s question →
          s.answer question = (start.load path now).2.answer question) ∧
    (∀ path now more, (s.load path now).1.isOk = false →
      (∀ path now, .load path now ∈ more → KeepsOut files home start.assembler path) →
      ∀ question, AsksOutside files home (s.afterAll more) question →
        (s.afterAll (.load path now :: more)).answer question = (s.afterAll more).answer question) ∧
    (.shutdown ∈ calls → s.workspace.files.pathExists session.path = false ∧
      ∀ path now, s.workspace.files.isDir path = true →
        ∃ message, (s.load path now).1 = .error (.internal message)) ∧
    (∀ path now, (s.load path now).1.isOk = true →
      ∃ project, (s.load path now).2.current = some project ∧
        (s.load path now).2.workspace.engine.names = [project.bound.name]) ∧
    s.shutdown.workspace.engine.names = [] := by
  obtain ⟨-, htorn, home', -, hk, hempty⟩ := Session.create_fresh hw hd hc
  obtain rfl : home' = home := Except.ok.inj ((hk.locate_path htorn).symm.trans hhome)
  have hfree (dir : Location) : files.entry? (dir ++ [Classpath.dumpName]) = none := by
    cases he : files.entry? (dir ++ [Classpath.dumpName]) with
    | none => rfl
    | some e => exact absurd (by simp) (hname _ (mem_entries (by simp) he))
  have hfirst : start.Sound files home' := hstart ▸ .start hk hempty config htools container
  have hsound : s.Sound files home' := hs ▸ hfirst.afterAll hfree calls
  have hnone : start.current = none := by rw [hstart]; rfl
  have hstanding : start.workspace.session = session := by rw [hstart]; rfl
  have hassembler : s.assembler = start.assembler := hs ▸ assembler_afterAll hfirst hfree calls
  obtain ⟨-, hpath, hended⟩ := afterAll_kept hfirst.kept hfree calls
  refine ⟨fun question => ?_, fun path now hlast hend hout => ?_,
    fun path now more hfail hout question hask => ?_, fun hend => ?_,
    fun path now hok => names_of_load hsound hok, hsound.shutdown.2⟩
  · rw [answer_notLoaded_iff, hs, current_eq_none_iff hfirst hfree, hnone, hstanding, htorn]
    simp
  · subst hs
    exact answer_of_last_load hfirst hfree hlast hend hout
  · exact answer_of_failed_load hsound hfree hfail (hassembler ▸ hout) hask
  · rw [← hs] at hpath hended
    have ht := hended (.inr hend)
    rw [← hstanding, ← hpath]
    refine ⟨(hsound.kept.session.gone ht).2, fun path now hdir => ?_⟩
    exact ⟨_, congrArg Prod.fst (load_of_tornDown ht hdir now)⟩

/-- Two trees. The source directory of the second leads to the links of the first, once that one is
loaded. -/
def watchingTree : FileTree where
  entries := [(["t"], .dir), (["t", "src"], .dir),
    (["t", "src", "A.java"], .file [] false), (["u"], .dir),
    (["u", "src"], .link "/0123abcd/projects/t/links")]
  cwd := []

def watchingService : Service :=
  .ofSession .initial listingTool .unresolved (watchingTree.insert ["0123abcd"] .dir)
    ⟨"0123abcd", "/0123abcd", false⟩

lemma watchingTree_keepsOut : Service.KeepsOut (watchingTree.insert ["0123abcd"] .dir)
    ["0123abcd"] watchingService.assembler "/t" := by
  have hstraight : (watchingTree.insert ["0123abcd"] .dir).Straight ["0123abcd"] "/t"
      ["t"] := by
    refine ⟨by decide, ?_, fun rest t he => ?_, by decide⟩
    · rw [show namesOf "/t" = ["t"] by decide]
      have hroot : ¬ ["0123abcd"] <+: ([] : Location) := by decide
      have hend : ¬ ["0123abcd"] <+: ["t"] := by decide
      have hstep : IsStep "t" := ⟨by decide, by decide, by decide⟩
      exact .enter hroot (by decide) hstep (show _ = some FileEntry.dir by decide) nofun (.here hend)
    · have hm := mem_entries (by simp) he
      simp [watchingTree, FileTree.insert] at hm
  exact hstraight.keepsOut (by decide +kernel) _ (by decide +kernel) (by decide +kernel)

lemma watchingTree_create : Session.create watchingTree "/" ["0123abcd"] =
    .ok (⟨"0123abcd", "/0123abcd", false⟩, watchingTree.insert ["0123abcd"] .dir) := by
  decide +kernel

theorem Service.answers_follow_last_load_watchingTree :
    (∀ question, watchingService.answer question = .error .notLoaded) ∧
    ∀ question : Question, question.path? = none →
      (watchingService.afterAll [.load "/x" 1, .load "/t" 2, .load "/x" 3]).answer question =
        (watchingService.load "/t" 2).2.answer question := by
  have hlast : watchingService.successes [.load "/x" 1, .load "/t" 2, .load "/x" 3] =
      [("/t", 2)] := by decide +kernel
  have hhome : (watchingTree.insert ["0123abcd"] .dir).locate "/0123abcd" =
      .ok ["0123abcd"] := by decide +kernel
  have hstart : watchingService = .ofSession .initial listingTool .unresolved
    (watchingTree.insert ["0123abcd"] .dir) ⟨"0123abcd", "/0123abcd", false⟩ := rfl
  have hrun (calls : List Call) := Service.answers_follow_last_load (by decide +kernel)
    (by decide +kernel) watchingTree_create hhome .initial .unresolved listingTool_writesListOnly
    (by decide +kernel) hstart (Eq.refl (watchingService.afterAll calls))
  refine ⟨fun question => ((hrun []).1 question).mpr (.inr rfl), fun question hq => ?_⟩
  obtain ⟨-, hanswers, -⟩ := hrun [.load "/x" 1, .load "/t" 2, .load "/x" 3]
  refine (hanswers "/t" 2 (by rw [hlast]; rfl) (by simp) watchingTree_keepsOut).2 question ?_
  intro path hp
  rw [hq] at hp
  cases hp

/-- The number of source files that a status tells. -/
def Answer.sourceFileCount? : Answer → Option Nat
  | .status told => some told.sourceFileCount
  | _ => none

lemma Answer.ne_of_sourceFileCount? {x y : Except ServiceError Answer} {m n : Nat}
    (hx : x.toOption.bind sourceFileCount? = some m) (hy : y.toOption.bind sourceFileCount? = some n)
    (hne : m ≠ n) : x ≠ y := by
  rintro rfl
  exact hne (Option.some.inj (hx.symm.trans hy))

lemma watchingService_both : ∃ first second s s', watchingService.load "/t" 1 = (.ok first, s) ∧
    s.load "/u" 2 = (.ok second, s') ∧
    (s'.answer .status).toOption.bind Answer.sourceFileCount? = some 1 := by
  have hboth : (match watchingService.load "/t" 1 with
    | (first, s) => first.isOk && match s.load "/u" 2 with
      | (second, s') => second.isOk &&
        ((s'.answer .status).toOption.bind Answer.sourceFileCount? == some 1)) = true := by
    decide +kernel
  generalize watchingService.load "/t" 1 = result at hboth
  obtain ⟨_ | first, s⟩ := result
  · cases hboth
  · dsimp only at hboth
    rcases hload : s.load "/u" 2 with ⟨_ | second, s'⟩
    · rw [hload] at hboth
      cases hboth
    · rw [hload] at hboth
      exact ⟨first, second, s, s', rfl, hload, by simpa [Except.isOk, Except.toBool] using hboth⟩

lemma watchingService_alone : ((watchingService.load "/u" 2).2.answer .status).toOption.bind
    Answer.sourceFileCount? = some 0 := by decide +kernel

lemma Service.run_pair {s s' s'' : Service} {p q : String} {m n : Nat} {first second : ProjectSummary}
    (h : s.load p m = (.ok first, s')) (h' : s'.load q n = (.ok second, s'')) :
    s.successes [.load p m, .load q n] = [(p, m), (q, n)] ∧
      s.afterAll [.load p m, .load q n] = s'' := by
  simp [successes, success?, afterAll, after, h, h', Except.isOk, Except.toBool]

/-- A tree that looks into the directory of its session shows what was loaded before it. -/
theorem Service.answers_show_earlier_load :
    Session.create watchingTree "/" ["0123abcd"] =
      .ok (⟨"0123abcd", "/0123abcd", false⟩, watchingTree.insert ["0123abcd"] .dir) ∧
    watchingService.successes [.load "/t" 1, .load "/u" 2] = [("/t", 1), ("/u", 2)] ∧
    (watchingService.afterAll [.load "/t" 1, .load "/u" 2]).answer .status ≠
      (watchingService.load "/u" 2).2.answer .status := by
  obtain ⟨first, second, s, s', hfirst, hsecond, hcount⟩ := watchingService_both
  obtain ⟨hsuccesses, hafter⟩ := run_pair hfirst hsecond
  refine ⟨watchingTree_create, hsuccesses, ?_⟩
  rw [hafter]
  exact Answer.ne_of_sourceFileCount? hcount watchingService_alone (by decide)

end JavaAtlas
