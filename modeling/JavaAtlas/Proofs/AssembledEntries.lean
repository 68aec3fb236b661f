import JavaAtlas.Proofs.Repetitions
import JavaAtlas.Proofs.SourceTreeSafety
import Mathlib.Data.List.Pairwise

/-! What a class path consists of and in which order, and what is lost of it when the build tool fails:
the platform, the source directories and then the libraries, each entry once; a failure takes
libraries away and nothing else. -/

namespace JavaAtlas.ClasspathEntry

lemma same_refl (e : ClasspathEntry) : e.same e = true := by
  cases e <;> simp [same, Path.same]

/-- The entries in their order, of those that are the same the first. -/
def firsts (entries : List ClasspathEntry) : List ClasspathEntry :=
  entries.eraseDupsBy fun e first => first.same e

lemma firsts_cons (e : ClasspathEntry) (entries : List ClasspathEntry) :
    firsts (e :: entries) = e :: firsts (entries.filter fun e' => e.same e' = false) :=
  firstsBy_cons e entries

/-- Inserting entries one after the other keeps the first of those that are the same. -/
lemma foldl_insert (entries found : List ClasspathEntry) :
    entries.foldl insert found =
      found ++ firsts (entries.filter fun e => found.any (·.same e) = false) := by
  induction entries generalizing found with
  | nil => simp [firsts]
  | cons e entries ih =>
    rw [List.foldl_cons, ih, insert]
    by_cases he : found.any (·.same e) = true
    · rw [if_pos he, List.filter_cons_of_neg (by simp [he])]
    · have hfilter : (entries.filter fun e' => found.any (·.same e') = false).filter
          (fun e' => e.same e' = false) =
            entries.filter fun e' => (found ++ [e]).any (·.same e') = false := by
        rw [List.filter_filter]
        congr 1
        funext e'
        simp [Bool.and_comm]
      rw [if_neg he, List.filter_cons_of_pos (by simpa using he), firsts_cons, hfilter]
      simp

lemma foldl_insert_nil (entries : List ClasspathEntry) :
    entries.foldl insert [] = firsts entries := by
  rw [foldl_insert]
  simp

lemma firsts_sublist (entries : List ClasspathEntry) : (firsts entries).Sublist entries :=
  firstsBy_sublist entries

lemma firsts_pairwise (entries : List ClasspathEntry) :
    (firsts entries).Pairwise fun e e' => e.same e' = false :=
  firstsBy_pairwise entries

lemma exists_mem_firsts {e : ClasspathEntry} {entries : List ClasspathEntry} (h : e ∈ entries) :
    ∃ first ∈ firsts entries, first.same e = true :=
  exists_mem_firstsBy same_refl h

/-- Where no entry of one list is the same as one of another, the lists do not interfere. -/
lemma firsts_append {entries entries' : List ClasspathEntry}
    (h : ∀ e ∈ entries, ∀ e' ∈ entries', e.same e' = false) :
    firsts (entries ++ entries') = firsts entries ++ firsts entries' := by
  have hkeep : newTo same (firsts entries) entries' = entries' := by
    refine List.filter_eq_self.mpr fun e' he' => ?_
    simp only [decide_eq_true_eq, List.any_eq_false, Bool.not_eq_true]
    exact fun e he => h e ((firsts_sublist entries).subset he) e' he'
  exact (firstsBy_append entries entries').trans
    (congrArg (fun new => firsts entries ++ firsts new) hkeep)

end JavaAtlas.ClasspathEntry

namespace JavaAtlas

open FileTree

lemma FileTree.status_of_entries {fs fs' : FileTree} (hcwd : fs'.cwd = fs.cwd)
    (h : ∀ l, fs'.entry? l = fs.entry? l) (path : String) : fs'.status path = fs.status path := by
  have hreach : fs'.reach false path = fs.reach false path := by
    by_cases hp : path = ""
    · simp [reach, hp]
    · rw [reach_eq hp, reach_eq hp, startOf, startOf, hcwd]
      exact ((fs.follows_follow ..).congr fun l _ => h l).eq_follow
  rw [status, status, locate, locate, hreach]
  cases fs.reach false path with
  | arrived loc => simp only [bind, Except.bind, h loc]
  | missing | linked | failed => rfl

namespace Classpath

variable (asm : Assembler) (fs : FileTree) (path : String)

/-- The build tool ended well and left a list with the given text. -/
def Assembler.Lists (text : String) : Prop :=
  ∃ started execution, fs.write dumpPath [] = .ok started ∧
    asm.launch started asm.timeoutMs (asm.listCommand fs path) = .ok execution ∧
    asm.cancelled = false ∧ execution.finish = .exited 0 ∧
    execution.files.readText dumpPath = .ok text

/-- The libraries that a tree is found to depend on, and whether finding them failed. -/
inductive Resolves : BuildSystem → List String → Bool → Prop
  | listed {text : String} : asm.Lists fs path text → Resolves .maven (parseDump text) false
  | failed : (∀ text, ¬asm.Lists fs path text) → Resolves .maven [] true
  | compiled : Resolves .gradle (compiledDirs fs path .gradle) false
  | nothing : Resolves .unknown [] false

/-- Where compiled classes of the modules lie once the build tool has run. -/
def compiledAfter (after : FileTree) : List String :=
  (Build.modules fs path).flatMap fun module =>
    existingDirs after (moduleDir path module) (outputDirs (Build.detect fs path))

variable {asm fs path}

lemma mavenDependencies_resolves : Resolves asm fs path .maven
    (asm.mavenDependencies fs path).1.libraries (asm.mavenDependencies fs path).1.degraded := by
  rw [Assembler.mavenDependencies]
  cases hw : fs.write dumpPath [] with
  | error e =>
    refine .failed ?_
    rintro text ⟨started, -, hs, -⟩
    cases hw.symm.trans hs
  | ok started =>
    dsimp only
    rw [Command.run]
    cases hl : asm.launch started asm.timeoutMs (asm.listCommand fs path) with
    | error e =>
      refine .failed ?_
      rintro text ⟨_, execution, hs, hrun, -⟩
      obtain rfl := Except.ok.inj (hw.symm.trans hs)
      cases hl.symm.trans hrun
    | ok execution =>
      have hunless (h : ∀ text, ¬(asm.cancelled = false ∧ execution.finish = .exited 0 ∧
          execution.files.readText dumpPath = .ok text)) : Resolves asm fs path .maven [] true := by
        refine .failed ?_
        rintro text ⟨_, _, hs, hrun, hrest⟩
        obtain rfl := Except.ok.inj (hw.symm.trans hs)
        obtain rfl := Except.ok.inj (hl.symm.trans hrun)
        exact h text hrest
      cases hc : asm.cancelled with
      | true => exact hunless fun text h => by simp [hc] at h
      | false =>
        simp only [Bool.false_eq_true, if_false]
        cases hf : execution.finish with
        | outlasts => exact hunless fun text h => by simp [hf] at h
        | killed => exact hunless fun text h => by simp [hf] at h
        | exited code =>
          rw [Assembler.readDependencies]
          by_cases h0 : code = 0
          · subst h0
            cases ht : execution.files.readText dumpPath with
            | error e => exact hunless fun text h => by simp [ht] at h
            | ok text => exact .listed ⟨started, execution, hw, hl, hc, hf, ht⟩
          · rw [if_pos (by simpa [CommandOutput.success] using h0)]
            exact hunless fun text h => h0 (by simpa [hf] using h.2.1)

lemma dependencies_resolves (asm : Assembler) (fs : FileTree) (path : String) (kind : BuildSystem) :
    Resolves asm fs path kind (asm.dependencies fs path kind).1.libraries (asm.dependencies fs path kind).1.degraded := by
  cases kind with
  | maven => exact mavenDependencies_resolves
  | gradle => exact .compiled
  | unknown => exact .nothing

lemma Resolves.degraded_iff {kind : BuildSystem} {libraries : List String} {degraded : Bool}
    (h : Resolves asm fs path kind libraries degraded) :
    degraded = true ↔ kind = .maven ∧ ∀ text, ¬asm.Lists fs path text := by
  cases h with
  | @listed text h => simpa using ⟨text, h⟩
  | failed h => simpa using h
  | compiled | nothing => simp

/-- Without a list only compiled classes are left. -/
lemma Resolves.mem_compiledDirs {kind : BuildSystem} {libraries : List String} {degraded : Bool}
    (h : Resolves asm fs path kind libraries degraded) (hfail : ∀ text, ¬asm.Lists fs path text)
    {p : String} (hp : p ∈ libraries) : p ∈ compiledDirs fs path kind := by
  cases h with
  | listed h => exact absurd h (hfail _)
  | failed | nothing => cases hp
  | compiled => exact hp

lemma assemble_kind (asm : Assembler) (fs : FileTree) (path : String) :
    (asm.assemble fs path).1.kind = Build.detect fs path := by
  simp only [Assembler.assemble]

lemma assemble_sourceRoots (asm : Assembler) (fs : FileTree) (path : String) :
    (asm.assemble fs path).1.sourceRoots = sourceRoots fs path := by
  simp only [Assembler.assemble]

lemma assemble_degraded (asm : Assembler) (fs : FileTree) (path : String) :
    (asm.assemble fs path).1.degraded =
      (asm.dependencies fs path (Build.detect fs path)).1.degraded := by
  simp only [Assembler.assemble]

lemma assemble_firsts (asm : Assembler) (fs : FileTree) (path : String) :
    (asm.assemble fs path).1.entries = ClasspathEntry.firsts
      (.container asm.container :: (sourceRoots fs path).map .source ++
        ((asm.dependencies fs path (Build.detect fs path)).1.libraries.filter
          (asm.assemble fs path).2.pathExists).map .library ++
        (compiledAfter fs path (asm.assemble fs path).2).map .library) := by
  rw [← ClasspathEntry.foldl_insert_nil]
  simp only [Assembler.assemble, compiledAfter]

/-- The entries by their kinds. -/
lemma assemble_entries (asm : Assembler) (fs : FileTree) (path : String) :
    (asm.assemble fs path).1.entries = .container asm.container ::
      (ClasspathEntry.firsts ((sourceRoots fs path).map .source) ++
        ClasspathEntry.firsts ((((asm.dependencies fs path (Build.detect fs path)).1.libraries.filter
          (asm.assemble fs path).2.pathExists ++
            compiledAfter fs path (asm.assemble fs path).2)).map .library)) := by
  rw [assemble_firsts, List.cons_append, List.cons_append, ClasspathEntry.firsts_cons,
    List.append_assoc, ← List.map_append]
  have hno : ∀ e ∈ (sourceRoots fs path).map ClasspathEntry.source,
      ∀ e' ∈ (((asm.dependencies fs path (Build.detect fs path)).1.libraries.filter
        (asm.assemble fs path).2.pathExists ++
          compiledAfter fs path (asm.assemble fs path).2)).map .library, e.same e' = false := by
    intro e he e' he'
    obtain ⟨r, -, rfl⟩ := List.mem_map.mp he
    obtain ⟨p, -, rfl⟩ := List.mem_map.mp he'
    rfl
  rw [List.filter_eq_self.mpr, ClasspathEntry.firsts_append hno]
  intro e he
  rcases List.mem_append.mp he with he | he
  all_goals
    obtain ⟨x, -, rfl⟩ := List.mem_map.mp he
    rfl

lemma firsts_library (paths : List String) :
    ∃ kept : List String, ClasspathEntry.firsts (paths.map .library) = kept.map ClasspathEntry.library ∧
      kept.Sublist paths := by
  obtain ⟨kept, hsub, heq⟩ := List.sublist_map_iff.mp (ClasspathEntry.firsts_sublist (paths.map .library))
  exact ⟨kept, heq, hsub⟩

lemma pathExists_of_isDir {p : String} (h : fs.isDir p = true) : fs.pathExists p = true := by
  rw [isDir, beq_iff_eq] at h
  rw [pathExists, h]
  rfl

lemma exists_of_mem_compiledAfter {after : FileTree} {p : String}
    (h : p ∈ compiledAfter fs path after) : after.pathExists p = true := by
  obtain ⟨module, -, hp⟩ := List.mem_flatMap.mp h
  exact pathExists_of_isDir (List.mem_filter.mp hp).2

/-- A file with the name of the list stands nowhere. -/
def NoList (fs : FileTree) : Prop := ∀ dir, fs.entry? (dir ++ [dumpName]) = none

/-- A build tool that writes nothing but its list leaves all files as they were. -/
lemma assemble_files (path : String) (hl : WritesListOnly asm.launch) (hw : fs.WellFormed) (hn : NoList fs) :
    (asm.assemble fs path).2.cwd = fs.cwd ∧
      ∀ l, FileTree.entry? (asm.assemble fs path).2 l = fs.entry? l := by
  have hspares : Spares [dumpName] fs (asm.assemble fs path).2 :=
    assemble_spares asm hl hw (fun dir t => by simp [hn dir]) (fun dir _ => hn dir) path
  refine ⟨hspares.cwd, fun l => ?_⟩
  rcases hspares.entry? l with h | ⟨hp, -, hgone⟩
  · exact h
  · rw [hgone, hw.entry?_eq_none_below (hn []) hp]

lemma compiledAfter_eq (path : String) (hl : WritesListOnly asm.launch) (hw : fs.WellFormed) (hn : NoList fs) :
    compiledAfter fs path (asm.assemble fs path).2 = compiledAfter fs path fs := by
  obtain ⟨hcwd, hentry⟩ := assemble_files path hl hw hn
  have hdir : (asm.assemble fs path).2.isDir = fs.isDir := by
    funext p
    rw [isDir, isDir, status_of_entries hcwd hentry]
  simp only [compiledAfter, existingDirs, hdir]

lemma library_mem {p : String} (h : .library p ∈ (asm.assemble fs path).1.entries) :
    p ∈ (asm.dependencies fs path (Build.detect fs path)).1.libraries ∧
        (asm.assemble fs path).2.pathExists p = true ∨
      p ∈ compiledAfter fs path (asm.assemble fs path).2 := by
  rw [assemble_entries] at h
  have hmem : ClasspathEntry.library p ∈ List.map .library
      ((asm.dependencies fs path (Build.detect fs path)).1.libraries.filter
        (asm.assemble fs path).2.pathExists ++ compiledAfter fs path (asm.assemble fs path).2) := by
    rcases List.mem_cons.mp h with h | h
    · cases h
    · rcases List.mem_append.mp h with h | h
      · obtain ⟨r, -, hr⟩ := List.mem_map.mp ((ClasspathEntry.firsts_sublist _).subset h)
        cases hr
      · exact (ClasspathEntry.firsts_sublist _).subset h
  obtain ⟨q, hq, heq⟩ := List.mem_map.mp hmem
  obtain rfl := ClasspathEntry.library.inj heq
  rcases List.mem_append.mp hq with hq | hq
  · exact .inl (List.mem_filter.mp hq)
  · exact .inr hq

/-- Without a list of libraries there is nothing on the class path that is not there with one. -/
lemma assemble_subset {asm' : Assembler} (hc : asm'.container = asm.container)
    (hl : WritesListOnly asm.launch) (hl' : WritesListOnly asm'.launch) (hw : fs.WellFormed)
    (hn : NoList fs) (hfail : ∀ text, ¬asm.Lists fs path text) {e : ClasspathEntry}
    (he : e ∈ (asm.assemble fs path).1.entries) :
    ∃ e' ∈ (asm'.assemble fs path).1.entries, e'.same e = true := by
  have hfiles := compiledAfter_eq path hl hw hn
  have hfiles' := compiledAfter_eq path hl' hw hn
  rw [assemble_entries asm', hc]
  cases e with
  | container c =>
    rw [assemble_entries asm] at he
    rcases List.mem_cons.mp he with he | he
    · exact ⟨_, List.mem_cons_self, he ▸ ClasspathEntry.same_refl _⟩
    · rcases List.mem_append.mp he with he | he
      all_goals
        obtain ⟨x, -, hx⟩ := List.mem_map.mp ((ClasspathEntry.firsts_sublist _).subset he)
        cases hx
  | source r =>
    rw [assemble_entries asm] at he
    rcases List.mem_cons.mp he with he | he
    · cases he
    · rcases List.mem_append.mp he with he | he
      · exact ⟨_, List.mem_cons_of_mem _ (List.mem_append_left _ he), ClasspathEntry.same_refl _⟩
      · obtain ⟨x, -, hx⟩ := List.mem_map.mp ((ClasspathEntry.firsts_sublist _).subset he)
        cases hx
  | library p =>
    -- what a failed run leaves are the compiled classes, which any other run leaves as well
    have hp : p ∈ compiledAfter fs path (asm'.assemble fs path).2 := by
      rw [hfiles', ← hfiles]
      rcases library_mem he with ⟨hp, -⟩ | hp
      · rw [hfiles]
        exact (dependencies_resolves asm fs path _).mem_compiledDirs hfail hp
      · exact hp
    obtain ⟨first, hf, hs⟩ := ClasspathEntry.exists_mem_firsts
      (List.mem_map_of_mem (f := ClasspathEntry.library) (List.mem_append_right
        ((asm'.dependencies fs path (Build.detect fs path)).1.libraries.filter
          (asm'.assemble fs path).2.pathExists) hp))
    exact ⟨first, List.mem_cons_of_mem _ (List.mem_append_right _ hf), hs⟩

lemma sources_assemble (asm : Assembler) (fs : FileTree) (path : String) :
    (asm.assemble fs path).1.entries.filter (·.isSource) =
      ClasspathEntry.firsts ((sourceRoots fs path).map .source) := by
  have hkeep : ∀ e ∈ ClasspathEntry.firsts ((sourceRoots fs path).map .source),
      e.isSource = true := by
    intro e he
    obtain ⟨r, -, rfl⟩ := List.mem_map.mp ((ClasspathEntry.firsts_sublist _).subset he)
    rfl
  rw [assemble_entries, List.filter_cons_of_neg (by simp [ClasspathEntry.isSource]),
    List.filter_append, List.filter_eq_self.mpr hkeep, List.filter_eq_nil_iff.mpr, List.append_nil]
  intro e he
  obtain ⟨p, -, rfl⟩ := List.mem_map.mp ((ClasspathEntry.firsts_sublist _).subset he)
  simp [ClasspathEntry.isSource]

/-- A class path is the platform, the source directories and the libraries, in this order and each
once; its libraries exist; how the build tool ends decides about libraries only, and the class path is
degraded exactly when a Maven tree got no list. -/
theorem assemble_ordered_distinct_degrading (asm : Assembler) (fs : FileTree) (path : String) :
    (∃ resolved libraries : List String,
      Resolves asm fs path (Build.detect fs path) resolved (asm.assemble fs path).1.degraded ∧
      ClasspathEntry.firsts ((resolved.filter (asm.assemble fs path).2.pathExists ++
        compiledAfter fs path (asm.assemble fs path).2).map .library) = libraries.map .library ∧
      (asm.assemble fs path).1.entries = .container asm.container ::
        (ClasspathEntry.firsts ((sourceRoots fs path).map .source) ++ libraries.map .library)) ∧
    (asm.assemble fs path).1.entries.Pairwise (fun e e' => e.same e' = false) ∧
    (∀ p, .library p ∈ (asm.assemble fs path).1.entries →
      (asm.assemble fs path).2.pathExists p = true) ∧
    ((asm.assemble fs path).1.degraded = true ↔
      Build.detect fs path = .maven ∧ ∀ text, ¬asm.Lists fs path text) ∧
    ∀ asm' : Assembler,
      (asm'.assemble fs path).1.kind = (asm.assemble fs path).1.kind ∧
      (asm'.assemble fs path).1.sourceRoots = (asm.assemble fs path).1.sourceRoots ∧
      (asm'.assemble fs path).1.entries.filter (·.isSource) =
        (asm.assemble fs path).1.entries.filter (·.isSource) ∧
      (asm'.container = asm.container → WritesListOnly asm.launch → WritesListOnly asm'.launch →
        fs.WellFormed → NoList fs → (∀ text, ¬asm.Lists fs path text) →
        ∀ e ∈ (asm.assemble fs path).1.entries,
          ∃ e' ∈ (asm'.assemble fs path).1.entries, e'.same e = true) := by
  have hresolves := dependencies_resolves asm fs path (Build.detect fs path)
  rw [← assemble_degraded] at hresolves
  refine ⟨?_, ?_, fun p hp => ?_, hresolves.degraded_iff, fun asm' => ⟨?_, ?_, ?_, ?_⟩⟩
  · obtain ⟨kept, hkept, -⟩ := firsts_library
      ((asm.dependencies fs path (Build.detect fs path)).1.libraries.filter
        (asm.assemble fs path).2.pathExists ++ compiledAfter fs path (asm.assemble fs path).2)
    refine ⟨_, kept, hresolves, hkept, ?_⟩
    rw [assemble_entries, hkept]
  · rw [assemble_firsts]
    exact ClasspathEntry.firsts_pairwise _
  · rcases library_mem hp with ⟨-, hp⟩ | hp
    · exact hp
    · exact exists_of_mem_compiledAfter hp
  · rw [assemble_kind, assemble_kind]
  · rw [assemble_sourceRoots, assemble_sourceRoots]
  · rw [sources_assemble, sources_assemble]
  · exact fun hc hl hl' hw hn hfail _ he => assemble_subset hc hl hl' hw hn hfail he

/-- A Maven tree that was compiled before. -/
def compiledTree : FileTree where
  entries := [(["tmp"], .dir), (["t"], .dir), (["t", "pom.xml"], .file [] false),
    (["t", "src"], .dir), (["t", "target"], .dir), (["t", "target", "classes"], .dir)]
  cwd := []

def compiledTreeAssembler (launch : Launcher) : Assembler := ⟨launch, "mvn", 1000, .unresolved, false⟩

theorem assemble_ordered_distinct_degrading_compiledTree :
    (((compiledTreeAssembler fun _ _ _ => .error .notFound).assemble compiledTree "/t").1.degraded =
        true ∧
      ((compiledTreeAssembler fun _ _ _ => .error .notFound).assemble compiledTree "/t").1.entries =
        [.container .unresolved, .source ⟨"/t/src", "src", ""⟩, .library "/t/target/classes"]) ∧
    ∀ e ∈ ((compiledTreeAssembler fun _ _ _ => .error .notFound).assemble compiledTree "/t").1.entries,
      ∃ e' ∈ ((compiledTreeAssembler listingTool).assemble compiledTree "/t").1.entries,
        e'.same e = true := by
  have hn : NoList compiledTree := by
    intro dir
    cases he : compiledTree.entry? (dir ++ [dumpName]) with
    | none => rfl
    | some e =>
      have hnames : ∀ x ∈ compiledTree.entries, x.1.getLast? ≠ some dumpName := by decide +kernel
      exact absurd (by simp) (hnames _ (mem_entries (by simp) he))
  refine ⟨by decide +kernel, ?_⟩
  refine ((assemble_ordered_distinct_degrading _ compiledTree "/t").2.2.2.2
    (compiledTreeAssembler listingTool)).2.2.2 rfl nofun listingTool_writesListOnly
    (by decide +kernel) hn ?_
  rintro text ⟨_, _, -, hrun, -⟩
  cases hrun

end Classpath

end JavaAtlas
