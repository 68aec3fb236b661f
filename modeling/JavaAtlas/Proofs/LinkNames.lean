import JavaAtlas.Proofs.ProjectRegister

/-! The names under which source directories are linked, and the class path that is registered with
the links in the place of the directories. Different paths can be written as the same name, and a
name with a number can be the plain name of another path; each link takes a name that none before it
has. -/

namespace JavaAtlas

namespace Workspace

variable {taken taken' : List String} {base name dir treeRoot : String} {w w' : Workspace}

/-- The name that a link takes when some names are taken: its base, or the base with the least number
from two on that makes it new. -/
inductive TakesName (taken : List String) (base : String) : String → Prop
  | plain : base ∉ taken → TakesName taken base base
  | numbered {n : Nat} : base ∈ taken → 2 ≤ n → n ≤ taken.length + 2 →
      base ++ "_" ++ toString n ∉ taken →
      (∀ k, 2 ≤ k → k < n → base ++ "_" ++ toString k ∈ taken) →
      TakesName taken base (base ++ "_" ++ toString n)

lemma TakesName.perm (h : TakesName taken base name) (hp : taken.Perm taken') :
    TakesName taken' base name := by
  cases h with
  | plain hb => exact .plain fun hm => hb (hp.mem_iff.mpr hm)
  | numbered hb h₂ hlen hnew hold =>
    exact .numbered (hp.mem_iff.mp hb) h₂ (hp.length_eq ▸ hlen) (fun hm => hnew (hp.mem_iff.mpr hm))
      fun k hk hlt => hp.mem_iff.mp (hold k hk hlt)

lemma takesName_uniqueName (taken : List String) (base : String) :
    TakesName taken base (uniqueName taken base) := by
  have hnew := uniqueName_not_mem taken base
  by_cases hb : base ∈ taken
  · rw [uniqueName, List.find?_cons_of_neg (by simpa using hb)] at hnew ⊢
    cases hf : ((List.range (taken.length + 1)).map fun i =>
        base ++ "_" ++ toString (i + 2)).find? (!taken.contains ·) with
    | none =>
      rw [hf] at hnew
      exact absurd hb hnew
    | some name =>
      obtain ⟨hfree, before, after, hsplit, hold⟩ := List.find?_eq_some_iff_append.mp hf
      rw [List.map_eq_append_iff] at hsplit
      obtain ⟨xs, ys, hrange, rfl, hys⟩ := hsplit
      obtain ⟨i, zs, rfl, rfl, -⟩ := List.map_eq_cons_iff.mp hys
      -- the numbers before the one that was found are those below it
      have hi : xs.length = i ∧ i < taken.length + 1 := by
        have hlt : xs.length < (List.range (taken.length + 1)).length := by simp [hrange]
        have hget : (List.range (taken.length + 1))[xs.length]? = some i := by simp [hrange]
        rw [List.getElem?_range (by simpa using hlt)] at hget
        obtain rfl := Option.some.inj hget
        exact ⟨rfl, by simpa using hlt⟩
      refine .numbered hb (by omega) (by omega) (by simpa using hfree) fun k hk hlt => ?_
      have hmem : k - 2 ∈ xs := by
        have hx : xs = List.range i := by
          have htake := congrArg (List.take i) hrange
          rwa [List.take_range, min_eq_left hi.2.le, List.take_left' hi.1, eq_comm] at htake
        rw [hx]
        exact List.mem_range.mpr (by omega)
      have htaken := hold _ (List.mem_map_of_mem hmem)
      rw [Nat.sub_add_cancel hk] at htaken
      simpa using htaken
  · rw [uniqueName, List.find?_cons_of_pos (by simpa using hb)]
    exact .plain hb

/-- The source directories of a class path. -/
def sources (entries : List ClasspathEntry) : List SourceRoot :=
  entries.filterMap fun e =>
    match e with
    | .source root => some root
    | _ => none

/-- An entry and what it is replaced by: at most the path of a source directory differs. -/
def Replaces : ClasspathEntry → ClasspathEntry → Prop
  | .source root, e => ∃ path, e = .source { root with path }
  | e, e' => e' = e

/-- How the links of a class path go with its source directories, in their order. -/
structure Relinks (taken : List String) (dir : String) (entries : List ClasspathEntry)
    (roots : List LinkedRoot) (classpath : List ClasspathEntry) : Prop where
  distinct : (roots.map (·.name)).Nodup
  plain : ∀ r ∈ roots, IsPlain r.name
  chosen : ∀ i root r, (sources entries)[i]? = some root → roots[i]? = some r →
    TakesName ((roots.take i).map (·.name) ++ taken) (linkName root.relative) r.name
  links : ∀ r ∈ roots, r.link = Path.join dir r.name
  externals : roots.map (·.external) = (sources entries).map (·.path)
  entries : List.Forall₂ Replaces entries classpath
  paths : (sources classpath).map (·.path) = roots.map (·.link)

lemma relinks_linkPlan (dir : String) (taken : List String) (entries : List ClasspathEntry) :
    Relinks taken dir entries (linkPlan dir taken entries).1 (linkPlan dir taken entries).2 := by
  refine ⟨linkPlan_nodup dir taken entries, fun r hr => (linkPlan_mem hr).1, ?_,
    fun r hr => (linkPlan_mem hr).2.2.1, ?_, ?_, ?_⟩
  · induction entries generalizing taken with
    | nil => exact fun i root r h => by simp [sources] at h
    | cons entry rest ih =>
      cases entry with
      | source first =>
        intro i root r hroot hr
        cases i with
        | zero =>
          obtain rfl : first = root := Option.some.inj hroot
          obtain rfl := Option.some.inj hr
          exact takesName_uniqueName taken _
        | succ i =>
          refine (ih (uniqueName taken (linkName first.relative) :: taken) i root r hroot hr).perm ?_
          exact List.perm_middle
      | container | library => exact ih taken
  · induction entries generalizing taken with
    | nil => rfl
    | cons entry rest ih =>
      cases entry with
      | source first => exact congrArg (first.path :: ·) (ih _)
      | container | library => exact ih taken
  · induction entries generalizing taken with
    | nil => exact .nil
    | cons entry rest ih =>
      cases entry with
      | source first => exact .cons ⟨_, rfl⟩ (ih _)
      | container | library => exact .cons rfl (ih taken)
  · induction entries generalizing taken with
    | nil => rfl
    | cons entry rest ih =>
      cases entry with
      | source first => exact congrArg (_ :: ·) (ih _)
      | container | library => exact ih taken

lemma ne_engine_bind {α β : Type} {x : Action α} {f : α → Action β} {e : EngineError}
    (hx : (x.run w).1 ≠ .error (.engine e))
    (hf : ∀ a w', x.run w = (.ok a, w') → ((f a).run w').1 ≠ .error (.engine e)) :
    ((x >>= f).run w).1 ≠ .error (.engine e) := by
  rw [run_bind]
  generalize x.run w = result at hx hf ⊢
  obtain ⟨e' | a, w'⟩ := result
  · intro h
    obtain rfl : e' = .engine e := Except.error.inj h
    exact hx rfl
  · exact hf a w' rfl

/-- An action that the engine does not stop. -/
def Unrefused {α : Type} (x : Action α) : Prop := ∀ w e, (x.run w).1 ≠ .error (.engine e)

namespace Unrefused

variable {α β : Type} {x : Action α}

lemma pure (a : α) : Unrefused (Pure.pure a) := fun _ _ => nofun

lemma bind {f : α → Action β} (hx : Unrefused x) (hf : ∀ a, Unrefused (f a)) :
    Unrefused (x >>= f) :=
  fun w e => ne_engine_bind (hx w e) fun a w' _ => hf a w' e

lemma forM {f : α → Action Unit} {xs : List α} (h : ∀ a, Unrefused (f a)) :
    Unrefused (xs.forM f) := by
  induction xs with
  | nil => exact pure ()
  | cons a xs ih => exact (h a).bind fun _ => ih

lemma edit (change : FileTree → Except IoError Unit × FileTree) : Unrefused (edit change) := by
  intro w e
  rcases hc : change w.files with ⟨_ | _, files⟩
  · rw [run_edit_error hc]
    exact nofun
  · rw [run_edit_ok hc]
    exact nofun

lemma copyItem (source target : String) (item : String × FileEntry) :
    Unrefused (copyItem source target item) := by
  obtain ⟨path, _ | _ | _⟩ := item
  · rw [Workspace.copyItem]
    exact edit _
  · rw [Workspace.copyItem]
    exact edit _
  · exact pure ()

lemma copyTree (source target : String) : Unrefused (copyTree source target) := by
  intro w
  have hget : (get : Action Workspace).run w = (.ok w, w) := rfl
  rw [Workspace.copyTree, run_bind, hget]
  simp only
  cases copyItems w.files source with
  | error e => exact fun _ h => by cases h
  | ok items => exact forM (copyItem source target) w

lemma materialize (source target : String) : Unrefused (materialize source target) := by
  intro w
  have hget : (get : Action Workspace).run w = (.ok w, w) := rfl
  rw [Workspace.materialize, run_bind, hget]
  simp only
  split
  · exact fun _ h => by cases h
  · exact copyTree source target w

lemma linkEntries (dir : String) (taken : List String) (entries : List ClasspathEntry) :
    Unrefused (linkEntries dir taken entries) := by
  induction entries generalizing taken with
  | nil => exact pure _
  | cons entry rest ih =>
    cases entry with
    | source root => exact (materialize _ _).bind fun _ => (ih _).bind fun _ => pure _
    | container | library => exact (ih taken).bind fun _ => pure _

end Unrefused

lemma isWithin_projectDir_self (s : Session) (name : String) (hn : IsName name) :
    Path.isWithin s.path (s.projectDir name) = true := by
  have hprojects : Path.isAbsolute "projects" = false := by decide
  have hname := Path.isAbsolute_of_isName hn
  have hne : Path.join s.path "projects" ≠ "" := Path.join_ne_empty (by decide)
  rw [Path.isWithin, List.isPrefixOf_iff_prefix, Session.projectDir, Path.components_join hne hname]
  refine List.IsPrefix.trans ?_ (List.prefix_append _ _)
  by_cases hs : s.path = ""
  · rw [hs, show Path.components "" = [] by decide]
    exact List.nil_prefix
  · rw [Path.components_join hs hprojects]
    exact List.prefix_append _ _

lemma project?_delete (engine : Engine) (name : String) :
    (engine.delete name).project? name = none := by
  rw [Engine.project?, List.find?_eq_none]
  intro p hp
  simpa [Engine.delete] using (List.mem_filter.mp hp).2

lemma project?_create {engine engine' : Engine} {p : Project}
    (h : engine.create p = .ok engine') : engine'.project? p.name = some p := by
  have hfree : engine.project? p.name = none := by
    by_contra hne
    have hsome : (engine.project? p.name).isSome = true := Option.isSome_iff_ne_none.mpr hne
    rw [Engine.create, hsome] at h
    split at h
    · cases h
    · split at h <;> cases h
  obtain rfl := create_projects h
  rw [Engine.project?] at hfree ⊢
  rw [List.find?_append, hfree, Option.none_or, List.find?_singleton, if_pos (beq_self_eq_true _)]

/-- A project is registered after its links were made, where only the files can fail. -/
lemma build_ne_engine {location : String} (hn : IsPlain name)
    (hl : Path.isWithin w.engine.workspace location = true)
    (hfree : w.engine.project? name = none) (entries : List ClasspathEntry) (e : EngineError) :
    ((build name location entries).run w).1 ≠ .error (.engine e) := by
  have hstep {α : Type} {x : Action α} {f : α → Action BoundProject} {w' : Workspace}
      (hw : OnlyFiles w w') (hx : Leaves (OnlyFiles w) x (OnlyFiles w)) (hu : Unrefused x)
      (hf : ∀ a w', OnlyFiles w w' → ((f a).run w').1 ≠ .error (.engine e)) :
      ((x >>= f).run w').1 ≠ .error (.engine e) := by
    refine ne_engine_bind (hu w' e) fun a w'' hrun => hf a w'' ?_
    have hafter := hx w' hw
    rwa [hrun] at hafter
  rw [build]
  refine hstep ⟨_, rfl⟩ (edit_onlyFiles _) (.edit _) fun _ w₁ h₁ => ?_
  refine hstep h₁ (edit_onlyFiles _) (.edit _) fun _ w₂ h₂ => ?_
  refine hstep h₂ (linkEntries_onlyFiles _ _ _) (.linkEntries _ _ _) fun plan w₃ h₃ => ?_
  obtain ⟨files, rfl⟩ := h₃
  have hregister := register_ok (w := { w with files })
    (p := ⟨name, location, Path.join location "bin", plan.2, none⟩) (isValidName_of_isPlain hn) hl hfree
  rw [run_bind, hregister]
  intro h
  cases h

/-- Binding a tree links each of its source directories under a name of its own and registers its
class path with the links in their place; the engine never refuses a project of its own session. -/
theorem bind_relinks (w : Workspace) (treeRoot : String) (entries : List ClasspathEntry) :
    (∀ bound w', (bind treeRoot entries).run w = (.ok bound, w') →
      bound.location = w.session.projectDir bound.name ∧
      Relinks [] (Path.join bound.location "links") entries bound.roots bound.classpath ∧
      w'.engine.project? bound.name =
        some ⟨bound.name, bound.location, bound.output, bound.classpath, none⟩) ∧
    (w.engine.workspace = w.session.path →
      ∀ e w', (bind treeRoot entries).run w ≠ (.error (.engine e), w')) := by
  have hplain := isPlain_projectName treeRoot
  refine ⟨fun bound w' h => ?_, fun hengine e w' h => ?_⟩
  · obtain rfl := bind_planned h
    refine ⟨rfl, relinks_linkPlan _ _ _, ?_⟩
    rw [run_bind_eq] at h
    split at h
    · cases h
    · obtain ⟨_, _, -, h⟩ := ok_of_run_bind h
      obtain ⟨_, _, -, h⟩ := ok_of_run_bind h
      obtain ⟨plan, _, hplan, h⟩ := ok_of_run_bind h
      obtain ⟨_, _, hregister, h⟩ := ok_of_run_bind h
      obtain ⟨engine, hcreate, rfl⟩ := ok_of_register hregister
      obtain rfl := linkEntries_plan hplan
      obtain ⟨-, rfl⟩ := Prod.mk.inj h
      exact project?_create hcreate
  · rw [run_bind_eq] at h
    split at h
    · cases h
    · refine build_ne_engine hplain ?_ (project?_delete _ _) entries e (congrArg Prod.fst h)
      change Path.isWithin w.engine.workspace _ = true
      rw [hengine]
      exact isWithin_projectDir_self w.session _ hplain.isName

/-- A session in an empty tree. -/
def freshWorkspace : Workspace :=
  ⟨⟨[(["ws"], .dir)], []⟩, ⟨"0123abcd", "/ws", false⟩, .ofWorkspace "/ws", .link⟩

/-- Three directories whose paths are written as two names, of which one has a number. -/
def collidingEntries : List ClasspathEntry :=
  [.source ⟨"/t/a/b", "a/b", ""⟩, .library "/l.jar", .source ⟨"/t/a.b", "a.b", ""⟩,
    .source ⟨"/t/a_b_2", "a_b_2", ""⟩]

theorem bind_relinks_collidingEntries : ∃ bound w',
    (bind "/t" collidingEntries).run freshWorkspace = (.ok bound, w') ∧
      bound.roots.map (·.name) = ["a_b", "a_b_2", "a_b_2_2"] ∧
      Relinks [] (Path.join bound.location "links") collidingEntries bound.roots bound.classpath ∧
      ∀ e w', (bind "/t" collidingEntries).run freshWorkspace ≠ (.error (.engine e), w') := by
  have hrun : ((bind "/t" collidingEntries).run freshWorkspace).1.toOption.map
      (fun bound => bound.roots.map (·.name)) = some ["a_b", "a_b_2", "a_b_2_2"] := by decide +kernel
  obtain ⟨hok, herror⟩ := bind_relinks freshWorkspace "/t" collidingEntries
  have hrefused := herror rfl
  generalize (bind "/t" collidingEntries).run freshWorkspace = result at hrun hok hrefused ⊢
  obtain ⟨_ | bound, w'⟩ := result
  · cases hrun
  · exact ⟨bound, w', rfl, Option.some.inj hrun, (hok bound w' rfl).2.1, hrefused⟩

end Workspace

end JavaAtlas
