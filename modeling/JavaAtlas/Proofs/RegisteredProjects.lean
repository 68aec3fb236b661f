import JavaAtlas.Engine
import JavaAtlas.Proofs.PathNames
import Mathlib.Data.List.Induction

/-! The projects that an engine holds, whatever it has been asked to create and to delete. That a
project lies in the workspace is decided on paths as they are written: a location begins with the
workspace, and its double points may still lead out of it. -/

namespace JavaAtlas.Path

/-- The names from the root to where components lead, if they are followed from a place. -/
def goFrom (place : List String) : List Component → List String
  | [] => place
  | .root :: cs => goFrom [] cs
  | .current :: cs => goFrom place cs
  | .parent :: cs => goFrom place.dropLast cs
  | .normal name :: cs => goFrom (place ++ [name]) cs

/-- A path with its points and double points resolved, in a directory. -/
def destination (directory : List String) (p : String) : List String :=
  goFrom directory (components p)

lemma goFrom_append (place : List String) (xs ys : List Component) :
    goFrom place (xs ++ ys) = goFrom (goFrom place xs) ys := by
  induction xs generalizing place with
  | nil => rfl
  | cons x xs ih => cases x <;> exact ih _

/-- What components come to: some levels up, or up to the root, and then down some names. -/
structure Way where
  up : Option Nat
  down : List String
  deriving Repr, DecidableEq

namespace Way

def after (w : Way) : Component → Way
  | .root => ⟨none, []⟩
  | .current => w
  | .parent => if w.down = [] then ⟨w.up.map (· + 1), []⟩ else ⟨w.up, w.down.dropLast⟩
  | .normal name => ⟨w.up, w.down ++ [name]⟩

/-- What is left of a place after the way up. -/
def kept (w : Way) (place : List String) : List String :=
  match w.up with
  | none => []
  | some levels => place.take (place.length - levels)

def target (w : Way) (place : List String) : List String := w.kept place ++ w.down

/-- The way comes back to every level of the place that it has left. -/
def Returns (w : Way) (place : List String) : Prop :=
  place.drop (w.kept place).length <+: w.down

instance (w : Way) (place : List String) : Decidable (w.Returns place) :=
  inferInstanceAs (Decidable (_ <+: _))

lemma kept_append_drop (w : Way) (place : List String) :
    w.kept place ++ place.drop (w.kept place).length = place := by
  rcases w with ⟨_ | levels, down⟩
  · simp [kept]
  · simp only [kept]
    rw [List.length_take, Nat.min_eq_left (by omega)]
    exact List.take_append_drop _ _

lemma dropLast_kept (levels : Nat) (down place : List String) :
    (kept ⟨some levels, down⟩ place).dropLast = kept ⟨some (levels + 1), down⟩ place := by
  simp only [kept]
  rw [List.dropLast_eq_take, List.take_take, List.length_take]
  congr 1
  omega

lemma target_after (w : Way) (c : Component) (place : List String) :
    (w.after c).target place = goFrom (w.target place) [c] := by
  rcases w with ⟨up, down⟩
  cases c with
  | root => rfl
  | current => rfl
  | normal name => simp [after, Way.target, kept, goFrom]
  | parent =>
    by_cases hd : down = []
    · subst hd
      cases up with
      | none => rfl
      | some levels =>
        have hk := dropLast_kept levels [] place
        simpa [after, Way.target, goFrom] using hk.symm
    · have hl : (kept ⟨up, down⟩ place ++ down).dropLast =
          kept ⟨up, down⟩ place ++ down.dropLast := List.dropLast_append_of_ne_nil hd
      simp only [after, hd, if_false, Way.target, goFrom]
      exact hl.symm

/-- A way leads into the place it starts at exactly if it returns to what it has left. -/
lemma prefix_target_iff (w : Way) (place : List String) :
    place <+: w.target place ↔ w.Returns place := by
  have hs := w.kept_append_drop place
  nth_rewrite 1 [← hs]
  exact List.prefix_append_right_inj _

end Way

def wayOf (cs : List Component) : Way := cs.foldl Way.after ⟨some 0, []⟩

lemma goFrom_eq (place : List String) (cs : List Component) :
    goFrom place cs = (wayOf cs).target place := by
  induction cs using List.reverseRecOn with
  | nil => simp [wayOf, Way.target, Way.kept, goFrom]
  | append_singleton cs c ih =>
    have hw : wayOf (cs ++ [c]) = (wayOf cs).after c := by simp [wayOf]
    rw [goFrom_append, ih, hw, Way.target_after]

/-- Whether a path that begins as another does leads into that one is decided by what follows. -/
lemma destination_prefix_iff {base p : String} {rest : List Component}
    (h : components p = components base ++ rest) (directory : List String) :
    destination directory base <+: destination directory p ↔
      (wayOf rest).Returns (destination directory base) := by
  rw [destination, destination, h, goFrom_append, goFrom_eq _ rest]
  exact Way.prefix_target_iff _ _

/-- Names and points alone never lead out. -/
lemma returns_of_names {rest : List Component} (h : ∀ c ∈ rest, c ≠ .parent ∧ c ≠ .root)
    (place : List String) : (wayOf rest).Returns place := by
  rw [← Way.prefix_target_iff, ← goFrom_eq]
  induction rest generalizing place with
  | nil => exact List.prefix_rfl
  | cons c rest ih =>
    have hrest := fun d hd => h d (List.mem_cons_of_mem c hd)
    cases c with
    | root => exact absurd rfl (h .root List.mem_cons_self).2
    | parent => exact absurd rfl (h .parent List.mem_cons_self).1
    | current => exact ih hrest place
    | normal name => exact (List.prefix_append place [name]).trans (ih hrest (place ++ [name]))

end JavaAtlas.Path

namespace JavaAtlas.Engine

open JavaAtlas.Path

/-- What an engine is asked to do with its projects. -/
inductive Step where
  | create (p : Project)
  | delete (name : String)
  deriving Repr

/-- The engine after a step; what cannot be created is not. -/
def after (engine : Engine) : Step → Engine
  | .create p =>
    match engine.create p with
    | .ok engine => engine
    | .error _ => engine
  | .delete name => engine.delete name

def afterAll (engine : Engine) (steps : List Step) : Engine := steps.foldl after engine

lemma isValidName_iff (name : String) :
    isValidName name = true ↔ IsName name ∧ '\\' ∉ name.toList := by
  have hc (c : Char) : Text.hasChar c name = false ↔ c ∉ name.toList := by
    simp [Text.hasChar]
  constructor
  · intro h
    simp only [isValidName, Bool.not_eq_true', Bool.or_eq_false_iff, hc] at h
    obtain ⟨⟨⟨⟨he, hs⟩, hb⟩, hp⟩, hpp⟩ := h
    exact ⟨⟨by simpa using he, by simpa using hp, by simpa using hpp, hs⟩, hb⟩
  · rintro ⟨⟨he, hp, hpp, hs⟩, hb⟩
    simp only [isValidName, Bool.not_eq_true', Bool.or_eq_false_iff, hc]
    exact ⟨⟨⟨⟨by simpa using he, hs⟩, hb⟩, by simpa using hp⟩, by simpa using hpp⟩

/-- All that can become of a project that is to be registered. -/
lemma create_cases (engine : Engine) (p : Project) :
    (isValidName p.name = false ∧ engine.create p = .error (.invalidName p.name)) ∨
    (isValidName p.name = true ∧ isWithin engine.workspace p.location = false ∧
      engine.create p = .error (.outsideWorkspace p.location engine.workspace)) ∨
    (isValidName p.name = true ∧ isWithin engine.workspace p.location = true ∧
      p.name ∈ engine.projects.map (·.name) ∧ engine.create p = .error (.duplicate p.name)) ∨
    (isValidName p.name = true ∧ isWithin engine.workspace p.location = true ∧
      p.name ∉ engine.projects.map (·.name) ∧
      engine.create p = .ok { engine with projects := engine.projects ++ [p] }) := by
  have hfree : (engine.project? p.name).isSome = true ↔ p.name ∈ engine.projects.map (·.name) := by
    simp [project?]
  rw [create]
  cases hn : isValidName p.name with
  | false => exact .inl ⟨rfl, rfl⟩
  | true =>
    cases hl : isWithin engine.workspace p.location with
    | false => exact .inr (.inl ⟨rfl, rfl, rfl⟩)
    | true =>
      by_cases hd : p.name ∈ engine.projects.map (·.name)
      · refine .inr (.inr (.inl ⟨rfl, rfl, hd, ?_⟩))
        simp [hfree.mpr hd]
      · refine .inr (.inr (.inr ⟨rfl, rfl, hd, ?_⟩))
        simp [Bool.eq_false_iff.mpr (mt hfree.mp hd)]

/-- What every register of projects keeps to. -/
structure Orderly (workspace : String) (engine : Engine) : Prop where
  workspace_eq : engine.workspace = workspace
  names_nodup : (engine.projects.map (·.name)).Nodup
  valid : ∀ p ∈ engine.projects, isValidName p.name = true
  within : ∀ p ∈ engine.projects, isWithin workspace p.location = true

lemma orderly_ofWorkspace (workspace : String) : Orderly workspace (ofWorkspace workspace) :=
  ⟨rfl, List.nodup_nil, nofun, nofun⟩

lemma Orderly.after {workspace : String} {engine : Engine} (h : Orderly workspace engine)
    (step : Step) : Orderly workspace (engine.after step) := by
  cases step with
  | delete name =>
    have hsub : (engine.delete name).projects.Sublist engine.projects := List.filter_sublist
    exact ⟨h.workspace_eq, h.names_nodup.sublist (hsub.map _),
      fun p hp => h.valid p (hsub.subset hp), fun p hp => h.within p (hsub.subset hp)⟩
  | create p =>
    rcases engine.create_cases p with ⟨-, he⟩ | ⟨-, -, he⟩ | ⟨-, -, -, he⟩ | ⟨hn, hl, hd, he⟩
    iterate 3
      rw [Engine.after, he]
      exact h
    rw [Engine.after, he]
    refine ⟨h.workspace_eq, ?_, fun q hq => ?_, fun q hq => ?_⟩
    · change ((engine.projects ++ [p]).map (·.name)).Nodup
      rw [List.map_append, List.nodup_append]
      refine ⟨h.names_nodup, by simp, ?_⟩
      rintro a ha b hb rfl
      obtain rfl : a = p.name := by simpa using hb
      exact hd ha
    · rcases List.mem_append.mp hq with hq | hq
      · exact h.valid q hq
      · obtain rfl := List.mem_singleton.mp hq
        exact hn
    · rcases List.mem_append.mp hq with hq | hq
      · exact h.within q hq
      · obtain rfl := List.mem_singleton.mp hq
        rw [← h.workspace_eq]
        exact hl

lemma orderly_afterAll (workspace : String) (steps : List Step) :
    Orderly workspace ((ofWorkspace workspace).afterAll steps) := by
  induction steps using List.reverseRecOn with
  | nil => exact orderly_ofWorkspace workspace
  | append_singleton steps step ih =>
    rw [afterAll, List.foldl_append]
    exact ih.after step

/-- At every point of a run the registered names are distinct single segments, and a location begins
with the components of the workspace. It lies in the workspace, once its points and double points are
resolved, exactly if what is written after them comes back to every level that it leaves, and so
whenever only names and points follow. A project is registered exactly if its name is valid and free
and its location is written below the workspace, and the register stays as it is otherwise. -/
theorem registered_projects (workspace : String) (steps : List Step) :
    let engine := (ofWorkspace workspace).afterAll steps
    (engine.projects.map (·.name)).Nodup ∧
      (∀ p ∈ engine.projects, IsName p.name ∧ '\\' ∉ p.name.toList ∧
        ∃ rest, components p.location = components workspace ++ rest ∧
          (∀ directory, destination directory workspace <+: destination directory p.location ↔
            (wayOf rest).Returns (destination directory workspace)) ∧
          ((∀ c ∈ rest, c ≠ .parent ∧ c ≠ .root) → ∀ directory,
            destination directory workspace <+: destination directory p.location)) ∧
      ∀ p, (engine.after (.create p)).projects = engine.projects ++
        if isValidName p.name ∧ isWithin workspace p.location ∧
          p.name ∉ engine.projects.map (·.name) then [p] else [] := by
  intro engine
  have h : Orderly workspace engine := orderly_afterAll workspace steps
  refine ⟨h.names_nodup, fun p hp => ?_, fun p => ?_⟩
  · obtain ⟨hname, hback⟩ := (isValidName_iff p.name).mp (h.valid p hp)
    obtain ⟨rest, hrest⟩ := List.isPrefixOf_iff_prefix.mp (h.within p hp)
    have hiff := destination_prefix_iff hrest.symm
    exact ⟨hname, hback, rest, hrest.symm, hiff, fun hnames directory =>
      (hiff directory).mpr (returns_of_names hnames _)⟩
  · rw [after]
    rcases engine.create_cases p with ⟨hn, he⟩ | ⟨-, hl, he⟩ | ⟨-, -, hd, he⟩ | ⟨hn, hl, hd, he⟩
    · simp [he, hn]
    · simp [he, ← h.workspace_eq, hl]
    · simp [he, hd]
    · rw [he, if_pos ⟨hn, h.workspace_eq ▸ hl, hd⟩]

/-- A project beside the workspace is held, where the location leaves the workspace. -/
example : ((ofWorkspace "/ws").afterAll
      [.create ⟨"a", "/ws/../other", "/ws/../other/bin", [], none⟩]).projects.map
      (fun p => destination [] p.location) = [["other"]] ∧
    destination [] "/ws" = ["ws"] := by
  decide +kernel

end JavaAtlas.Engine
