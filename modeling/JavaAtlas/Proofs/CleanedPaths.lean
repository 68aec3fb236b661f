import JavaAtlas.Proofs.MadeDirectories
import JavaAtlas.Proofs.RegisteredProjects

/-! Paths that are cleaned by their text alone. A double point takes away whatever was kept last, and
if that is a double point itself the two of them vanish. So a cleaned path still leads to the same
place if it begins at the root or goes up one level at most; of more levels only their parity is left. -/

namespace JavaAtlas.Path

open Text

variable {p : String} {c : Component} {cs start : List Component} {w : Way} {place : List String}

/-- The components after the root. -/
def inner (p : String) : List Component := (components p).filter (· != .root)

/-- The root, if the path begins there. -/
def origin (p : String) : List Component := if isAbsolute p then [.root] else []

/-- How many double points of a path have no name before them to take away. -/
def levelsUp (p : String) : Nat := (wayOf (inner p)).up.getD 0

/-- The names of a path that no double point takes away. -/
def namesDown (p : String) : List String := (wayOf (inner p)).down

lemma inner_ne_root (h : c ∈ inner p) : c ≠ .root := by
  simpa using (List.mem_filter.mp h).2

lemma components_eq_origin_append (p : String) : components p = origin p ++ inner p := by
  have hself : ∀ cs : List Component, (∀ c ∈ cs, c ≠ .root) → cs.filter (· != .root) = cs :=
    fun cs h => List.filter_eq_self.mpr fun c hc => by simpa using h c hc
  have hnames : ∀ c ∈ ofNames (pieces '/' p), c ≠ .root := fun c hc =>
    (mem_ofNames hc fun n hn => not_mem_of_mem_pieces hn).1
  rw [inner, origin, components_eq]
  split
  · rw [List.singleton_append, List.filter_cons_of_neg (by decide), hself _ hnames]
    rfl
  · split
    · rw [List.nil_append, hself]
      exact List.forall_mem_cons.mpr ⟨nofun, hnames⟩
    · rw [List.nil_append, List.nil_append, hself _ hnames]

lemma isName_of_normal_mem {n : String} (h : .normal n ∈ inner p) : IsName n := by
  have hmem : .normal n ∈ ofNames (pieces '/' p) := by
    have hc := (List.mem_filter.mp h).1
    rw [components_eq] at hc
    rcases List.mem_append.mp hc with hc | hc
    · split at hc
      · simp at hc
      · split at hc <;> simp at hc
    · exact hc
  rcases isInner_of_mem_ofNames (fun n hn => not_mem_of_mem_pieces hn) hmem with hc | ⟨m, hc, hm⟩
  · cases hc
  · obtain rfl := Component.normal.inj hc
    exact hm

namespace Way

lemma up_foldl (h : ∀ c ∈ cs, c ≠ .root) {levels : Nat} (hw : w.up = some levels) :
    ∃ levels', (cs.foldl after w).up = some levels' := by
  induction cs generalizing w levels with
  | nil => exact ⟨levels, hw⟩
  | cons c cs ih =>
    obtain ⟨hc, hcs⟩ := List.forall_mem_cons.mp h
    have hup : ∃ levels', (w.after c).up = some levels' := by
      cases c with
      | root => exact absurd rfl hc
      | current | normal name => exact ⟨levels, hw⟩
      | parent =>
        rw [after]
        split
        · exact ⟨levels + 1, by rw [hw]; rfl⟩
        · exact ⟨levels, hw⟩
    obtain ⟨levels', hup⟩ := hup
    exact ih hcs hup

lemma mem_down_foldl {n : String} (h : n ∈ (cs.foldl after w).down) : n ∈ w.down ∨ .normal n ∈ cs := by
  induction cs generalizing w with
  | nil => exact .inl h
  | cons c cs ih =>
    rcases ih h with hn | hn
    · cases c with
      | root => cases hn
      | current => exact .inl hn
      | normal name =>
        rcases List.mem_append.mp hn with hn | hn
        · exact .inl hn
        · exact .inr (by simp [List.mem_singleton.mp hn])
      | parent =>
        rw [after] at hn
        split at hn
        · cases hn
        · exact .inl (List.dropLast_subset _ hn)
    · exact .inr (List.mem_cons_of_mem _ hn)

/-- What is kept of a way behind `start`. Its levels up are kept one at a time and given back two at
a time. -/
def remains (start : List Component) (w : Way) : List Component :=
  start ++ List.replicate (w.up.getD 0 % 2) .parent ++ w.down.map .normal

/-- One more component is kept, or takes away what was kept last, as the way goes on. -/
lemma clean_step (hstart : start = [] ∨ start = [.root]) {levels : Nat} (hw : w.up = some levels)
    (hc : c ≠ .root) (cs : List Component) :
    cleanComponents (w.remains start).reverse (c :: cs) =
      cleanComponents ((w.after c).remains start).reverse cs := by
  obtain ⟨up, down⟩ := w
  obtain rfl : up = some levels := hw
  cases c with
  | root => exact absurd rfl hc
  | current => rw [cleanComponents, after]
  | normal name => simp [cleanComponents, after, remains]
  | parent =>
    rcases List.eq_nil_or_concat down with rfl | ⟨names, name, rfl⟩
    · rcases Nat.mod_two_eq_zero_or_one levels with heven | hodd
      · have hnext : (levels + 1) % 2 = 1 := by omega
        rcases hstart with rfl | rfl <;> simp [cleanComponents, after, remains, heven, hnext]
      · have hnext : (levels + 1) % 2 = 0 := by omega
        rcases hstart with rfl | rfl <;> simp [cleanComponents, after, remains, hodd, hnext]
    · simp [cleanComponents, after, remains]

lemma clean_run (hstart : start = [] ∨ start = [.root]) {levels : Nat} (hw : w.up = some levels)
    (hcs : ∀ c ∈ cs, c ≠ .root) :
    cleanComponents (w.remains start).reverse cs = (cs.foldl after w).remains start := by
  induction cs generalizing w levels with
  | nil => rw [cleanComponents, List.reverse_reverse, List.foldl_nil]
  | cons c cs ih =>
    obtain ⟨hc, hrest⟩ := List.forall_mem_cons.mp hcs
    obtain ⟨levels', hnext⟩ := @up_foldl [c] _ (by simpa using hc) _ hw
    rw [clean_step hstart hw hc, List.foldl_cons]
    exact ih hnext hrest

end Way

lemma origin_cases (p : String) : origin p = [] ∨ origin p = [.root] := by
  rw [origin]
  split
  · exact .inr rfl
  · exact .inl rfl

/-- Cleaning leaves the root, at most one double point, and the names that are not taken away. -/
lemma cleanComponents_components (p : String) :
    cleanComponents [] (components p) =
      origin p ++ List.replicate (levelsUp p % 2) .parent ++ (namesDown p).map .normal := by
  have hrun := Way.clean_run (w := ⟨some 0, []⟩) (origin_cases p) rfl fun c (hc : c ∈ inner p) =>
    inner_ne_root hc
  have hfirst : cleanComponents [] (components p) = cleanComponents (origin p).reverse (inner p) := by
    rw [components_eq_origin_append]
    rcases origin_cases p with h | h <;> rw [h]
    · rfl
    · rfl
  have hempty : (⟨some 0, []⟩ : Way).remains (origin p) = origin p := by simp [Way.remains]
  rw [hempty] at hrun
  exact hfirst.trans hrun

lemma components_render_inner (h : ∀ c ∈ cs, IsInner c) :
    components (render cs) = cs ∧ components (render (.root :: cs)) = .root :: cs := by
  obtain ⟨hrelative, -, habsolute⟩ := components_joinWith h
  refine ⟨?_, habsolute⟩
  have hrender : render cs = joinWith "/" (cs.map (·.text)) := by
    cases cs with
    | nil => rfl
    | cons c cs =>
      rcases h c List.mem_cons_self with rfl | ⟨n, rfl, -⟩ <;> rfl
  rw [hrender, hrelative]

lemma isName_of_mem_namesDown {n : String} (h : n ∈ namesDown p) : IsName n := by
  rcases Way.mem_down_foldl h with hn | hn
  · cases hn
  · exact isName_of_normal_mem hn

lemma components_clean (p : String) : components (clean p) =
    origin p ++ List.replicate (levelsUp p % 2) .parent ++ (namesDown p).map .normal := by
  have hinner : ∀ c ∈ List.replicate (levelsUp p % 2) .parent ++ (namesDown p).map .normal,
      IsInner c := by
    intro c hc
    rcases List.mem_append.mp hc with hc | hc
    · exact .inl (List.eq_of_mem_replicate hc)
    · obtain ⟨n, hn, rfl⟩ := List.mem_map.mp hc
      exact .inr ⟨n, rfl, isName_of_mem_namesDown hn⟩
  obtain ⟨hrelative, habsolute⟩ := components_render_inner hinner
  rw [clean, cleanComponents_components, List.append_assoc]
  rcases origin_cases p with h | h <;> rw [h]
  · exact hrelative
  · exact habsolute

lemma goFrom_parents (place : List String) (n : Nat) :
    goFrom place (List.replicate n .parent) = place.take (place.length - n) := by
  induction n generalizing place with
  | zero => simp [goFrom]
  | succ n ih =>
    rw [List.replicate_succ, goFrom, ih, List.dropLast_eq_take, List.take_take, List.length_take]
    congr 1
    omega

lemma goFrom_names (place names : List String) : goFrom place (names.map .normal) = place ++ names := by
  induction names generalizing place with
  | nil => simp [goFrom]
  | cons n names ih => rw [List.map_cons, goFrom, ih, List.append_assoc, List.singleton_append]

lemma goFrom_inner (place : List String) (p : String) :
    goFrom place (inner p) = place.take (place.length - levelsUp p) ++ namesDown p := by
  obtain ⟨levels, hup⟩ := Way.up_foldl (w := ⟨some 0, []⟩) (fun c (hc : c ∈ inner p) =>
    inner_ne_root hc) rfl
  have hway : (wayOf (inner p)).up = some levels := hup
  rw [goFrom_eq, Way.target, Way.kept, hway, levelsUp, hway]
  rfl

/-- Where a path leads from a directory. -/
lemma destination_eq (directory : List String) (p : String) : destination directory p =
    if isAbsolute p then namesDown p
    else directory.take (directory.length - levelsUp p) ++ namesDown p := by
  rw [destination, components_eq_origin_append, origin]
  split
  · rw [List.singleton_append, goFrom, goFrom_inner, List.take_nil, List.nil_append]
  · rw [List.nil_append, goFrom_inner]

lemma destination_clean (directory : List String) (p : String) : destination directory (clean p) =
    if isAbsolute p then namesDown p
    else directory.take (directory.length - levelsUp p % 2) ++ namesDown p := by
  rw [destination, components_clean, origin, List.append_assoc]
  split
  · rw [List.singleton_append, goFrom, goFrom_append, goFrom_parents, goFrom_names, List.take_nil,
      List.nil_append]
  · rw [List.nil_append, goFrom_append, goFrom_parents, goFrom_names]

lemma wayOf_parents_names (levels : Nat) (names : List String) :
    wayOf (List.replicate levels .parent ++ names.map .normal) = ⟨some levels, names⟩ := by
  have hup (n k : Nat) :
      (List.replicate n .parent).foldl Way.after ⟨some k, []⟩ = ⟨some (k + n), []⟩ := by
    induction n generalizing k with
    | zero => rfl
    | succ n ih =>
      rw [List.replicate_succ, List.foldl_cons]
      exact (ih (k + 1)).trans (by rw [Nat.add_right_comm, Nat.add_assoc])
  have hdown (w : Way) : (names.map .normal).foldl Way.after w = ⟨w.up, w.down ++ names⟩ := by
    induction names generalizing w with
    | nil => simp
    | cons n names ih => rw [List.map_cons, List.foldl_cons, ih]; simp [Way.after]
  rw [wayOf, List.foldl_append, hup, hdown, Nat.zero_add, List.nil_append]

lemma origin_append_inj {p q : String} {cs ds : List Component} (hcs : .root ∉ cs) (hds : .root ∉ ds)
    (h : origin p ++ cs = origin q ++ ds) : origin p = origin q ∧ cs = ds := by
  rcases origin_cases p with hp | hp <;> rcases origin_cases q with hq | hq <;> rw [hp, hq] at h ⊢
  · exact ⟨rfl, h⟩
  · exact absurd (by simp [show cs = .root :: ds from h]) hcs
  · exact absurd (by simp [show ds = .root :: cs from h.symm]) hds
  · exact ⟨rfl, (List.cons.inj h).2⟩

lemma origin_inner_clean (p : String) : origin (clean p) = origin p ∧
    inner (clean p) = List.replicate (levelsUp p % 2) .parent ++ (namesDown p).map .normal := by
  refine origin_append_inj (fun h => inner_ne_root h rfl) (by simp [List.mem_replicate]) ?_
  rw [← components_eq_origin_append, components_clean, List.append_assoc]

/-- Cleaning a second time changes nothing. -/
lemma clean_clean (p : String) : clean (clean p) = clean p := by
  obtain ⟨horigin, hinner⟩ := origin_inner_clean p
  have hup : levelsUp (clean p) % 2 = levelsUp p % 2 := by
    rw [levelsUp, hinner, wayOf_parents_names, Option.getD_some, Nat.mod_mod]
  have hdown : namesDown (clean p) = namesDown p := by rw [namesDown, hinner, wayOf_parents_names]
  rw [clean, cleanComponents_components, hup, hdown, horigin, ← cleanComponents_components, ← clean]

/-- What cleaning leaves of a path: the root, at most one double point, and then names. It leads to the
same place from the root; from any other directory it does if at most one level is gone up, or if the
directory has no more levels than the double points that are left. -/
theorem clean_resolves (p : String) :
    components (clean p) =
      origin p ++ List.replicate (levelsUp p % 2) .parent ++ (namesDown p).map .normal ∧
    .current ∉ components (clean p) ∧
    (.parent ∈ components (clean p) ↔ levelsUp p % 2 = 1) ∧
    clean (clean p) = clean p ∧
    (∀ directory, destination directory (clean p) = destination directory p ↔
      isAbsolute p = true ∨ levelsUp p ≤ 1 ∨ directory.length ≤ levelsUp p % 2) ∧
    ((∀ directory, destination directory (clean p) = destination directory p) ↔
      isAbsolute p = true ∨ levelsUp p ≤ 1) := by
  have hplace (directory : List String) :
      destination directory (clean p) = destination directory p ↔
        isAbsolute p = true ∨ levelsUp p ≤ 1 ∨ directory.length ≤ levelsUp p % 2 := by
    rw [destination_clean, destination_eq]
    split
    · next habs => simp [habs]
    · next habs =>
      have hlength : directory.take (directory.length - levelsUp p % 2) =
          directory.take (directory.length - levelsUp p) ↔
            directory.length - levelsUp p % 2 = directory.length - levelsUp p := by
        rw [List.take_eq_take_iff]
        omega
      rw [List.append_left_inj, hlength]
      simp only [habs, Bool.false_eq_true, false_or]
      omega
  have horigin : ∀ c ∈ origin p, c = .root := by
    rcases origin_cases p with h | h <;> rw [h] <;> simp
  refine ⟨components_clean p, ?_, ?_, clean_clean p, hplace, ?_⟩
  · rw [components_clean]
    have hcurrent : .current ∉ origin p := fun h => by cases horigin _ h
    simp [hcurrent, List.mem_replicate]
  · rw [components_clean]
    have hparent : .parent ∉ origin p := fun h => by cases horigin _ h
    simp only [List.mem_append, hparent, List.mem_replicate, List.mem_map, false_or, and_true,
      reduceCtorEq, and_false, exists_false, or_false]
    omega
  constructor
  · intro hall
    rcases (hplace (List.replicate (levelsUp p + 2) "")).mp (hall _) with habs | hlevels | hlength
    · exact .inl habs
    · exact .inr hlevels
    · rw [List.length_replicate] at hlength
      omega
  · exact fun h directory => (hplace directory).mpr (h.imp_right .inl)

example : clean "../../a" = "a" ∧ clean "/../.." = "/" ∧ clean "/.." = "/.." := by decide

end JavaAtlas.Path
