import JavaAtlas.Proofs.MadeDirectories
import JavaAtlas.Proofs.ModuleTrees
import JavaAtlas.Proofs.ReportedPaths

/-! Which modules the walk comes to. A directory that is met first where the walk ends is marked as
known and its modules are not read; they are missed unless another way leads to them, however near
to the root they are. Nothing else within the depth of the walk is missed. -/

namespace JavaAtlas

open Text FileTree

namespace FileTree

variable {fs : FileTree} {p q t : String} {loc : Location}

/-- Where a path leads that goes on from a directory, with the links that are left there. -/
lemma exists_locate_join (hl : fs.locate p = .ok loc) : ∃ b ≤ 40, ∀ t, t ≠ "" →
    Path.isAbsolute t = false → fs.reach false (Path.join p t) = fs.follow false b loc (namesOf t) := by
  obtain ⟨-, hfollow⟩ := locate_follow hl
  have hf := fs.follows_follow false 40 (fs.startOf p) (Path.names p)
  rw [hfollow] at hf
  obtain ⟨b, hleads⟩ := hf.leads_of_arrived
  refine ⟨b, hleads.left_le, fun t hne habs => ?_⟩
  have hstart : fs.startOf (Path.join p t) = fs.startOf p := by
    rw [startOf, startOf, Path.isAbsolute_join habs]
  rw [reach_eq (Path.join_ne_empty hne), hstart, namesOf_join habs hne,
    hleads.follow_append false (namesOf_ne_nil hne habs)]

/-- From a path one gets as far as from its true location, unless the links on the way to it leave
too few. -/
lemma sameBelow_pathOf (hw : fs.WellFormed) (hl : fs.locate p = .ok loc) (hd : fs.isDirAt loc = true)
    (hspared : ∀ t, fs.locate (Path.join p t) = .error .tooManyLinks →
      fs.locate (Path.join (pathOf loc) t) = .error .tooManyLinks) :
    fs.SameBelow p (pathOf loc) := by
  intro t hne
  cases habs : Path.isAbsolute t with
  | true => rw [Path.join, Path.join, if_pos habs, if_pos habs]
  | false =>
    obtain ⟨b, hb, hjoin⟩ := exists_locate_join hl
    have hplain : fs.reach false (Path.join (pathOf loc) t) = fs.follow false 40 loc (namesOf t) := by
      have hin := names_pathOf fun n hm => (hw.isName_of_some (isDirAt_iff.mp hd) n hm).1
      rw [reach_eq (Path.join_ne_empty hne), startOf, Path.isAbsolute_join habs,
        if_pos (isAbsolute_pathOf loc), namesOf_join habs hne, hin]
      exact follow_down hw (show fs.isDirAt ([] ++ loc) = true from hd)
    have hfollows := fs.follows_follow false 40 loc (namesOf t)
    rw [← hplain] at hfollows
    rcases hfollows.fewer hb with h | h
    · rw [locate, locate, hjoin t hne habs, h.eq_follow]
    · have hspent : fs.locate (Path.join p t) = .error .tooManyLinks := by
        rw [locate, hjoin t hne habs, h.eq_follow]
      rw [hspent, hspared t hspent]

/-- Without links there are never too many. -/
lemma Follows.ne_tooManyLinks (hnone : ∀ e ∈ fs.entries, ∀ target, e.2 ≠ .link target)
    {S : Set Location} {keepLast : Bool} {b : Nat} {ns : List String} {r : Walk}
    (h : fs.Follows S keepLast b loc ns r) : r ≠ .failed .tooManyLinks := by
  induction h with
  | spent _ _ _ _ _ he => exact absurd rfl (hnone _ (mem_entries (by simp) he) _)
  | stay _ _ _ ih | up _ _ _ ih | link _ _ _ _ _ _ _ ih | enter _ _ _ _ _ _ ih => exact ih
  | _ => exact nofun

lemma locate_ne_tooManyLinks (hnone : ∀ e ∈ fs.entries, ∀ target, e.2 ≠ .link target) (p : String) :
    fs.locate p ≠ .error .tooManyLinks := by
  by_cases hne : p = ""
  · subst hne
    intro h
    cases h
  · have hf := fs.follows_follow false 40 (fs.startOf p) (namesOf p)
    rw [locate, reach_eq hne]
    generalize fs.follow false 40 (fs.startOf p) (namesOf p) = r at hf
    cases r with
    | arrived | missing =>
      intro h
      cases h
    | linked => exact absurd rfl hf.not_linked
    | failed e =>
      rintro ⟨⟩
      exact hf.ne_tooManyLinks hnone rfl

end FileTree

namespace Build

variable {fs : FileTree} {path dir above name place root : String}
variable {names known known₁ known₂ known' t : List String} {rows below rest : List (List String)}
variable {depth n : Nat}

/-- The modules that are looked for below a directory. -/
def modulesOf (fs : FileTree) (dir : String) : List String :=
  if isMultiModule fs dir then listModules fs dir else []

lemma modulesOf_subset : modulesOf fs dir ⊆ listModules fs dir := by
  rw [modulesOf]
  split
  · exact List.Subset.refl _
  · exact List.nil_subset _

lemma mem_modulesOf (h : name ∈ modulesOf fs dir) :
    name ≠ "" ∧ fs.isDir (Path.join dir name) = true := mem_listModules (modulesOf_subset h)

lemma modulesOf_congr {p q : String} (h : fs.SameBelow p q) : modulesOf fs p = modulesOf fs q := by
  have hmarker : mavenMarker ≠ "" := by decide
  have hkind : detect fs p = detect fs q := by
    have hgradle : ∀ marker ∈ gradleMarkers, marker ≠ "" := by decide
    have hany : (gradleMarkers.any fun marker => fs.isFile (Path.join p marker)) =
        gradleMarkers.any fun marker => fs.isFile (Path.join q marker) := by
      rw [Bool.eq_iff_iff, List.any_eq_true, List.any_eq_true]
      exact exists_congr fun marker => and_congr_right fun hm => by rw [h.isFile_eq (hgradle _ hm)]
    rw [detect, detect, h.isFile_eq hmarker, hany]
  rw [modulesOf, modulesOf, isMultiModule, isMultiModule, hkind, descriptor?_eq_of_sameBelow h,
    listModules_eq_of_sameBelow h]

/-- Where a chain of references leads from a directory. -/
def down (dir : String) (trail : List String) : String := trail.foldl Path.join dir

lemma down_concat : down dir (t ++ [name]) = Path.join (down dir t) name := by
  rw [down, List.foldl_append]
  rfl

lemma collect_modulesOf (fs : FileTree) (depth : Nat) (dir above : String) (known : List String) :
    collect fs (depth + 1) dir above known =
      (modulesOf fs dir).foldl (enter fs depth dir above) (known, []) := by
  rw [collect_succ, modulesOf]
  cases isMultiModule fs dir <;> rfl

/-- What a walk of some depth does with a list of modules of a directory: the trails of names on
which it comes to new places, and the places that are known before and after. -/
structure Explores (fs : FileTree) (depth : Nat) (dir : String) (names known : List String)
    (rows : List (List String)) (known' : List String) : Prop where
  known_eq : known' = (rows.map fun r => placeOf fs (down dir r)).reverse ++ known
  length : ∀ r ∈ rows, r ≠ [] ∧ r.length ≤ depth
  listed : ∀ r name, r ++ [name] ∈ rows →
    (r = [] ∧ name ∈ names) ∨ (r ∈ rows ∧ name ∈ modulesOf fs (down dir r))
  tops : 0 < depth → ∀ name ∈ names, placeOf fs (Path.join dir name) ∈ known'
  nested : ∀ r ∈ rows, r.length < depth → ∀ name ∈ modulesOf fs (down dir r),
    placeOf fs (Path.join (down dir r) name) ∈ known'

namespace Explores

lemma subset (h : Explores fs depth dir names known rows known') : known ⊆ known' := by
  rw [h.known_eq]
  exact List.subset_append_right _ _

lemma none : Explores fs depth dir [] known [] known :=
  ⟨rfl, nofun, nofun, nofun, nofun⟩

lemma ended : Explores fs 0 dir names known [] known :=
  ⟨rfl, nofun, nofun, nofun, nofun⟩

lemma passed (h : Explores fs depth dir names known rows known')
    (hk : placeOf fs (Path.join dir name) ∈ known) :
    Explores fs depth dir (name :: names) known rows known' where
  known_eq := h.known_eq
  length := h.length
  listed r last hr := (h.listed r last hr).imp_left fun ⟨he, hm⟩ => ⟨he, List.mem_cons_of_mem _ hm⟩
  tops hd other ho := by
    rcases List.mem_cons.mp ho with rfl | ho
    · exact h.subset hk
    · exact h.tops hd other ho
  nested := h.nested

lemma entered (hb : Explores fs depth (Path.join dir name) (modulesOf fs (Path.join dir name))
      (placeOf fs (Path.join dir name) :: known) below known₁)
    (hr : Explores fs (depth + 1) dir names known₁ rest known₂) :
    Explores fs (depth + 1) dir (name :: names) known ([name] :: below.map (name :: ·) ++ rest)
      known₂ where
  known_eq := by
    rw [hr.known_eq, hb.known_eq]
    simp [down, Function.comp_def]
  length r hm := by
    obtain rfl | ⟨b, hb', rfl⟩ | hm := Collects.mem_entered hm
    · simp
    · exact ⟨List.cons_ne_nil _ _, Nat.succ_le_succ (hb.length b hb').2⟩
    · exact hr.length r hm
  listed r last hm := by
    have hself : [name] ∈ [name] :: below.map (name :: ·) ++ rest := List.mem_cons_self
    have hbelow (b : List String) (hb : b ∈ below) :
        name :: b ∈ [name] :: below.map (name :: ·) ++ rest :=
      List.mem_cons_of_mem _ (List.mem_append_left _ (List.mem_map_of_mem hb))
    obtain he | ⟨b, hb', he⟩ | hm := Collects.mem_entered hm
    · cases r with
      | nil =>
        obtain rfl := List.singleton_inj.mp he
        exact .inl ⟨rfl, List.mem_cons_self⟩
      | cons first r => exact absurd (List.cons.inj he).2 (by simp)
    · cases r with
      | nil => exact absurd (List.cons.inj he).2.symm (hb.length b hb').1
      | cons first r =>
        obtain ⟨rfl, rfl⟩ := List.cons.inj he
        right
        obtain ⟨rfl, hl⟩ | ⟨hr', hl⟩ := hb.listed r last hb'
        · exact ⟨hself, hl⟩
        · exact ⟨hbelow r hr', hl⟩
    · obtain ⟨rfl, hl⟩ | ⟨hr', hl⟩ := hr.listed r last hm
      · exact .inl ⟨rfl, List.mem_cons_of_mem _ hl⟩
      · exact .inr ⟨List.mem_append_right _ hr', hl⟩
  tops _ other ho := by
    rcases List.mem_cons.mp ho with rfl | ho
    · exact hr.subset (hb.subset List.mem_cons_self)
    · exact hr.tops (Nat.succ_pos depth) other ho
  nested r hm hlt last hl := by
    obtain rfl | ⟨b, hb', rfl⟩ | hm := Collects.mem_entered hm
    · exact hr.subset (hb.tops (by simpa using hlt) last hl)
    · exact hr.subset (hb.nested b hb' (by simpa using hlt) last hl)
    · exact hr.nested r hm hlt last hl

/-- What a directory lists is known when the walk comes to it before its end. -/
lemma closed (h : Explores fs depth dir (modulesOf fs dir) known rows known') (ht : t ∈ [] :: rows)
    (hlt : t.length < depth) (hm : name ∈ modulesOf fs (down dir t)) :
    placeOf fs (down dir (t ++ [name])) ∈ known' := by
  rw [down_concat]
  rcases List.mem_cons.mp ht with rfl | ht
  · exact h.tops hlt name hm
  · exact h.nested t ht hlt name hm

end Explores

/-- The modules of a directory are walked one after the other, each to the depth that is left. -/
lemma explores_foldl (hw : ∀ dir above known, ∃ rows known',
      Explores fs depth dir (modulesOf fs dir) known rows known' ∧
        collect fs depth dir above known = (known', rows.map (shownFrom above)))
    (dir above : String) (names known found : List String) :
    ∃ rows known', Explores fs (depth + 1) dir names known rows known' ∧
      names.foldl (enter fs depth dir above) (known, found) =
        (known', found ++ rows.map (shownFrom above)) := by
  induction names generalizing known found with
  | nil => exact ⟨[], known, .none, by simp⟩
  | cons name names ih =>
    rw [List.foldl_cons]
    by_cases hk : placeOf fs (Path.join dir name) ∈ known
    · obtain ⟨rows, known', he, heq⟩ := ih known found
      refine ⟨rows, known', he.passed hk, ?_⟩
      rw [enter_of_mem hk, heq]
    · obtain ⟨below, known₁, hbelow, hcollect⟩ := hw (Path.join dir name) (nameBelow above name)
        (placeOf fs (Path.join dir name) :: known)
      rw [enter_of_not_mem hk hcollect]
      obtain ⟨rest, known₂, hrest, heq⟩ := ih known₁ _
      refine ⟨_, known₂, hbelow.entered hrest, ?_⟩
      rw [heq]
      simp [shownFrom]

lemma explores_collect (fs : FileTree) (depth : Nat) (dir above : String) (known : List String) :
    ∃ rows known', Explores fs depth dir (modulesOf fs dir) known rows known' ∧
      collect fs depth dir above known = (known', rows.map (shownFrom above)) := by
  induction depth generalizing dir above known with
  | zero => exact ⟨[], known, .ended, rfl⟩
  | succ depth ih =>
    obtain ⟨rows, known', he, heq⟩ := explores_foldl ih dir above (modulesOf fs dir) known []
    exact ⟨rows, known', he, by rw [collect_modulesOf, heq, List.nil_append]⟩

/-- A place to which a chain of so many references leads, each from a directory that is built of
modules. -/
inductive Reached (fs : FileTree) (root : String) : Nat → String → Prop
  | root : Reached fs root 0 root
  | next {n : Nat} {place name : String} : Reached fs root n place → name ∈ modulesOf fs place →
      Reached fs root (n + 1) (placeOf fs (Path.join place name))

/-- The chains of names that a walk follows, each from a directory to one that its descriptor
lists. -/
structure Chained (fs : FileTree) (path : String) (trails : List (List String)) : Prop where
  length : ∀ t ∈ trails, t ≠ [] ∧ t.length ≤ maxDepth
  listed : ∀ t name, t ++ [name] ∈ trails →
    (t = [] ∨ t ∈ trails) ∧ name ∈ modulesOf fs (down path t)

/-- The places that are known after a walk along these chains. -/
def placesOf (fs : FileTree) (path : String) (trails : List (List String)) : List String :=
  ([] :: trails).map fun t => placeOf fs (down path t)

/-- The path that is listed for a chain has the names on the way down. -/
lemma alike_down (ht : ∀ name ∈ t, name ≠ "" ∧ Path.isAbsolute name = false) :
    Path.Alike (down path t) (Path.join path (shownFrom "" t)) ∧ IsShown (shownFrom "" t) ∧
      (t ≠ [] → shownFrom "" t ≠ "") := by
  induction t using List.reverseRecOn with
  | nil =>
    have hempty : Path.isAbsolute "" = false := by decide
    refine ⟨⟨(Path.isAbsolute_join hempty).symm, ?_⟩, ⟨hempty, by decide⟩, fun h => absurd rfl h⟩
    change Path.names path = Path.names (Path.join path "")
    rw [Path.names_join hempty, show Path.names "" = [] by decide, List.append_nil]
  | append_singleton t name ih =>
    obtain ⟨halike, hshown, -⟩ := ih fun n hn => ht n (List.mem_append_left _ hn)
    obtain ⟨hne, habs⟩ := ht name (by simp)
    have hlast : shownFrom "" (t ++ [name]) = nameBelow (shownFrom "" t) name := by
      rw [shownFrom, List.foldl_append]
      rfl
    obtain ⟨hbelow, hbne, -⟩ := hshown.nameBelow hne habs
    rw [down_concat, hlast]
    exact ⟨alike_child halike hshown hne habs, hbelow, fun _ => hbne⟩

section Complete

variable {trails : List (List String)}

namespace Chained

lemma forall_names (h : Chained fs path trails) {P : String → Prop}
    (hP : ∀ dir, ∀ name ∈ modulesOf fs dir, P name) (ht : t ∈ [] :: trails) : ∀ name ∈ t, P name := by
  induction t using List.reverseRecOn with
  | nil => exact nofun
  | append_singleton t last ih =>
    obtain ⟨hbefore, hm⟩ := h.listed t last ((List.mem_cons.mp ht).resolve_left (by simp))
    intro name hn
    rcases List.mem_append.mp hn with hn | hn
    · exact ih (List.mem_cons.mpr hbefore) name hn
    · exact List.mem_singleton.mp hn ▸ hP _ last hm

lemma isDir_down (h : Chained fs path trails) (ht : t ∈ trails) : fs.isDir (down path t) = true := by
  obtain ⟨t, name, rfl⟩ := (List.eq_nil_or_concat' t).resolve_left (h.length t ht).1
  rw [down_concat]
  exact (mem_modulesOf (h.listed t name ht).2).2

/-- Names that are not absolute make up a path to the module. -/
lemma placeOf_shown (h : Chained fs path trails) (ht : t ∈ trails)
    (habs : ∀ name ∈ t, Path.isAbsolute name = false) :
    placeOf fs (Path.join path (shownFrom "" t)) = placeOf fs (down path t) := by
  have hnames := h.forall_names (fun _ _ hm => (mem_modulesOf hm).1) (List.mem_cons_of_mem [] ht)
  obtain ⟨halike, hshown, hne⟩ := alike_down fun n hn => ⟨hnames n hn, habs n hn⟩
  have hne := hne (h.length t ht).1
  have hslash : (Path.join path (shownFrom "" t)).toList.getLast? ≠ some '/' := by
    rw [Path.getLast?_join hne]
    exact hshown.slash
  obtain ⟨loc, hloc⟩ := exists_locate_of_isDir (h.isDir_down ht)
  rw [placeOf, placeOf, canonicalize, canonicalize, hloc,
    locate_of_alike halike hloc (Path.join_ne_empty hne) hslash]
  rfl

end Chained

lemma placeOf_join_congr {p q : String} (h : fs.SameBelow p q) (hm : name ∈ modulesOf fs p) :
    placeOf fs (Path.join p name) = placeOf fs (Path.join q name) := by
  obtain ⟨hne, hdir⟩ := mem_modulesOf hm
  obtain ⟨loc, hloc⟩ := exists_locate_of_isDir hdir
  rw [placeOf, placeOf, canonicalize, canonicalize, ← h name hne, hloc]
  rfl

/-- One reference more: the same from the path that was walked and from its true location. -/
lemma Reached.snoc (h : Reached fs root n (placeOf fs (down path t)))
    (hs : fs.SameBelow (down path t) (placeOf fs (down path t)))
    (hm : name ∈ modulesOf fs (down path t)) :
    Reached fs root (n + 1) (placeOf fs (down path (t ++ [name]))) := by
  rw [down_concat, placeOf_join_congr hs hm]
  rw [modulesOf_congr hs] at hm
  exact h.next hm

lemma Chained.reached (h : Chained fs path trails)
    (hs : ∀ t ∈ [] :: trails, fs.SameBelow (down path t) (placeOf fs (down path t)))
    (ht : t ∈ [] :: trails) :
    Reached fs (placeOf fs path) t.length (placeOf fs (down path t)) := by
  induction t using List.reverseRecOn with
  | nil => exact .root
  | append_singleton t name ih =>
    have hmem : t ++ [name] ∈ trails := (List.mem_cons.mp ht).resolve_left (by simp)
    obtain ⟨hbefore, hm⟩ := h.listed t name hmem
    have hbefore : t ∈ [] :: trails := List.mem_cons.mpr hbefore
    rw [List.length_append]
    exact (ih hbefore).snoc (hs t hbefore) hm

end Complete

/-- The modules below a tree are listed by the chains that lead to them. Where names lead on from
these as from their true locations, as long as there are not too many links on the way, a directory
that some chain of at most `maxDepth` references leads to is known, or it is reached through one that
was met at that depth and not read. All are known exactly when the directories met there list only
known ones, as far as some chain leaves depth for that. -/
theorem moduleTree_complete_iff (fs : FileTree) (path : String) :
    ∃ trails, moduleTree fs path = trails.map (shownFrom "") ∧ Chained fs path trails ∧
      (∀ t ∈ trails, (∀ name ∈ t, Path.isAbsolute name = false) →
        placeOf fs (Path.join path (shownFrom "" t)) = placeOf fs (down path t)) ∧
      ((∀ t ∈ [] :: trails, fs.SameBelow (down path t) (placeOf fs (down path t))) →
        (∀ t ∈ trails, Reached fs (placeOf fs path) t.length (placeOf fs (down path t))) ∧
        (∀ n ≤ maxDepth, ∀ place, Reached fs (placeOf fs path) n place →
          place ∈ placesOf fs path trails ∨
          ∃ t ∈ trails, t.length = maxDepth ∧ ∃ m < n,
            Reached fs (placeOf fs path) m (placeOf fs (down path t)) ∧
            Reached fs (placeOf fs (down path t)) (n - m) place) ∧
        ((∀ n ≤ maxDepth, ∀ place, Reached fs (placeOf fs path) n place →
            place ∈ placesOf fs path trails) ↔
          ∀ t ∈ trails, t.length = maxDepth → ∀ n < maxDepth,
            Reached fs (placeOf fs path) n (placeOf fs (down path t)) →
            ∀ name ∈ modulesOf fs (down path t),
              placeOf fs (down path (t ++ [name])) ∈ placesOf fs path trails)) := by
  obtain ⟨trails, known, he, heq⟩ := explores_collect fs maxDepth path "" [placeOf fs path]
  have hchained : Chained fs path trails := by
    refine ⟨he.length, fun t name hm => ?_⟩
    obtain ⟨rfl, hl⟩ | ⟨ht, hl⟩ := he.listed t name hm
    · exact ⟨.inl rfl, hl⟩
    · exact ⟨.inr ht, hl⟩
  have hknown (place : String) : place ∈ known ↔ place ∈ placesOf fs path trails := by
    rw [he.known_eq, placesOf]
    simp [or_comm, down]
  refine ⟨trails, by rw [moduleTree, heq], hchained, fun t => hchained.placeOf_shown, fun hs => ?_⟩
  have hnext (t : List String) (ht : t ∈ [] :: trails) (name : String)
      (hm : name ∈ modulesOf fs (placeOf fs (down path t))) :
      placeOf fs (Path.join (placeOf fs (down path t)) name) ∈ placesOf fs path trails ∨
        t ∈ trails ∧ t.length = maxDepth := by
    rw [← modulesOf_congr (hs t ht)] at hm
    rw [← placeOf_join_congr (hs t ht) hm, ← down_concat]
    by_cases hlt : t.length < maxDepth
    · exact .inl ((hknown _).mp (he.closed ht hlt hm))
    · obtain rfl | ht := List.mem_cons.mp ht
      · exact absurd (by decide) hlt
      · exact .inr ⟨ht, le_antisymm (he.length t ht).2 (not_lt.mp hlt)⟩
  refine ⟨fun t ht => hchained.reached hs (List.mem_cons_of_mem _ ht), fun n hn place h => ?_,
    fun hall t ht hl n hn h name hm => ?_, fun hall n hn place h => ?_⟩
  · induction h with
    | root => exact .inl List.mem_cons_self
    | @next n place name h hm ih =>
      rcases ih (Nat.le_of_succ_le hn) with hk | ⟨t, ht, hl, m, hlt, hto, hfrom⟩
      · obtain ⟨t, ht, rfl⟩ := List.mem_map.mp hk
        rcases hnext t ht name hm with hknown | ⟨ht, hl⟩
        · exact .inl hknown
        · refine .inr ⟨t, ht, hl, n, Nat.lt_succ_self n, h, ?_⟩
          rw [Nat.add_sub_cancel_left]
          exact .next .root hm
      · refine .inr ⟨t, ht, hl, m, Nat.lt_succ_of_lt hlt, hto, ?_⟩
        rw [Nat.succ_sub hlt.le]
        exact hfrom.next hm
  · exact hall (n + 1) hn _ (h.snoc (hs t (List.mem_cons_of_mem _ ht)) hm)
  · induction h with
    | root => exact List.mem_cons_self
    | @next n place name h hm ih =>
      obtain ⟨t, ht, rfl⟩ := List.mem_map.mp (ih (Nat.le_of_succ_le hn))
      rcases hnext t ht name hm with hk | ⟨ht', hl⟩
      · exact hk
      · have hsame := hs t ht
        rw [← modulesOf_congr hsame] at hm
        rw [← placeOf_join_congr hsame hm, ← down_concat]
        exact hall t ht' hl n hn h name hm

lemma sameBelow_of_no_links (hw : fs.WellFormed)
    (hnone : ∀ e ∈ fs.entries, ∀ target, e.2 ≠ .link target) (hd : fs.isDir path = true) :
    fs.SameBelow path (placeOf fs path) := by
  obtain ⟨loc, hloc, hat⟩ := FileTree.locate_of_isDir hd
  have hplace : placeOf fs path = pathOf loc := by
    rw [placeOf, canonicalize, hloc]
    rfl
  rw [hplace]
  exact sameBelow_pathOf hw hloc hat fun t h => absurd h (locate_ne_tooManyLinks hnone _)

/-- Whether no file of the tree lists a module by an absolute path. -/
def listsRelative (fs : FileTree) : Bool :=
  fs.entries.all fun e =>
    match e.2 with
    | .file content _ => (decodeText? content).all fun text =>
        (allFrom moduleEntry? text.toList).all fun name => !Path.isAbsolute name
    | _ => true

lemma isAbsolute_of_listsRelative (h : listsRelative fs = true) (hm : name ∈ listModules fs dir) :
    Path.isAbsolute name = false := by
  obtain ⟨loc, content, executable, text, he, ht, hname⟩ := exists_file_of_mem_listModules hm
  have hfile := List.all_eq_true.mp h _ he
  simp only [ht, Option.all_some, List.all_eq_true] at hfile
  simpa using hfile name hname

/-- A tree where the first chain that leads to `x` has eight references. -/
def farTree : FileTree where
  entries := [(["t"], .dir), (["t", "a"], .dir), (["t", "b"], .dir), (["t", "c"], .dir),
    (["t", "d"], .dir), (["t", "e"], .dir), (["t", "f"], .dir), (["t", "g"], .dir),
    (["t", "x"], .dir), (["t", "x", "y"], .dir),
    (["t", "pom.xml"], .file (encodeText (listing ["a", "x"])) false),
    (["t", "a", "pom.xml"], .file (encodeText (listing ["../b"])) false),
    (["t", "b", "pom.xml"], .file (encodeText (listing ["../c"])) false),
    (["t", "c", "pom.xml"], .file (encodeText (listing ["../d"])) false),
    (["t", "d", "pom.xml"], .file (encodeText (listing ["../e"])) false),
    (["t", "e", "pom.xml"], .file (encodeText (listing ["../f"])) false),
    (["t", "f", "pom.xml"], .file (encodeText (listing ["../g"])) false),
    (["t", "g", "pom.xml"], .file (encodeText (listing ["../x"])) false),
    (["t", "x", "pom.xml"], .file (encodeText (listing ["y"])) false)]
  cwd := []

/-- What is listed for the tree: `x` by its longest chain, and not `y`. -/
def farModules : List String :=
  ["a", "a/../b", "a/../b/../c", "a/../b/../c/../d", "a/../b/../c/../d/../e",
    "a/../b/../c/../d/../e/../f", "a/../b/../c/../d/../e/../f/../g",
    "a/../b/../c/../d/../e/../f/../g/../x"]

theorem moduleTree_complete_iff_farTree : moduleTree farTree "/t" = farModules ∧
    Reached farTree "/t" 2 "/t/x/y" ∧
    ∃ trails, trails.map (shownFrom "") = farModules ∧ "/t/x/y" ∉ placesOf farTree "/t" trails ∧
      ∃ t ∈ trails, t.length = maxDepth ∧ ∃ m < 2,
        Reached farTree "/t" m (placeOf farTree (down "/t" t)) ∧
        Reached farTree (placeOf farTree (down "/t" t)) (2 - m) "/t/x/y" := by
  have htree : moduleTree farTree "/t" = farModules := by decide +kernel
  have hreached : Reached farTree "/t" 2 "/t/x/y" := by
    have hx : "x" ∈ modulesOf farTree "/t" := by decide +kernel
    have hy : "y" ∈ modulesOf farTree "/t/x" := by decide +kernel
    exact (Reached.root.next hx).next hy
  have hwf : farTree.WellFormed := by decide +kernel
  have hnone : ∀ e ∈ farTree.entries, ∀ target, e.2 ≠ .link target := by
    simp [farTree]
  have hrel : listsRelative farTree = true := by
    simp only [listsRelative, farTree, List.all_cons, decodeText?_encodeText, Option.all_some]
    decide +kernel
  have hroot : placeOf farTree "/t" = "/t" := by decide +kernel
  obtain ⟨trails, heq, hchained, hshown, hcomplete⟩ := moduleTree_complete_iff farTree "/t"
  obtain ⟨-, hnear, -⟩ := hcomplete fun t ht => by
    refine sameBelow_of_no_links hwf hnone ?_
    rcases List.mem_cons.mp ht with rfl | ht
    · decide +kernel
    · exact hchained.isDir_down ht
  have hmissed : "/t/x/y" ∉ placesOf farTree "/t" trails := by
    have hplaces : ∀ x ∈ farModules, placeOf farTree (Path.join "/t" x) ≠ "/t/x/y" := by
      decide +kernel
    intro hm
    obtain ⟨t, ht, he⟩ := List.mem_map.mp hm
    rcases List.mem_cons.mp ht with rfl | ht'
    · exact absurd (hroot.symm.trans he) (by decide)
    · have habs := hchained.forall_names (P := fun name => Path.isAbsolute name = false)
        (fun _ _ hn => isAbsolute_of_listsRelative hrel (modulesOf_subset hn)) ht
      rw [← hshown t ht' habs] at he
      refine hplaces _ ?_ he
      rw [← htree, heq]
      exact List.mem_map_of_mem ht'
  rw [hroot] at hnear
  refine ⟨htree, hreached, trails, heq.symm.trans htree, hmissed, ?_⟩
  exact (hnear 2 (by decide) _ hreached).resolve_left hmissed

end Build

end JavaAtlas
