import JavaAtlas.Proofs.BoundProjects
import JavaAtlas.Proofs.Repetitions

/-! What is read of a project: the way through each of its links into the source tree. All that is
found there depends on the tree and on the links that are left for the way, and on nothing else that
the directory of the session holds. -/

namespace JavaAtlas

open Text FileTree

namespace Sources

lemma filesAt_paths {fs : FileTree} (hw : fs.WellFormed) {fuel : Nat} {around : List Location}
    {path p : String} {loc : Location} (h : p ∈ filesAt fs fuel around path loc) :
    ∃ ns, p = Path.under path ns ∧ ∀ n ∈ ns, IsName n := by
  induction fuel generalizing around path loc with
  | zero => simp [filesAt] at h
  | succ fuel ih =>
    rw [filesAt] at h
    split at h
    · obtain ⟨name, hn, h⟩ := List.mem_flatMap.mp h
      have hname := isName_of_mem_namesAt hw (List.mem_of_mem_filter hn)
      have hcons {l : Location} (h : p ∈ filesAt fs fuel (loc :: around) (Path.join path name) l) :
          ∃ ns, p = Path.under path ns ∧ ∀ n ∈ ns, IsName n := by
        obtain ⟨ns, rfl, hns⟩ := ih h
        exact ⟨name :: ns, rfl, by simpa using ⟨hname, hns⟩⟩
      dsimp only at h
      split at h
      · split at h
        · split at h
          · cases h
          · exact hcons h
        · cases h
      · exact hcons h
    · split at h
      · exact ⟨[], List.mem_singleton.mp h, by simp⟩
      · cases h
    · cases h

end Sources

namespace Workspace

variable {before files files' : FileTree} {home : Location} {V : Set Location} {session : Session}
variable {bound : BoundProject} {r : LinkedRoot} {ns : List String} {b : Nat}

/-- Where a path through a link leads when so many links are left for it. -/
def through (before : FileTree) (b : Nat) (r : LinkedRoot) (ns : List String) : Walk :=
  if 255 < r.name.utf8ByteSize then .failed .nameTooLong
  else match b with
    | 0 => .failed .tooManyLinks
    | b + 1 => before.follow false b [] (namesOf r.external ++ ns)

/-- The source directories of a project lie apart from the session, each behind a link of its own. -/
structure Apart (before : FileTree) (home : Location) (V : Set Location) (session : Session)
    (bound : BoundProject) : Prop where
  secluded : before.Secluded home V
  clear : ∀ r ∈ bound.roots, before.Clear home V r.external
  isName : IsName bound.name
  plain : ∀ r ∈ bound.roots, IsPlain r.name
  link : ∀ r ∈ bound.roots,
    r.link = Path.under session.path ["projects", bound.name, "links", r.name]
  nodup : (bound.roots.map (·.name)).Nodup
  sourceRoots : Project.sourceRoots ⟨bound.name, bound.location, bound.output, bound.classpath, none⟩ =
    bound.roots.map (·.link)

lemma sourceRoots_linkPlan (dir : String) (taken : List String) (entries : List ClasspathEntry) :
    (linkPlan dir taken entries).2.filterMap (fun e =>
      match e with
      | .source root => some root.path
      | _ => none) = (linkPlan dir taken entries).1.map (·.link) := by
  induction entries generalizing taken with
  | nil => rfl
  | cons entry rest ih =>
    cases entry with
    | source root => simp [linkPlan, ih]
    | container | library => simp [linkPlan, ih]

lemma apart_planned (hs : before.Secluded home V) {entries : List ClasspathEntry}
    (hc : ∀ root, .source root ∈ entries → before.Clear home V root.path) (session : Session)
    (treeRoot : String) : Apart before home V session (planned session treeRoot entries) := by
  refine ⟨hs, fun r hr => ?_, (isPlain_projectName treeRoot).isName, fun r hr => (linkPlan_mem hr).1,
    fun r hr => (linkPlan_mem hr).2.2.1.trans rfl, linkPlan_nodup _ _ _, sourceRoots_linkPlan _ _ _⟩
  obtain ⟨-, -, -, root, hroot, he⟩ := linkPlan_mem hr
  exact he ▸ hc root hroot

lemma Apart.isName_link (h : Apart before home V session bound) (hr : r ∈ bound.roots)
    (hn : ∀ n ∈ ns, IsName n) : ∀ n ∈ ["projects", bound.name, "links", r.name] ++ ns, IsName n :=
  fun n hm => (List.mem_append.mp hm).elim
    (Workspace.isName_link h.isName (h.plain r hr).isName n) (hn n)

/-- Where a path through a link of the project leads, whatever else is in the session. -/
lemma Apart.reach_link (h : Apart before home V session bound) (ha : Anchored before session.path home) :
    ∃ b ≤ 40, ∀ files, Stands before home session bound files → ∀ r ∈ bound.roots, ∀ ns,
      (∀ n ∈ ns, IsName n) → files.reach false (Path.under r.link ns) = through before b r ns := by
  obtain ⟨b, hb, hreach⟩ := ha.reach_below
  refine ⟨b, hb, fun files hst r hr ns hn => ?_⟩
  have hname := (h.plain r hr).isName
  have hpath : Path.under r.link ns =
      Path.under session.path (["projects", bound.name, "links"] ++ r.name :: ns) := by
    rw [h.link r hr, Path.under, Path.under, ← List.foldl_append]
    rfl
  rw [hpath, hreach files hst.kept.same hst.kept.wellFormed _ hst.dir _ (r.name :: ns)
    (.under ha.slash (h.isName_link hr hn)) false]
  unfold through
  by_cases hf : 255 < r.name.utf8ByteSize
  · rw [if_pos hf, follow_too_long hst.dir hf]
  · rw [if_neg hf]
    have hf : r.name.utf8ByteSize ≤ 255 := by omega
    have hstep : IsStep r.name := ⟨hname.ne_point, hname.ne_points, hf⟩
    have hlink : files.entry? (home ++ ["projects", bound.name, "links"] ++ [r.name]) =
        some (.link r.external) := by simpa using hst.links r hr hf
    cases b with
    | zero => exact follow_spent hst.dir hstep hlink rfl
    | succ b =>
      have hclear := h.clear r hr
      obtain ⟨res, hres⟩ := hclear.follows_on h.secluded (show b ≤ 40 by omega) hn
      rw [follow_link hst.dir hstep hlink rfl, baseOf, if_pos hclear.absolute,
        (hres.congr hst.kept.same.entry?).eq_follow]
      exact hres.eq_follow.symm

/-- What is found through a link lies apart from the session. -/
lemma Apart.through_mem (h : Apart before home V session bound) (hr : r ∈ bound.roots) (hb : b ≤ 40)
    (hn : ∀ n ∈ ns, IsName n) {l : Location} (hl : through before b r ns = .arrived l) :
    l ∈ outside home ∧ (ns = [] → l ∈ V) := by
  unfold through at hl
  split at hl
  · cases hl
  · cases b with
    | zero => cases hl
    | succ b =>
      have hclear := h.clear r hr
      have hb : b ≤ 40 := by omega
      obtain ⟨res, hres⟩ := hclear.follows_on h.secluded hb hn
      obtain rfl : res = .arrived l := hres.eq_follow.symm.trans hl
      refine ⟨hres.end_mem, fun hns => ?_⟩
      obtain ⟨res', hres', hV⟩ := hclear.follows hb
      rw [hns, List.append_nil] at hres
      exact hV l (hres'.eq_follow.symm.trans hres.eq_follow)

lemma locate_eq_ok {p : String} {l : Location} : files.locate p = .ok l ↔
    files.reach false p = .arrived l := by
  rw [locate]
  cases files.reach false p <;> simp

/-- What is read of a project does not depend on anything else in the session. -/
theorem Apart.readIndex_eq (h : Apart before home V session bound)
    (h₁ : Stands before home session bound files) (h₂ : Stands before home session bound files') :
    Project.readIndex files' ⟨bound.name, bound.location, bound.output, bound.classpath, none⟩ =
      Project.readIndex files ⟨bound.name, bound.location, bound.output, bound.classpath, none⟩ := by
  obtain ⟨b, hb, hreach⟩ := h.reach_link (h₁.kept.anchored.of_same_outside h₁.kept.same.symm)
  have hsame : SameOutside home files files' := h₁.kept.same.symm.trans h₂.kept.same
  have hlocate {r : LinkedRoot} (hr : r ∈ bound.roots) {ns : List String} (hn : ∀ n ∈ ns, IsName n) :
      files'.locate (Path.under r.link ns) = files.locate (Path.under r.link ns) ∧
      ∀ l, files.locate (Path.under r.link ns) = .ok l → l ∈ outside home ∧ (ns = [] → l ∈ V) := by
    have heq := hreach files h₁ r hr ns hn
    refine ⟨by rw [locate, locate, heq, hreach files' h₂ r hr ns hn], fun l hl => ?_⟩
    exact h.through_mem hr hb hn (heq.symm.trans (locate_eq_ok.mp hl))
  have hread {r : LinkedRoot} (hr : r ∈ bound.roots) {ns : List String} (hn : ∀ n ∈ ns, IsName n) :
      files'.readText (Path.under r.link ns) = files.readText (Path.under r.link ns) := by
    obtain ⟨heq, hout⟩ := hlocate hr hn
    rw [readText, readText, readBytes, readBytes, status, status, heq]
    cases hl : files.locate (Path.under r.link ns) with
    | error e => rfl
    | ok l => simp only [Bind.bind, Except.bind, hsame.entry? l (hout l hl).1]
  have hbelow {r : LinkedRoot} (hr : r ∈ bound.roots) :
      Sources.filesBelow files' r.link = Sources.filesBelow files r.link := by
    obtain ⟨heq, hV⟩ := hlocate hr (show ∀ n ∈ ([] : List String), IsName n by simp)
    rw [Path.under, List.foldl_nil] at heq hV
    rw [Sources.filesBelow, Sources.filesBelow, heq]
    cases hl : files.locate r.link with
    | error e => rfl
    | ok l =>
      exact Sources.filesAt_congr (h.secluded.congr h₁.kept.same) h₁.kept.wellFormed
        h₂.kept.wellFormed hsame ((hV l hl).2 rfl) .start .start
  have hall : Sources.filesBelowAll files' (bound.roots.map (·.link)) =
      Sources.filesBelowAll files (bound.roots.map (·.link)) := by
    rw [Sources.filesBelowAll, Sources.filesBelowAll, List.flatMap_map, List.flatMap_map]
    exact congrArg Path.distinct (List.flatMap_congr fun r hr => hbelow hr)
  rw [Project.readIndex, Project.readIndex, h.sourceRoots, hall, Sources.texts, Sources.texts]
  refine congrArg Index.ofFiles (List.filterMap_congr fun p hp => ?_)
  obtain ⟨link, hlink, hp⟩ := List.mem_flatMap.mp (Path.mem_of_mem_distinct hp)
  obtain ⟨r, hr, rfl⟩ := List.mem_map.mp hlink
  obtain ⟨ns, rfl, hn⟩ : ∃ ns, p = Path.under r.link ns ∧ ∀ n ∈ ns, IsName n := by
    rw [Sources.filesBelow] at hp
    split at hp
    · exact Sources.filesAt_paths h₁.kept.wellFormed hp
    · cases hp
  rw [hread hr hn]

end Workspace

end JavaAtlas
