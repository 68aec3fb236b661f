import JavaAtlas.Proofs.ServiceRuns
import JavaAtlas.Proofs.SessionFrame

/-! Source trees are read and never changed: in any run of a session all places outside its directory
stay as they are, and at the end the directory is gone. -/

namespace JavaAtlas

open Text FileTree

namespace FileTree

variable {fs fs' fs'' : FileTree} {path : String}

/-- Things may be added, but what is there stays. -/
structure Grows (fs fs' : FileTree) : Prop where
  cwd : fs'.cwd = fs.cwd
  wellFormed : fs'.WellFormed
  entry? : ∀ l e, fs.entry? l = some e → FileTree.entry? fs' l = some e

lemma Grows.refl (hw : fs.WellFormed) : Grows fs fs := ⟨rfl, hw, fun _ _ h => h⟩

lemma Grows.trans (h : Grows fs fs') (hn : Grows fs' fs'') : Grows fs fs'' :=
  ⟨hn.cwd.trans h.cwd, hn.wellFormed, fun l e he => hn.entry? l e (h.entry? l e he)⟩

lemma Grows.insert {loc : Location} {e : FileEntry} (hw : fs.WellFormed) (hs : fs.Seat loc)
    (hn : fs.entry? loc = none) : Grows fs (fs.insert loc e) := by
  refine ⟨rfl, hw.insert hs (by simp [isDirAt, hn]), fun l e' he => ?_⟩
  have hne : l ≠ loc := by
    rintro rfl
    simp [hn] at he
  rw [entry?_insert hs.ne_nil, if_neg hne, he]

lemma seat_of_reach {keepLast : Bool} {loc : Location} (hw : fs.WellFormed)
    (h : fs.reach keepLast path = .missing loc) : fs.Seat loc ∧ fs.entry? loc = none := by
  have hne : path ≠ "" := by
    rintro rfl
    simp [reach] at h
  have hf := fs.follows_follow keepLast 40 (fs.startOf path) (namesOf path)
  rw [← reach_eq hne, h] at hf
  exact hf.seat_of_missing hw fun n hn => mem_namesOf hn

/-- The last name of a path leads straight to a place in the directory before it. -/
lemma follow_name_lands (keepLast : Bool) (b : Nat) (dir : Location) {name : String}
    (hw : fs.WellFormed) (hn : IsName name)
    (hl : ∀ t, keepLast = false → fs.entry? (dir ++ [name]) ≠ some (.link t)) :
    fs.Lands (dir ++ [name]) (fs.follow keepLast b dir [name]) := by
  refine follow_lands hw (by simp) (by simpa using hn) fun xs ys t hx hne hy => ?_
  obtain ⟨rfl, rfl⟩ : xs = [name] ∧ ys = [] := by
    simpa [hne] using List.singleton_eq_append_iff.mp hx
  exact hl t (hy.resolve_left (by simp))

lemma createDir_grows (hw : fs.WellFormed) (h : fs.createDir path = .ok fs') : Grows fs fs' := by
  rw [createDir] at h
  split at h
  · next loc hr =>
    obtain ⟨hs, hn⟩ := seat_of_reach hw hr
    exact Except.ok.inj h ▸ .insert hw hs hn
  all_goals cases h

lemma createDirsFrom_grows (hw : fs.WellFormed) (cs : List Path.Component) :
    Grows fs (fs.createDirsFrom cs).2 := by
  induction cs with
  | nil => exact .refl hw
  | cons c before ih =>
    rw [createDirsFrom]
    split
    · exact .refl hw
    · split
      · next made hc => exact createDir_grows hw hc
      · split
        · next he => exact he ▸ ih
        · next parent he =>
          rw [he] at ih
          split
          · next made hc => exact ih.trans (createDir_grows ih.wellFormed hc)
          · split <;> exact ih
      · exact .refl hw

end FileTree

namespace Session

variable {before files : FileTree} {home : Location} {s : Session}

lemma isName_of_isToken {token : String} (h : isToken token = true) : IsName token := by
  obtain ⟨hlen, hall⟩ : token.length = 8 ∧
      ∀ c ∈ token.toList, c.isDigit = true ∨ 'a' ≤ c ∧ c ≤ 'f' := by
    simpa [isToken] using h
  have hno {c : Char} (hc : c.isDigit = false) (ha : ¬ ('a' ≤ c ∧ c ≤ 'f')) : c ∉ token.toList :=
    fun hm => (hall c hm).elim (by simp [hc]) ha
  refine ⟨?_, ?_, ?_, hno (by decide) (by decide)⟩ <;> rintro rfl <;> revert hlen <;> decide

/-- The directory of a new session is where nothing was, and its path leads there from outside. -/
lemma createDir_kept (hw : before.WellFormed) {base token : String} (ht : isToken token = true)
    (h : before.createDir (Path.join base token) = .ok files) :
    ∃ home, before.entry? home = none ∧
      Kept files home ⟨token, Path.join base token, false⟩ files ∧
      ∀ name, files.entry? (home ++ [name]) = none := by
  have hn := isName_of_isToken ht
  have habs := Path.isAbsolute_of_isName hn
  have hslash : (Path.join base token).toList.getLast? ≠ some '/' := by
    rw [Path.getLast?_join hn.ne_empty]
    exact getLast?_of_isName hn
  have hne : Path.join base token ≠ "" := Path.join_ne_empty hn.ne_empty
  rw [createDir, withoutSlash_eq hslash] at h
  split at h
  case h_1 home hr =>
    obtain ⟨hseat, hnone⟩ := seat_of_reach hw hr
    obtain rfl := Except.ok.inj h
    have hnames : namesOf (Path.join base token) = Path.names base ++ [token] := by
      rw [namesOf_eq hslash, Path.names_join habs, Path.names_of_not_mem hn.ne_empty hn.no_slash]
    rw [reach_eq hne, hnames] at hr
    have hinsert (l : Location) : FileTree.entry? (before.insert home .dir) l = _ :=
      entry?_insert hseat.ne_nil
    have hsame : SameOutside home before (before.insert home .dir) := by
      refine ⟨rfl, fun l hl => ?_⟩
      rw [hinsert, if_neg]
      rintro rfl
      exact hl List.prefix_rfl
    have hanchor : Anchored before (Path.join base token) home := by
      refine ⟨hslash, Path.names base, token, ?_⟩
      rcases before.follow_split true 40 (before.startOf (Path.join base token)) (Path.names base)
        (List.cons_ne_nil token []) with ⟨error, he⟩ | ⟨b, above, hleads, he⟩
      · rw [hr] at he
        cases he
      · rw [hr] at he
        have hlands := follow_name_lands true b above hw hn (by simp)
        rw [← he] at hlands
        cases hlands
        have hd : before.isDirAt above = true := by simpa using hseat.parent
        have hfits := (hseat.isName token (by simp)).2
        refine ⟨b, above, ?_, rfl, hn, hfits, hleads.mono fun l hl hp => ?_, hd⟩
        · rw [← hnames, namesOf_eq hslash]
        · have hs : (before.entry? l).isSome := hl
          simp [hw.entry?_eq_none_below hnone hp] at hs
    refine ⟨home, hnone, ⟨hw.insert hseat (by simp [isDirAt, hnone]), .refl,
      hanchor.of_same_outside hsame, fun xs t he => ?_, ?_⟩, fun name => ?_⟩
    · rw [hinsert] at he
      split at he
      · cases he
      · rw [hw.entry?_eq_none_below hnone (List.prefix_append home xs)] at he
        cases he
    · rw [hinsert, if_pos rfl]
      rfl
    · rw [hinsert, if_neg (by simp), hw.entry?_eq_none_below hnone (List.prefix_append home [name])]
  all_goals cases h

lemma tryTokens_kept (hw : before.WellFormed) {base : String} {draws : List String}
    (hd : ∀ token ∈ draws, isToken token = true)
    (h : tryTokens before base draws = .ok (s, files)) : Grows before files ∧
      s.tornDown = false ∧ ∃ home, before.entry? home = none ∧ s.Kept files home files ∧
        ∀ name, files.entry? (home ++ [name]) = none := by
  induction draws with
  | nil => cases h
  | cons token rest ih =>
    rw [tryTokens] at h
    cases hc : before.createDir (Path.join base token) with
    | ok made =>
      rw [hc, claim] at h
      obtain ⟨rfl, rfl⟩ := Prod.mk.inj (Except.ok.inj h)
      exact ⟨createDir_grows hw hc, rfl, createDir_kept hw (hd token List.mem_cons_self) hc⟩
    | error e =>
      rw [hc] at h
      cases e with
      | alreadyExists => exact ih (fun t ht => hd t (List.mem_cons_of_mem _ ht)) h
      | _ => cases h

/-- A session starts in a new directory, where nothing is yet, and leaves all that is there. -/
lemma create_fresh (hw : before.WellFormed) {base : String} {draws : List String}
    (hd : ∀ token ∈ draws, isToken token = true)
    (h : create before base draws = .ok (s, files)) : Grows before files ∧
      s.tornDown = false ∧ ∃ home, before.entry? home = none ∧ s.Kept files home files ∧
        ∀ name, files.entry? (home ++ [name]) = none := by
  rw [create] at h
  have hgrows := createDirsFrom_grows hw (Path.components base).reverse
  rw [← createDirAll] at hgrows
  split at h
  · cases h
  · next made hc =>
    rw [hc] at hgrows
    obtain ⟨hg, ht, home, hnone, hk⟩ :=
      tryTokens_kept hgrows.wellFormed (fun t ht => hd t (List.mem_of_mem_take ht)) h
    refine ⟨hgrows.trans hg, ht, home, ?_, hk⟩
    cases he : before.entry? home with
    | none => rfl
    | some e => simp [hgrows.entry? home e he] at hnone

lemma create_kept (hw : before.WellFormed) {base : String} {draws : List String}
    (hd : ∀ token ∈ draws, isToken token = true)
    (h : create before base draws = .ok (s, files)) : Grows before files ∧
      s.tornDown = false ∧ ∃ home, before.entry? home = none ∧ s.Kept files home files := by
  obtain ⟨hg, ht, home, hnone, hk, -⟩ := create_fresh hw hd h
  exact ⟨hg, ht, home, hnone, hk⟩

lemma path_teardown (s : Session) (files : FileTree) : (s.teardown files).1.path = s.path := by
  rw [teardown]
  split <;> rfl

namespace Kept

lemma locate_path (h : s.Kept before home files) (ht : s.tornDown = false) :
    files.locate s.path = .ok home := by
  have hlands := (h.names (.refl h.anchored.slash) (by simp)).lands (h.not_link (by simp))
  have hdir := h.standing
  rw [ht] at hdir
  rw [List.append_nil] at hlands
  rw [locate]
  generalize files.reach false s.path = r at hlands
  cases hlands with
  | arrived => rfl
  | missing hn | failed _ hn => simp [hn] at hdir

/-- Once the session is torn down, there is nothing left of its directory. -/
lemma gone (h : s.Kept before home files) (ht : s.tornDown = true) :
    (∀ l, home <+: l → files.entry? l = none) ∧ files.pathExists s.path = false := by
  have hnone : files.entry? home = none := by rw [h.standing, if_pos ht]
  refine ⟨fun l hl => h.wellFormed.entry?_eq_none_below hnone hl, ?_⟩
  have hlands := (h.names (.refl h.anchored.slash) (by simp)).lands (h.not_link (by simp))
  rw [pathExists, status, locate]
  generalize files.reach false s.path = r at hlands
  cases hlands with
  | missing | failed => rfl
  | arrived hs => simp [hnone] at hs

end Kept

end Session

namespace Workspace

variable {before : FileTree} {home : Location} {w : Workspace}

lemma after_kept (h : w.session.Kept before home w.files) (step : Step) :
    (w.after step).session.Kept before home (w.after step).files ∧
      (w.after step).session.path = w.session.path ∧
      (w.session.tornDown = true ∨ step = .teardown → (w.after step).session.tornDown = true) := by
  cases step with
  | bind treeRoot entries =>
    obtain ⟨hs, hk⟩ := bind_kept treeRoot entries w.session w ⟨rfl, h⟩
    rw [after, hs]
    exact ⟨hk, rfl, fun ht => ht.resolve_right nofun⟩
  | unbind treeRoot =>
    exact ⟨unbind_kept h (isPlain_projectName treeRoot).isName, rfl, fun ht => ht.resolve_right nofun⟩
  | teardown => exact ⟨h.teardown.1, Session.path_teardown .., fun _ => h.teardown.2⟩

lemma afterAll_kept (h : w.session.Kept before home w.files) (steps : List Step) :
    (w.afterAll steps).session.Kept before home (w.afterAll steps).files ∧
      (w.afterAll steps).session.path = w.session.path ∧
      (w.session.tornDown = true ∨ .teardown ∈ steps →
        (w.afterAll steps).session.tornDown = true) := by
  induction steps generalizing w with
  | nil => exact ⟨h, rfl, fun ht => ht.resolve_right (by simp)⟩
  | cons step rest ih =>
    obtain ⟨hk, hp, ht⟩ := after_kept h step
    obtain ⟨hk', hp', ht'⟩ := ih hk
    refine ⟨hk', hp'.trans hp, fun hs => ht' ?_⟩
    rcases hs with hs | hs
    · exact .inl (ht (.inl hs))
    · rcases List.mem_cons.mp hs with rfl | hs
      · exact .inl (ht (.inr rfl))
      · exact .inr hs

end Workspace

namespace Classpath

def dumpName : String := "stratum-classpath-000000.txt"

/-- Tools that write nothing but the list of libraries. -/
def WritesListOnly (launch : Launcher) : Prop :=
  ∀ fs limitMs c execution, fs.WellFormed → launch fs limitMs c = .ok execution →
    execution.files.WellFormed ∧ execution.files.cwd = fs.cwd ∧
      ∀ l, execution.files.entry? l = fs.entry? l ∨ fs.locate dumpPath = .ok l ∧
        execution.files.isDirAt l = false ∧ ∀ t, execution.files.entry? l ≠ some (.link t)

variable {fs fs' : FileTree} {home : Location} {launch : Launcher}

/-- Everything stays but files of `home`, which may go. -/
structure Spares (home : Location) (fs fs' : FileTree) : Prop where
  cwd : fs'.cwd = fs.cwd
  wellFormed : fs'.WellFormed
  entry? : ∀ l, FileTree.entry? fs' l = fs.entry? l ∨
    home <+: l ∧ fs.isDirAt l = false ∧ FileTree.entry? fs' l = none

lemma Spares.refl (hw : fs.WellFormed) : Spares home fs fs := ⟨rfl, hw, fun _ => .inl rfl⟩

/-- The files after a run of the build tool differ from those before at the place of the list only. -/
lemma run_files (hl : WritesListOnly launch) (hw : fs.WellFormed) {loc : Location}
    (hloc : fs.locate dumpPath = .ok loc) (hd : fs.isDirAt loc = false)
    (hlink : ∀ t, fs.entry? loc ≠ some (.link t)) (limitMs : Nat) (cancelled : Bool) (c : Command) :
    (c.run launch fs limitMs cancelled).2.WellFormed ∧
      (c.run launch fs limitMs cancelled).2.cwd = fs.cwd ∧
      (∀ l ≠ loc, FileTree.entry? (c.run launch fs limitMs cancelled).2 l = fs.entry? l) ∧
      (c.run launch fs limitMs cancelled).2.isDirAt loc = false ∧
      ∀ t, FileTree.entry? (c.run launch fs limitMs cancelled).2 loc ≠ some (.link t) := by
  have hself : fs.WellFormed ∧ fs.cwd = fs.cwd ∧ (∀ l ≠ loc, fs.entry? l = fs.entry? l) ∧
      fs.isDirAt loc = false ∧ ∀ t, fs.entry? loc ≠ some (.link t) :=
    ⟨hw, rfl, fun _ _ => rfl, hd, hlink⟩
  rw [Command.run]
  split
  · exact hself
  · next execution he =>
    obtain ⟨hw', hcwd, hentry⟩ := hl fs limitMs c execution hw he
    have hafter : execution.files.WellFormed ∧ execution.files.cwd = fs.cwd ∧
        (∀ l ≠ loc, execution.files.entry? l = fs.entry? l) ∧
        execution.files.isDirAt loc = false ∧
        ∀ t, execution.files.entry? loc ≠ some (.link t) := by
      refine ⟨hw', hcwd, fun l hne => (hentry l).resolve_right fun hh => hne ?_, ?_⟩
      · exact Except.ok.inj (hh.1.symm.trans hloc)
      · rcases hentry loc with hh | ⟨-, hh⟩
        · rw [isDirAt_congr hh, hh]
          exact ⟨hd, hlink⟩
        · exact hh
    split
    · exact hself
    · cases execution.finish <;> exact hafter

lemma reach_dumpPath {S : Set Location} {b : Nat} {dir : Location}
    (h : fs.Leads S 40 [] ["tmp"] b dir) (keepLast : Bool) :
    fs.reach keepLast dumpPath = fs.follow keepLast b dir [dumpName] := by
  have hnames : namesOf dumpPath = ["tmp"] ++ [dumpName] := by decide +kernel
  have hstart : fs.startOf dumpPath = [] := by
    rw [startOf, if_pos]
    decide +kernel
  rw [reach_eq (by decide), hstart, hnames, h.follow_append keepLast (by simp)]

lemma isName_dumpName : IsName dumpName := by decide +kernel

lemma leads_of_write {content : List UInt8} (h : fs.write dumpPath content = .ok fs') :
    ∃ b dir, fs.Leads fs.places 40 [] ["tmp"] b dir := by
  rcases fs.follow_split false 40 [] ["tmp"] (List.cons_ne_nil dumpName []) with ⟨error, he⟩ | ⟨b, dir, hleads, -⟩
  · have hr : fs.reach false dumpPath = .failed error := by
      have hnames : namesOf dumpPath = ["tmp"] ++ [dumpName] := by decide +kernel
      rw [reach_eq (by decide), hnames, startOf, if_pos (by decide +kernel), he]
    rw [write, hr] at h
    split at h <;> cases h
  · exact ⟨b, dir, hleads⟩

/-- The list is taken away if it is there. -/
lemma remove_list (hw : fs.WellFormed) {S : Set Location} {b : Nat} {dir : Location}
    (hleads : fs.Leads S 40 [] ["tmp"] b dir) (hd : fs.isDirAt (dir ++ [dumpName]) = false) :
    ((fs.removeFile dumpPath).toOption.getD fs).WellFormed ∧
      ((fs.removeFile dumpPath).toOption.getD fs).cwd = fs.cwd ∧
      ∀ l, FileTree.entry? ((fs.removeFile dumpPath).toOption.getD fs) l =
        if l = dir ++ [dumpName] then none else fs.entry? l := by
  have hlands : fs.Lands (dir ++ [dumpName]) (fs.reach true dumpPath) := by
    rw [reach_dumpPath hleads]
    exact follow_name_lands _ _ _ hw isName_dumpName (by simp)
  have hnone (hn : fs.entry? (dir ++ [dumpName]) = none) (l : Location) :
      fs.entry? l = if l = dir ++ [dumpName] then none else fs.entry? l := by
    split
    · next h => rw [h, hn]
    · rfl
  rw [removeFile, locateLink]
  generalize fs.reach true dumpPath = r at hlands
  cases hlands with
  | missing hn | failed _ hn => exact ⟨hw, rfl, hnone hn⟩
  | arrived hs =>
    simp only [bind, Except.bind, hd, Bool.false_eq_true, if_false]
    refine ⟨hw.erase hd, rfl, fun l => ?_⟩
    by_cases hl : l = []
    · subst hl
      simp [entry?_nil]
    · exact entry?_erase hl

/-- Finding the dependencies of a tree changes nothing outside `home`. -/
lemma mavenDependencies_spares (asm : Assembler) (hl : WritesListOnly asm.launch)
    (hw : fs.WellFormed) (hlink : ∀ dir t, fs.entry? (dir ++ [dumpName]) ≠ some (.link t))
    (hfree : ∀ dir, dir ++ [dumpName] ∈ outside home → fs.entry? (dir ++ [dumpName]) = none)
    (path : String) : Spares home fs (asm.mavenDependencies fs path).2 := by
  rw [Assembler.mavenDependencies]
  split
  · exact .refl hw
  · next started hwrite =>
    obtain ⟨b, dir, hleads⟩ := leads_of_write hwrite
    have hlands : fs.Lands (dir ++ [dumpName]) (fs.reach false dumpPath) := by
      rw [reach_dumpPath hleads]
      exact follow_name_lands _ _ _ hw isName_dumpName fun t _ => hlink dir t
    obtain ⟨⟨x, rfl⟩, hseat, hd⟩ := hlands.write_eq hw (by simp) hwrite
    have hdir : fs.isDirAt dir = true := by simpa using hseat.parent
    have hentry (l : Location) :
        FileTree.entry? (fs.insert (dir ++ [dumpName]) (.file [] x)) l = _ :=
      entry?_insert hseat.ne_nil
    have hfile := (hentry (dir ++ [dumpName])).trans (if_pos rfl)
    -- the list is neither a directory nor a link, so the way to it stays the same
    have hway {fs' : FileTree} (h : ∀ l ≠ dir ++ [dumpName], FileTree.entry? fs' l = fs.entry? l) :
        ∃ S, fs'.Leads S 40 [] ["tmp"] b dir := by
      refine ⟨_, (hleads.through_dirs hdir).congr fun l hl => h l ?_⟩
      rintro rfl
      rcases hl.2 with hl | ⟨t, ht⟩
      · rw [hd] at hl
        cases hl
      · exact hlink dir t ht
    have hlocate : (fs.insert (dir ++ [dumpName]) (.file [] x)).locate dumpPath =
        .ok (dir ++ [dumpName]) := by
      obtain ⟨S, hleads'⟩ := hway fun l hne => (hentry l).trans (if_neg hne)
      have hlands' := follow_name_lands false b dir
        (hw.insert (e := .file [] x) hseat hd) isName_dumpName (by simp [hfile])
      rw [locate, reach_dumpPath hleads']
      generalize (fs.insert (dir ++ [dumpName]) (.file [] x)).follow false b dir [dumpName] = r
        at hlands'
      cases hlands' with
      | arrived => rfl
      | missing hn | failed _ hn => simp [hfile] at hn
    obtain ⟨hw', hcwd, hsame, hd', -⟩ := run_files hl (hw.insert hseat hd) hlocate
      (by simp [isDirAt, hfile]) (by simp [hfile]) asm.timeoutMs asm.cancelled
      (asm.listCommand fs path)
    have hsame' (l : Location) (hne : l ≠ dir ++ [dumpName]) :=
      (hsame l hne).trans ((hentry l).trans (if_neg hne))
    obtain ⟨S, hleads'⟩ := hway hsame'
    obtain ⟨hw'', hcwd', hfinal⟩ := remove_list hw' hleads' hd'
    refine ⟨hcwd'.trans hcwd, hw'', fun l => ?_⟩
    by_cases hne : l = dir ++ [dumpName]
    · subst hne
      have hgone := (hfinal (dir ++ [dumpName])).trans (if_pos rfl)
      by_cases hp : home <+: dir ++ [dumpName]
      · exact .inr ⟨hp, hd, hgone⟩
      · exact .inl (hgone.trans (hfree dir hp).symm)
    · exact .inl ((hfinal l).trans ((if_neg hne).trans (hsame' l hne)))

lemma assemble_spares (asm : Assembler) (hl : WritesListOnly asm.launch) (hw : fs.WellFormed)
    (hlink : ∀ dir t, fs.entry? (dir ++ [dumpName]) ≠ some (.link t))
    (hfree : ∀ dir, dir ++ [dumpName] ∈ outside home → fs.entry? (dir ++ [dumpName]) = none)
    (path : String) : Spares home fs (asm.assemble fs path).2 := by
  have hdep : Spares home fs (asm.dependencies fs path (Build.detect fs path)).2 := by
    cases Build.detect fs path with
    | maven => exact mavenDependencies_spares asm hl hw hlink hfree path
    | gradle | unknown => exact .refl hw
  rw [Assembler.assemble]
  exact hdep

end Classpath

namespace Session.Kept

variable {before files files' : FileTree} {home : Location} {s : Session}

lemma of_spares (h : s.Kept before home files) (hs : Classpath.Spares home files files') :
    s.Kept before home files' := by
  have hsame : SameOutside home files files' :=
    ⟨hs.cwd, fun l hl => (hs.entry? l).resolve_right fun hh => hl hh.1⟩
  refine ⟨hs.wellFormed, h.same.trans hsame, h.anchored.of_same_outside hsame, fun xs t he => ?_, ?_⟩
  · rcases hs.entry? (home ++ xs) with hh | ⟨-, -, hh⟩
    · exact h.links xs t (hh ▸ he)
    · rw [hh] at he
      cases he
  · rcases hs.entry? home with hh | ⟨-, hd, hh⟩
    · rw [hh, h.standing]
    · rw [hh]
      have hst := h.standing
      cases ht : s.tornDown with
      | true => rfl
      | false =>
        rw [ht] at hst
        simp [isDirAt, hst] at hd

end Session.Kept

namespace Service

variable {before : FileTree} {home : Location} {s : Service}

/-- How a service keeps its session, given tools that write nothing but their list. -/
structure Kept (before : FileTree) (home : Location) (s : Service) : Prop where
  session : s.workspace.session.Kept before home s.workspace.files
  named : ∀ project, s.current = some project → IsName project.bound.name
  tools : Classpath.WritesListOnly s.launch

lemma assemble_spares (h : s.Kept before home)
    (hfree : ∀ dir, before.entry? (dir ++ [Classpath.dumpName]) = none) (root : String) :
    Classpath.Spares home s.workspace.files (s.assembler.assemble s.workspace.files root).2 := by
  have hout (dir : Location) (hd : dir ++ [Classpath.dumpName] ∈ outside home) :
      s.workspace.files.entry? (dir ++ [Classpath.dumpName]) = none :=
    (h.session.same.entry? _ hd).trans (hfree dir)
  refine Classpath.assemble_spares s.assembler h.tools h.session.wellFormed (fun dir t he => ?_) hout
    root
  by_cases hp : home <+: dir ++ [Classpath.dumpName]
  · obtain ⟨xs, hxs⟩ := hp
    rw [← hxs] at he
    obtain ⟨project, name, rfl, hn⟩ := h.session.links xs t he
    have hlast := congrArg List.getLast? hxs
    simp only [List.getLast?_append, List.getLast?_cons_cons, List.getLast?_singleton,
      Option.some_or, Option.some.injEq] at hlast
    exact hn (hlast ▸ by decide +kernel)
  · rw [hout dir hp] at he
    cases he

lemma assemble_kept (h : s.Kept before home)
    (hfree : ∀ dir, before.entry? (dir ++ [Classpath.dumpName]) = none) (root : String) :
    s.workspace.session.Kept before home (s.assembler.assemble s.workspace.files root).2 :=
  h.session.of_spares (assemble_spares h hfree root)

lemma replaceCurrent_kept (h : s.Kept before home) (project : LoadedProject)
    (hn : IsName project.bound.name) : (s.replaceCurrent project).Kept before home ∧
      (s.replaceCurrent project).workspace.session = s.workspace.session := by
  have hnamed (p : LoadedProject) (hp : some project = some p) : IsName p.bound.name :=
    Option.some.inj hp ▸ hn
  rw [replaceCurrent]
  split
  · next previous hprev =>
    split
    · exact ⟨⟨Workspace.unbind_kept h.session (h.named previous hprev), hnamed, h.tools⟩, rfl⟩
    · exact ⟨⟨h.session, hnamed, h.tools⟩, rfl⟩
  · exact ⟨⟨h.session, hnamed, h.tools⟩, rfl⟩

lemma load_kept (h : s.Kept before home)
    (hfree : ∀ dir, before.entry? (dir ++ [Classpath.dumpName]) = none) (path : String)
    (now : Nat) :
    (s.load path now).2.Kept before home ∧
      (s.load path now).2.workspace.session = s.workspace.session := by
  have hbind {root : String} {assembly : Classpath.Assembly} {files : FileTree}
      (ha : s.assembler.assemble s.workspace.files root = (assembly, files)) :=
    Workspace.bind_kept root assembly.entries s.workspace.session { s.workspace with files }
      ⟨rfl, ha ▸ assemble_kept h hfree root⟩
  have hloads := s.loads path now
  generalize s.load path now = result at hloads
  cases hloads with
  | refused => exact ⟨h, rfl⟩
  | unbound _ _ ha hb =>
    obtain ⟨hs, hk⟩ := hb ▸ hbind ha
    exact ⟨⟨hs ▸ hk, h.named, h.tools⟩, hs⟩
  | @loaded root _ _ _ workspace _ _ ha hb =>
    obtain ⟨hs, hk⟩ := hb ▸ hbind ha
    have hname := Workspace.name_of_bind hb ▸ (Workspace.isPlain_projectName root).isName
    have hkept : ({ s with workspace } : Service).Kept before home := ⟨hs ▸ hk, h.named, h.tools⟩
    obtain ⟨hk', hs'⟩ := replaceCurrent_kept hkept (s.loadedFrom _ _ _ _ now) hname
    exact ⟨hk', hs'.trans hs⟩

lemma shutdown_kept (h : s.Kept before home) :
    s.shutdown.Kept before home ∧ s.shutdown.workspace.session.path = s.workspace.session.path ∧
      s.shutdown.workspace.session.tornDown = true := by
  rw [shutdown]
  split
  · next project hp =>
    have hk := Workspace.unbind_kept h.session (h.named project hp)
    exact ⟨⟨hk.teardown.1, nofun, h.tools⟩, Session.path_teardown .., hk.teardown.2⟩
  · exact ⟨⟨h.session.teardown.1, nofun, h.tools⟩, Session.path_teardown .., h.session.teardown.2⟩

lemma after_kept (h : s.Kept before home)
    (hfree : ∀ dir, before.entry? (dir ++ [Classpath.dumpName]) = none) (call : Call) :
    (s.after call).Kept before home ∧
      (s.after call).workspace.session.path = s.workspace.session.path ∧
      (s.workspace.session.tornDown = true ∨ call = .shutdown →
        (s.after call).workspace.session.tornDown = true) := by
  cases call with
  | load path now =>
    obtain ⟨hk, hs⟩ := load_kept h hfree path now
    rw [after, hs]
    exact ⟨hk, rfl, fun ht => ht.resolve_right nofun⟩
  | ask question => exact ⟨h, rfl, fun ht => ht.resolve_right nofun⟩
  | shutdown => exact (shutdown_kept h).imp_right (And.imp_right fun ht _ => ht)

lemma afterAll_kept (h : s.Kept before home)
    (hfree : ∀ dir, before.entry? (dir ++ [Classpath.dumpName]) = none) (calls : List Call) :
    (s.afterAll calls).Kept before home ∧
      (s.afterAll calls).workspace.session.path = s.workspace.session.path ∧
      (s.workspace.session.tornDown = true ∨ .shutdown ∈ calls →
        (s.afterAll calls).workspace.session.tornDown = true) := by
  induction calls generalizing s with
  | nil => exact ⟨h, rfl, fun ht => ht.resolve_right (by simp)⟩
  | cons call rest ih =>
    obtain ⟨hk, hp, ht⟩ := after_kept h hfree call
    obtain ⟨hk', hp', ht'⟩ := ih hk
    refine ⟨hk', hp'.trans hp, fun hs => ht' ?_⟩
    rcases hs with hs | hs
    · exact .inl (ht (.inl hs))
    · rcases List.mem_cons.mp hs with rfl | hs
      · exact .inl (ht (.inr rfl))
      · exact .inr hs

end Service

/-- What a run of a session at `home` does to the files: outside all is as before, and once the
session has ended, nothing is left of its directory. -/
structure Harmless (home : Location) (path : String) (ended : Prop) (before files : FileTree) :
    Prop where
  outside : ∀ l, ¬ home <+: l → files.entry? l = before.entry? l
  inside : ended → ∀ l, home <+: l → files.entry? l = none
  missing : ended → files.pathExists path = false

lemma Session.Kept.harmless {before files : FileTree} {home : Location} {s : Session} {path : String}
    {ended : Prop} (h : s.Kept before home files) (hp : s.path = path)
    (ht : ended → s.tornDown = true) : Harmless home path ended before files :=
  ⟨h.same.entry?, fun he => (h.gone (ht he)).1, fun he => hp ▸ (h.gone (ht he)).2⟩

/-- A session starts where nothing was and changes nothing that was there. Whatever is then put into
its workspace, taken out, loaded or asked, by links or by copies, in any order and with any result,
every place outside its directory keeps its entry; and once it was torn down or shut down, the
directory is gone. -/
theorem Session.only_own_directory_changes {initial files : FileTree} {base : String}
    {draws : List String} {session : Session} (hw : initial.WellFormed)
    (hd : ∀ token ∈ draws, Session.isToken token = true)
    (hc : Session.create initial base draws = .ok (session, files)) :
    ∃ home, initial.entry? home = none ∧ files.locate session.path = .ok home ∧
      (∀ l e, initial.entry? l = some e → files.entry? l = some e) ∧
      (∀ (engine : Engine) (mode : LinkMode) (steps : List Workspace.Step),
        Harmless home session.path (.teardown ∈ steps) files
          (Workspace.afterAll ⟨files, session, engine, mode⟩ steps).files) ∧
      ∀ (config : ServiceConfig) (launch : Launcher) (container : RuntimeContainer)
        (calls : List Call), Classpath.WritesListOnly launch →
        (∀ e ∈ files.entries, e.1.getLast? ≠ some Classpath.dumpName) →
        Harmless home session.path (.shutdown ∈ calls) files
          ((Service.ofSession config launch container files session).afterAll calls).workspace.files := by
  obtain ⟨hg, htorn, home, hnone, hk⟩ := Session.create_kept hw hd hc
  refine ⟨home, hnone, hk.locate_path htorn, hg.entry?, fun engine mode steps => ?_,
    fun config launch container calls htools hname => ?_⟩
  · obtain ⟨hk', hp, ht⟩ := Workspace.afterAll_kept (w := ⟨files, session, engine, mode⟩) hk steps
    exact hk'.harmless hp fun hs => ht (.inr hs)
  · have hfree (dir : Location) : files.entry? (dir ++ [Classpath.dumpName]) = none := by
      cases he : files.entry? (dir ++ [Classpath.dumpName]) with
      | none => rfl
      | some e => exact absurd (by simp) (hname _ (mem_entries (by simp) he))
    obtain ⟨hk', hp, ht⟩ := Service.afterAll_kept
      (s := Service.ofSession config launch container files session) ⟨hk, nofun, htools⟩ hfree calls
    exact hk'.session.harmless hp fun hs => ht (.inr hs)

/-- A tree whose source directory holds a link back to the tree, and one of the base directory. -/
def linkedTree : FileTree where
  entries := [(["b"], .dir), (["tmp"], .dir), (["t"], .dir), (["t", "pom.xml"], .file [] false),
    (["t", "src"], .dir), (["t", "src", "A.java"], .file [99] false),
    (["t", "src", "back"], .link ".."), (["t", "src", "base"], .link "/b")]
  cwd := []

/-- A build tool that fills its list if it is there. -/
def listingTool : Launcher := fun fs _ _ =>
  .ok ⟨.exited 0, [], [], match fs.locate Classpath.dumpPath with
    | .ok l => if fs.isDirAt l then fs else fs.insert l (.file [47] false)
    | .error _ => fs⟩

lemma listingTool_writesListOnly : Classpath.WritesListOnly listingTool := by
  intro fs limitMs c execution hw h
  obtain rfl := Except.ok.inj h
  dsimp only
  split
  · next l hl =>
    split
    · exact ⟨hw, rfl, fun _ => .inl rfl⟩
    · next hd =>
      have hd : fs.isDirAt l = false := by simpa using hd
      have hne : l ≠ [] := by
        rintro rfl
        simp [isDirAt, entry?_nil] at hd
      obtain ⟨-, hfollow⟩ := locate_follow hl
      have hf := fs.follows_follow false 40 (fs.startOf Classpath.dumpPath)
        (Path.names Classpath.dumpPath)
      rw [hfollow] at hf
      obtain ⟨e, he⟩ := Option.isSome_iff_exists.mp (hf.isSome_of_arrived hw rfl)
      refine ⟨hw.insert (hw.seat hne he) hd, rfl, fun l' => ?_⟩
      rw [isDirAt, entry?_insert hne]
      by_cases hl' : l' = l
      · subst hl'
        exact .inr ⟨hl, by simp, by simp⟩
      · exact .inl (if_neg hl')
  · exact ⟨hw, rfl, fun _ => .inl rfl⟩

theorem Session.only_own_directory_changes_linkedTree : ∃ home, linkedTree.entry? home = none ∧
    Harmless home "/b/0123abcd" True (linkedTree.insert ["b", "0123abcd"] .dir)
      (Workspace.afterAll ⟨linkedTree.insert ["b", "0123abcd"] .dir,
        ⟨"0123abcd", "/b/0123abcd", false⟩, .ofWorkspace "/b/0123abcd", .copy⟩
        [.bind "/t" [.source ⟨"/t/src", "src", ""⟩], .unbind "/t",
          .bind "/t/src" [.source ⟨"/t/src", "", ""⟩, .source ⟨"/t", "", ""⟩], .teardown]).files ∧
    Harmless home "/b/0123abcd" True (linkedTree.insert ["b", "0123abcd"] .dir)
      ((Service.ofSession .initial listingTool .unresolved
        (linkedTree.insert ["b", "0123abcd"] .dir) ⟨"0123abcd", "/b/0123abcd", false⟩).afterAll
        [.load "/t" 1, .ask .status, .load "/t/src" 2, .shutdown]).workspace.files := by
  have hc : Session.create linkedTree "/b" ["0123abcd"] =
      .ok (⟨"0123abcd", "/b/0123abcd", false⟩, linkedTree.insert ["b", "0123abcd"] .dir) := by
    decide +kernel
  obtain ⟨home, hnone, -, -, hsteps, hcalls⟩ :=
    Session.only_own_directory_changes (by decide +kernel) (by decide +kernel) hc
  have hsteps := hsteps (.ofWorkspace "/b/0123abcd") .copy
    [.bind "/t" [.source ⟨"/t/src", "src", ""⟩], .unbind "/t",
      .bind "/t/src" [.source ⟨"/t/src", "", ""⟩, .source ⟨"/t", "", ""⟩], .teardown]
  have hcalls := hcalls .initial listingTool .unresolved
    [.load "/t" 1, .ask .status, .load "/t/src" 2, .shutdown] listingTool_writesListOnly
    (by decide +kernel)
  simp only [List.mem_cons, true_or, or_true] at hsteps hcalls
  exact ⟨home, hnone, hsteps, hcalls⟩

end JavaAtlas
