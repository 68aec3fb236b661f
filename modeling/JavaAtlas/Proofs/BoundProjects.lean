import JavaAtlas.Proofs.SessionFrame
import JavaAtlas.Proofs.SourceWalk

/-! What a project is once its tree was put into the workspace by links, and when that succeeds. -/

namespace JavaAtlas

open Text FileTree

namespace FileTree

variable {fs fs' : FileTree} {home loc : Location} {V : Set Location}

/-- An absolute path that leads to secluded places, or nowhere. -/
structure Clear (fs : FileTree) (home : Location) (V : Set Location) (path : String) : Prop where
  absolute : Path.isAbsolute path = true
  leads : ∃ r, fs.Follows (outside home) false 40 [] (namesOf path) r ∧ ∀ l, r = .arrived l → l ∈ V

namespace Clear

variable {path : String} {b : Nat} {ns : List String}

lemma ne_empty (h : fs.Clear home V path) : path ≠ "" := by
  rintro rfl
  exact absurd h.absolute (by decide)

lemma startOf_eq (h : fs.Clear home V path) : fs.startOf path = [] := by
  rw [startOf, if_pos h.absolute]

lemma follows (h : fs.Clear home V path) (hb : b ≤ 40) :
    ∃ r, fs.Follows (outside home) false b [] (namesOf path) r ∧ ∀ l, r = .arrived l → l ∈ V := by
  obtain ⟨r, hr, hV⟩ := h.leads
  rcases hr.fewer hb with h | h
  · exact ⟨r, h, hV⟩
  · exact ⟨_, h, nofun⟩

lemma follows_on (h : fs.Clear home V path) (hs : fs.Secluded home V) (hb : b ≤ 40)
    (hn : ∀ n ∈ ns, IsName n) :
    ∃ r, fs.Follows (outside home) false b [] (namesOf path ++ ns) r := by
  obtain ⟨r, hr, hV⟩ := h.follows hb
  exact hr.append fun l hl c hc => hs.follows (hV l hl) (hc.trans hb) hn

lemma locate_congr (h : fs.Clear home V path) (hsame : SameOutside home fs fs') :
    fs'.locate path = fs.locate path ∧ ∀ l, fs.locate path = .ok l → l ∈ V := by
  obtain ⟨r, hr, hV⟩ := h.leads
  have hfs : fs.reach false path = r := by rw [reach_eq h.ne_empty, h.startOf_eq, hr.eq_follow]
  have hfs' : fs'.reach false path = r := by
    rw [reach_eq h.ne_empty, startOf, if_pos h.absolute, (hr.congr hsame.entry?).eq_follow]
  rw [locate, locate, hfs, hfs']
  refine ⟨rfl, fun l hl => ?_⟩
  cases r with
  | arrived loc => exact hV l (by simpa using hl)
  | missing | linked | failed => simp at hl

lemma locateLink_congr (h : fs.Clear home V path) (hsame : SameOutside home fs fs') :
    fs'.locateLink path = fs.locateLink path ∧
      ∀ l, fs.locateLink path = .ok l → FileTree.entry? fs' l = fs.entry? l := by
  obtain ⟨r, hr, -⟩ := h.leads
  obtain ⟨r, hr⟩ := hr.keep_last
  have hfs : fs.reach true path = r := by rw [reach_eq h.ne_empty, h.startOf_eq, hr.eq_follow]
  have hfs' : fs'.reach true path = r := by
    rw [reach_eq h.ne_empty, startOf, if_pos h.absolute, (hr.congr hsame.entry?).eq_follow]
  rw [locateLink, locateLink, hfs, hfs']
  refine ⟨rfl, fun l hl => ?_⟩
  cases r with
  | arrived loc =>
    obtain rfl : loc = l := by simpa using hl
    exact hsame.entry? loc hr.end_mem
  | missing | linked | failed => simp at hl

lemma status_congr (h : fs.Clear home V path) (hs : fs.Secluded home V)
    (hsame : SameOutside home fs fs') : fs'.status path = fs.status path := by
  obtain ⟨heq, hV⟩ := h.locate_congr hsame
  rw [status, status, heq]
  cases hl : fs.locate path with
  | error e => rfl
  | ok l => simp only [bind, Except.bind, hsame.entry? l (hs.outside (hV l hl))]

end Clear

lemma Names.copyFile_seat {path p source : String} {rest : List String}
    (h : Names fs path home p rest) (hl : ∀ t, fs.entry? (home ++ rest) ≠ some (.link t))
    (hc : fs.copyFile source p = .ok fs') : fs.Seat (home ++ rest) := by
  obtain ⟨entry, -, hc⟩ := ok_of_bind hc
  cases entry with
  | dir | link => cases hc
  | file content executable =>
    obtain ⟨written, hw, -⟩ := ok_of_bind hc
    exact (h.write_eq hl hw).2.1

end FileTree

namespace Workspace

/-- A path of a link to a directory that holds nothing but links, of which a copy is nothing. -/
def LinksOnly (fs : FileTree) (source : String) : Prop :=
  ∃ loc t e, fs.locateLink source = .ok loc ∧ fs.entry? loc = some (.link t) ∧
    fs.status source = .ok e ∧
    ∀ l name e, fs.locate source = .ok l → fs.entry? (l ++ [name]) = some e → ∃ t, e = .link t

variable {before files fs fs' : FileTree} {home : Location} {V : Set Location} {w w' : Workspace}
variable {project name source : String} {taken : List String}

lemma linksOnly_congr (h : fs.Clear home V source) (hs : fs.Secluded home V)
    (hsame : SameOutside home fs fs') : LinksOnly fs' source ↔ LinksOnly fs source := by
  obtain ⟨hlocate, hV⟩ := h.locate_congr hsame
  obtain ⟨hlink, hentry⟩ := h.locateLink_congr hsame
  have hchild (l : Location) (name : String) (hl : fs.locate source = .ok l) :=
    hsame.entry? _ (hs.outside (hs.below l (hV l hl) name))
  rw [LinksOnly, LinksOnly, hlocate, hlink, h.status_congr hs hsame]
  constructor
  · rintro ⟨loc, t, e, hloc, ht, he, hall⟩
    refine ⟨loc, t, e, hloc, (hentry loc hloc).symm.trans ht, he, fun l name e hl he => ?_⟩
    exact hall l name e hl ((hchild l name hl).trans he)
  · rintro ⟨loc, t, e, hloc, ht, he, hall⟩
    refine ⟨loc, t, e, hloc, (hentry loc hloc).trans ht, he, fun l name e hl he => ?_⟩
    exact hall l name e hl ((hchild l name hl).symm.trans he)

lemma listing_links_iff (hw : fs.WellFormed) {l : Location} (hl : fs.locate source = .ok l) :
    (∀ item ∈ fs.listing source, ∃ t, item.2 = .link t) ↔
      ∀ name e, fs.entry? (l ++ [name]) = some e → ∃ t, e = .link t := by
  rw [listing, hl]
  constructor
  · intro h name e he
    have hd := hw.isDirAt_of_append (List.cons_ne_nil name []) he
    simp only [hd, if_true] at h
    cases e with
    | link t => exact ⟨t, rfl⟩
    | dir =>
      obtain ⟨t, ht⟩ := h (name, .dir) (List.mem_flatMap.mpr
        ⟨name, (mem_namesAt hw).mpr (by simp [he]), by simp [he]⟩)
      cases ht
    | file content x =>
      obtain ⟨t, ht⟩ := h (name, .file content x) (List.mem_flatMap.mpr
        ⟨name, (mem_namesAt hw).mpr (by simp [he]), by simp [he]⟩)
      cases ht
  · intro h item hm
    dsimp only at hm
    split at hm
    · obtain ⟨name, hn, hi⟩ := List.mem_flatMap.mp hm
      obtain ⟨e, he⟩ := Option.isSome_iff_exists.mp ((mem_namesAt hw).mp hn)
      obtain ⟨t, rfl⟩ := h name e he
      simp only [he, List.mem_singleton] at hi
      exact ⟨t, by rw [hi]⟩
    · cases hm

lemma copyItems_links_iff (hw : fs.WellFormed) :
    (∃ items, copyItems fs source = .ok items ∧ ∀ item ∈ items, ∃ t, item.2 = .link t) ↔
      LinksOnly fs source := by
  constructor
  · rintro ⟨items, hc, hall⟩
    obtain ⟨loc, hloc, hc⟩ := ok_of_bind hc
    split at hc
    · next t ht =>
      obtain ⟨_, hdone, hc⟩ := ok_of_bind hc
      obtain rfl : fs.listing source = items := Except.ok.inj hc
      cases hs : fs.status source with
      | error e => simp [hs, discard, Functor.mapConst, Except.map] at hdone
      | ok e =>
        exact ⟨loc, t, e, hloc, ht, hs, fun l name e hl he => (listing_links_iff hw hl).mp hall name e he⟩
    · obtain rfl : ("", FileEntry.dir) :: fs.listing source = items := Except.ok.inj hc
      obtain ⟨t, ht⟩ := hall _ List.mem_cons_self
      cases ht
    · next entry hne _ _ =>
      obtain rfl : [("", entry)] = items := Except.ok.inj hc
      obtain ⟨t, ht⟩ := hall _ List.mem_cons_self
      exact absurd ht (hne t)
    · cases hc
  · rintro ⟨loc, t, e, hloc, ht, hs, hall⟩
    obtain ⟨l, hl, -⟩ := ok_of_bind hs
    refine ⟨fs.listing source, ?_, (listing_links_iff hw hl).mpr fun name e he => hall l name e hl he⟩
    simp only [copyItems, hloc, ht, hs, Bind.bind, Except.bind]
    rfl

lemma run_edit_ok {change : FileTree → Except IoError Unit × FileTree}
    (h : change w.files = (.ok (), files)) : (edit change).run w = (.ok (), { w with files }) := by
  have hget : (get : Action Workspace).run w = (.ok w, w) := rfl
  rw [edit, run_bind, hget]
  simp only [h]
  rfl

lemma run_edit_error {change : FileTree → Except IoError Unit × FileTree} {e : IoError}
    (h : change w.files = (.error e, files)) :
    (edit change).run w = (.error (.io e), { w with files }) := by
  have hget : (get : Action Workspace).run w = (.ok w, w) := rfl
  rw [edit, run_bind, hget]
  simp only [h]
  rfl

/-- Nothing is copied to a place whose name is too long. -/
lemma copyItem_too_long (hk : w.session.Kept before home w.files)
    (hd : w.files.isDirAt home = true) (hp : IsName project) (hn : IsName name)
    (hlong : 255 < name.utf8ByteSize) {item : String × FileEntry} {ns : List String}
    (hi : item.1 = joinWith "/" ns) (hns : ∀ n ∈ ns, IsName n) (hitem : ∀ t, item.2 ≠ .link t) :
    ∃ e w', (copyItem source (Path.under w.session.path ["projects", project, "links", name])
      item).run w = (.error e, w') := by
  have hrest := isName_link hp hn
  have hall : ∀ n ∈ ["projects", project, "links", name] ++ ns, IsName n := fun n hm =>
    (List.mem_append.mp hm).elim (hrest n) (hns n)
  have hne := hk.anchored.path_ne_empty
  have hmem : name ∈ home ++ (["projects", project, "links", name] ++ ns) := by simp
  have hx (t : String) :
      w.files.entry? (home ++ ["projects", project, "links", name]) ≠ some (.link t) := fun he => by
    have := (hk.wellFormed.isName_of_some he name (by simp)).2
    omega
  have hplain (xs ys : List String) (t : String)
      (hxs : ["projects", project, "links", name] ++ ns = xs ++ ys) :
      w.files.entry? (home ++ xs) ≠ some (.link t) := not_link_below hk hx hxs
  obtain ⟨path, entry⟩ := item
  obtain rfl : path = joinWith "/" ns := hi
  cases entry with
  | link t => exact absurd rfl (hitem t)
  | dir =>
    rw [copyItem]
    have hmakes := createDirAll_makes (p := Path.join (Path.under w.session.path
        ["projects", project, "links", name]) (joinWith "/" ns)) hk.wellFormed hk.anchored hd (by
      rw [Path.components_join_names (Path.under_ne_empty hne hrest) hns,
        Path.components_under hne hrest, List.map_append, List.append_assoc]) hall hplain
    generalize hr : w.files.createDirAll _ = r at hmakes
    obtain ⟨_ | _, files⟩ := r
    · exact ⟨_, _, run_edit_error hr⟩
    · have := (hmakes.fills.wellFormed.isName_of_some
        (isDirAt_iff.mp (hmakes.isDirAt rfl)) name hmem).2
      omega
  | file content executable =>
    rw [copyItem]
    cases hc : w.files.copyFile (Path.join source (joinWith "/" ns)) (Path.join
        (Path.under w.session.path ["projects", project, "links", name]) (joinWith "/" ns)) with
    | error e => exact ⟨_, _, run_edit_error (by rw [hc]; rfl)⟩
    | ok made =>
      by_cases hnil : ns = []
      · subst hnil
        exact absurd hc (copyFile_slash (Path.under_ne_empty hne hrest) _)
      · have hnames : Names w.files w.session.path home _ _ :=
          ⟨hk.wellFormed, hk.anchored, (Spells.under hk.anchored.slash hrest).join hnil hns,
            fun xs ys t hxs _ => hplain xs ys t hxs⟩
        have := ((hnames.copyFile_seat (fun t => hplain _ [] t (by simp)) hc).isName name hmem).2
        omega

lemma forM_links {target : String} {items : List (String × FileEntry)}
    (h : ∀ item ∈ items, ∃ t, item.2 = .link t) :
    (items.forM (copyItem source target)).run w = (.ok (), w) := by
  induction items with
  | nil => rfl
  | cons item items ih =>
    change (copyItem source target item >>= fun _ => items.forM (copyItem source target)).run w = _
    obtain ⟨path, entry⟩ := item
    obtain ⟨t, rfl⟩ : ∃ t, entry = .link t := h _ List.mem_cons_self
    rw [run_bind]
    exact ih fun item hm => h item (List.mem_cons_of_mem _ hm)

lemma forM_error {target : String} {items : List (String × FileEntry)}
    (hitem : ∀ item ∈ items, (∀ t, item.2 ≠ .link t) →
      ∃ e w', (copyItem source target item).run w = (.error e, w'))
    (h : ∃ item ∈ items, ∀ t, item.2 ≠ .link t) :
    ∃ e w', (items.forM (copyItem source target)).run w = (.error e, w') := by
  induction items with
  | nil => simp at h
  | cons item items ih =>
    change ∃ e w', (copyItem source target item >>= fun _ =>
      items.forM (copyItem source target)).run w = (.error e, w')
    rw [run_bind]
    by_cases hlink : ∃ t, item.2 = .link t
    · obtain ⟨path, entry⟩ := item
      obtain ⟨t, rfl⟩ := hlink
      refine ih (fun item hm => hitem item (List.mem_cons_of_mem _ hm)) ?_
      obtain ⟨other, hm, hne⟩ := h
      rcases List.mem_cons.mp hm with rfl | hm
      · exact absurd rfl (hne t)
      · exact ⟨other, hm, hne⟩
    · obtain ⟨e, w', hr⟩ := hitem item List.mem_cons_self fun t ht => hlink ⟨t, ht⟩
      exact ⟨e, w', by rw [hr]⟩

/-- Only of a tree of links there is a copy under a name that is too long: nothing. -/
lemma copyTree_too_long (hk : w.session.Kept before home w.files)
    (hd : w.files.isDirAt home = true) (hp : IsName project) (hn : IsName name)
    (hlong : 255 < name.utf8ByteSize) :
    LinksOnly w.files source ∧ (copyTree source
        (Path.under w.session.path ["projects", project, "links", name])).run w = (.ok (), w) ∨
      ¬ LinksOnly w.files source ∧ ∃ e w', (copyTree source
        (Path.under w.session.path ["projects", project, "links", name])).run w = (.error e, w') := by
  have hget : (get : Action Workspace).run w = (.ok w, w) := rfl
  rw [copyTree, run_bind, hget, ← copyItems_links_iff hk.wellFormed]
  simp only
  cases hc : copyItems w.files source with
  | error e => exact .inr ⟨by simp, _, _, rfl⟩
  | ok items =>
    by_cases hall : ∀ item ∈ items, ∃ t, item.2 = .link t
    · exact .inl ⟨⟨items, rfl, hall⟩, forM_links hall⟩
    · refine .inr ⟨?_, ?_⟩
      · rintro ⟨_, heq, hlinks⟩
        exact hall (Except.ok.inj heq ▸ hlinks)
      refine forM_error (fun item hm hitem => ?_) (by simpa using hall)
      obtain ⟨ns, hi, hns⟩ := copyItems_paths hk.wellFormed hc item hm
      exact copyItem_too_long hk hd hp hn hlong hi hns hitem

/-- A source directory gets its link if the name of the link is not too long. -/
lemma materialize_run (source : String) (hm : w.mode = .link) (hk : w.session.Kept before home w.files)
    (hd : w.files.isDirAt (home ++ ["projects", project, "links"]) = true) (hp : IsName project)
    (hn : IsName name)
    (hx : w.files.entry? (home ++ ["projects", project, "links", name]) = none) :
    (name.utf8ByteSize ≤ 255 → w.files.Seat (home ++ ["projects", project, "links", name]) ∧
      (materialize source (Path.under w.session.path ["projects", project, "links", name])).run w =
        (.ok (), { w with files := w.files.insert (home ++ ["projects", project, "links", name])
                            (.link source) })) ∧
    (255 < name.utf8ByteSize →
      LinksOnly w.files source ∧ (materialize source
        (Path.under w.session.path ["projects", project, "links", name])).run w = (.ok (), w) ∨
      ¬ LinksOnly w.files source ∧ ∃ e w', (materialize source
        (Path.under w.session.path ["projects", project, "links", name])).run w = (.error e, w')) := by
  have hget : (get : Action Workspace).run w = (.ok w, w) := rfl
  obtain ⟨b, -, hreach⟩ := hk.anchored.reach_below
  have hfollow := hreach w.files .refl hk.wellFormed _ hd
    (Path.under w.session.path ["projects", project, "links", name]) [name]
    (.under hk.anchored.slash (isName_link hp hn)) true
  have hplace : home ++ ["projects", project, "links"] ++ [name] =
      home ++ ["projects", project, "links", name] := by simp
  rw [materialize, run_bind, hget]
  simp only [hm]
  constructor
  · intro hf
    have hmissing := hfollow.trans (follow_missing hd ⟨hn.ne_point, hn.ne_points, hf⟩
      (by rw [hplace, hx]))
    rw [hplace] at hmissing
    refine ⟨hplace ▸ .of_dir hk.wellFormed hd hn hf, ?_⟩
    simp only [createLink, hmissing]
    rfl
  · intro hf
    have hfailed := hfollow.trans (follow_too_long hd hf)
    simp only [createLink, hfailed]
    refine copyTree_too_long hk ?_ hp hn hf
    exact hk.wellFormed.isDirAt_of_append (by simp) (isDirAt_iff.mp hd)

/-- The links for the source directories of a class path, and the class path with these in their
place. -/
def linkPlan (dir : String) :
    List String → List ClasspathEntry → List LinkedRoot × List ClasspathEntry
  | _, [] => ([], [])
  | taken, .source root :: rest =>
    let name := uniqueName taken (linkName root.relative)
    let link := Path.join dir name
    let plan := linkPlan dir (name :: taken) rest
    (⟨name, link, root.path⟩ :: plan.1, .source { root with path := link } :: plan.2)
  | taken, entry :: rest =>
    let plan := linkPlan dir taken rest
    (plan.1, entry :: plan.2)

/-- Whether a source directory can get its place. -/
def Hangs (fs : FileTree) (r : LinkedRoot) : Prop :=
  r.name.utf8ByteSize ≤ 255 ∨ LinksOnly fs r.external

/-- Links hang in their place, and nothing else is new. -/
structure Hung (home : Location) (project : String) (roots : List LinkedRoot) (fs fs' : FileTree) :
    Prop where
  links : ∀ r ∈ roots, r.name.utf8ByteSize ≤ 255 →
    fs'.entry? (home ++ ["projects", project, "links", r.name]) = some (.link r.external)
  others : ∀ l, (∀ r ∈ roots, l ≠ home ++ ["projects", project, "links", r.name]) →
    FileTree.entry? fs' l = fs.entry? l

/-- A workspace in which the links of a project can be made. -/
structure Prepared (before : FileTree) (home : Location) (project : String) (taken : List String)
    (w : Workspace) : Prop where
  mode : w.mode = .link
  kept : w.session.Kept before home w.files
  dir : w.files.isDirAt (home ++ ["projects", project, "links"]) = true
  free : ∀ name ∉ taken, w.files.entry? (home ++ ["projects", project, "links", name]) = none

lemma linkPlan_mem {dir : String} {entries : List ClasspathEntry}
    {r : LinkedRoot} (h : r ∈ (linkPlan dir taken entries).1) :
    IsPlain r.name ∧ r.name ∉ taken ∧ r.link = Path.join dir r.name ∧
      ∃ root, .source root ∈ entries ∧ r.external = root.path := by
  induction entries generalizing taken with
  | nil => cases h
  | cons entry rest ih =>
    cases entry with
    | source root =>
      rcases List.mem_cons.mp h with rfl | h
      · exact ⟨isPlain_uniqueName (isPlain_linkName root.relative) taken, uniqueName_not_mem _ _, rfl,
          root, List.mem_cons_self, rfl⟩
      · obtain ⟨hn, ht, hl, other, hm, he⟩ := ih h
        exact ⟨hn, fun hh => ht (List.mem_cons_of_mem _ hh), hl, other, List.mem_cons_of_mem _ hm, he⟩
    | container | library =>
      obtain ⟨hn, ht, hl, other, hm, he⟩ := ih h
      exact ⟨hn, ht, hl, other, List.mem_cons_of_mem _ hm, he⟩

lemma exists_linkPlan {dir : String} {entries : List ClasspathEntry} {root : SourceRoot}
    (h : .source root ∈ entries) :
    ∃ r ∈ (linkPlan dir taken entries).1, r.external = root.path := by
  induction entries generalizing taken with
  | nil => cases h
  | cons entry rest ih =>
    rcases List.mem_cons.mp h with rfl | hm
    · exact ⟨_, List.mem_cons_self, rfl⟩
    · cases entry with
      | source other =>
        obtain ⟨r, hr, he⟩ := ih hm
        exact ⟨r, List.mem_cons_of_mem _ hr, he⟩
      | container | library => exact ih hm

lemma linkPlan_nodup (dir : String) (taken : List String) (entries : List ClasspathEntry) :
    ((linkPlan dir taken entries).1.map (·.name)).Nodup := by
  induction entries generalizing taken with
  | nil => exact List.nodup_nil
  | cons entry rest ih =>
    cases entry with
    | source root =>
      refine List.nodup_cons.mpr ⟨fun hm => ?_, ih _⟩
      obtain ⟨r, hr, hn⟩ := List.mem_map.mp hm
      exact (linkPlan_mem hr).2.1 (hn ▸ List.mem_cons_self)
    | container | library => exact ih taken

lemma Prepared.skip (h : Prepared before home project taken w) (name : String) :
    Prepared before home project (name :: taken) w :=
  ⟨h.mode, h.kept, h.dir, fun other ho => h.free other fun hm => ho (List.mem_cons_of_mem _ hm)⟩

lemma Prepared.hang (h : Prepared before home project taken w) (hn : '.' ∉ name.toList)
    (ht : name ∉ taken) (hseat : w.files.Seat (home ++ ["projects", project, "links", name]))
    (target : String) :
    Prepared before home project (name :: taken)
      { w with files := w.files.insert (home ++ ["projects", project, "links", name])
                 (.link target) } := by
  refine ⟨h.mode, h.kept.of_link hn hseat (h.free name ht), ?_, fun other ho => ?_⟩
  · rw [isDirAt_congr (entry?_insert hseat.ne_nil |>.trans (if_neg (by simp))), h.dir]
  · obtain ⟨hne, ho⟩ : other ≠ name ∧ other ∉ taken := by simpa using ho
    rw [entry?_insert hseat.ne_nil, if_neg (by simpa using hne), h.free other ho]

lemma Hung.cons {r : LinkedRoot} {roots : List LinkedRoot} {made : FileTree}
    (h : Hung home project roots made fs') (hne : ∀ other ∈ roots, r.name ≠ other.name)
    (hlink : r.name.utf8ByteSize ≤ 255 →
      made.entry? (home ++ ["projects", project, "links", r.name]) = some (.link r.external))
    (hothers : ∀ l, l ≠ home ++ ["projects", project, "links", r.name] →
      made.entry? l = fs.entry? l) :
    Hung home project (r :: roots) fs fs' := by
  refine ⟨fun other hm hf => ?_, fun l hl => ?_⟩
  · rcases List.mem_cons.mp hm with rfl | hm
    · rw [h.others _ fun o ho => by simpa using hne o ho, hlink hf]
    · exact h.links other hm hf
  · rw [h.others l fun o ho => hl o (List.mem_cons_of_mem _ ho), hothers l (hl r List.mem_cons_self)]

lemma linkEntries_plan {dir : String} {entries : List ClasspathEntry}
    {plan : List LinkedRoot × List ClasspathEntry}
    (h : (linkEntries dir taken entries).run w = (.ok plan, w')) :
    plan = linkPlan dir taken entries := by
  induction entries generalizing taken w w' plan with
  | nil =>
    cases h
    rfl
  | cons entry rest ih =>
    cases entry with
    | source root =>
      obtain ⟨_, _, -, h⟩ := ok_of_run_bind h
      obtain ⟨rest', _, hrest, h⟩ := ok_of_run_bind h
      cases h
      rw [linkPlan, ← ih hrest]
    | container runtime =>
      obtain ⟨rest', _, hrest, h⟩ := ok_of_run_bind h
      cases h
      rw [linkPlan, ← ih hrest]
      exact nofun
    | library path =>
      obtain ⟨rest', _, hrest, h⟩ := ok_of_run_bind h
      cases h
      rw [linkPlan, ← ih hrest]
      exact nofun

/-- What making the links of a class path comes to: all of them hang, or one of them cannot. -/
inductive Linked (before : FileTree) (home : Location) (project : String) (w : Workspace)
    (plan : List LinkedRoot × List ClasspathEntry) :
    Except WorkspaceError (List LinkedRoot × List ClasspathEntry) × Workspace → Prop
  | all {files : FileTree} : (∀ r ∈ plan.1, Hangs before r) → w.session.Kept before home files →
      Hung home project plan.1 w.files files →
      Linked before home project w plan (.ok plan, { w with files })
  | failed {e : WorkspaceError} {w' : Workspace} {r : LinkedRoot} : r ∈ plan.1 →
      ¬ Hangs before r → Linked before home project w plan (.error e, w')

/-- The first source directory has got its place, and then the others. -/
lemma Linked.cons {dir : String} {root : SourceRoot} {rest : List ClasspathEntry} {made : FileTree}
    (hh : Hangs before ⟨name, Path.join dir name, root.path⟩)
    (hrun : (materialize root.path (Path.join dir name)).run w = (.ok (), { w with files := made }))
    (hlink : name.utf8ByteSize ≤ 255 →
      made.entry? (home ++ ["projects", project, "links", name]) = some (.link root.path))
    (hothers : ∀ l, l ≠ home ++ ["projects", project, "links", name] →
      made.entry? l = w.files.entry? l)
    (h : Linked before home project { w with files := made } (linkPlan dir (name :: taken) rest)
      ((linkEntries dir (name :: taken) rest).run { w with files := made })) :
    Linked before home project w
      (⟨name, Path.join dir name, root.path⟩ :: (linkPlan dir (name :: taken) rest).1,
        .source { root with path := Path.join dir name } :: (linkPlan dir (name :: taken) rest).2)
      ((do
        materialize root.path (Path.join dir name)
        let (roots, entries) ← linkEntries dir (name :: taken) rest
        pure (⟨name, Path.join dir name, root.path⟩ :: roots,
          .source { root with path := Path.join dir name } :: entries) :
        Action (List LinkedRoot × List ClasspathEntry)).run w) := by
  rw [run_bind, hrun]
  simp only [run_bind]
  generalize (linkEntries dir (name :: taken) rest).run { w with files := made } = result at h
  cases h with
  | all hall hk hhung =>
    refine .all (fun r hr => ?_) hk (hhung.cons (fun other ho => ?_) hlink hothers)
    · rcases List.mem_cons.mp hr with rfl | hr
      · exact hh
      · exact hall r hr
    · exact fun heq => (linkPlan_mem ho).2.1 (heq ▸ List.mem_cons_self)
  | failed hr hbad => exact .failed (List.mem_cons_of_mem _ hr) hbad

theorem linkEntries_linked (hs : before.Secluded home V) {entries : List ClasspathEntry}
    (hc : ∀ root, .source root ∈ entries → before.Clear home V root.path) (hp : IsName project)
    {dir : String} (hdir : dir = Path.under w.session.path ["projects", project, "links"])
    (h : Prepared before home project taken w) :
    Linked before home project w (linkPlan dir taken entries)
      ((linkEntries dir taken entries).run w) := by
  induction entries generalizing taken w with
  | nil => exact .all nofun h.kept ⟨nofun, fun _ _ => rfl⟩
  | cons entry rest ih =>
    have hrest (root : SourceRoot) (hm : .source root ∈ rest) := hc root (List.mem_cons_of_mem _ hm)
    have hskip (entry : ClasspathEntry) (h : Linked before home project w (linkPlan dir taken rest)
        ((linkEntries dir taken rest).run w)) : Linked before home project w
          ((linkPlan dir taken rest).1, entry :: (linkPlan dir taken rest).2) ((do
            let (roots, entries) ← linkEntries dir taken rest
            pure (roots, entry :: entries) :
            Action (List LinkedRoot × List ClasspathEntry)).run w) := by
      rw [run_bind]
      generalize (linkEntries dir taken rest).run w = result at h
      cases h with
      | all hall hk hhung => exact .all hall hk hhung
      | failed hr hbad => exact .failed hr hbad
    cases entry with
    | container runtime => exact hskip _ (ih hrest hdir h)
    | library path => exact hskip _ (ih hrest hdir h)
    | source root =>
      rw [linkEntries, linkPlan]
      have hplain := isPlain_uniqueName (isPlain_linkName root.relative) taken
      have hfresh := uniqueName_not_mem taken (linkName root.relative)
      generalize uniqueName taken (linkName root.relative) = name at hplain hfresh
      have hjoin : Path.join dir name =
          Path.under w.session.path ["projects", project, "links", name] := by
        rw [hdir, Path.join_under]
        rfl
      obtain ⟨hfit, hlong⟩ := materialize_run root.path h.mode h.kept h.dir hp hplain.isName
        (h.free name hfresh)
      rw [← hjoin] at hfit hlong
      by_cases hf : name.utf8ByteSize ≤ 255
      · obtain ⟨hseat, hrun⟩ := hfit hf
        refine .cons (.inl hf) hrun (fun _ => ?_) (fun l hl => ?_)
          (ih hrest hdir (h.hang hplain.no_point hfresh hseat root.path))
        · rw [entry?_insert hseat.ne_nil, if_pos rfl]
        · rw [entry?_insert hseat.ne_nil, if_neg hl]
      · have hiff := linksOnly_congr (hc root List.mem_cons_self) hs h.kept.same
        rcases hlong (by omega) with ⟨honly, hrun⟩ | ⟨honly, e, w', hrun⟩
        · exact .cons (.inr (hiff.mp honly)) hrun (absurd · hf) (fun _ _ => rfl)
            (ih hrest hdir (h.skip name))
        · rw [run_bind, hrun]
          exact .failed List.mem_cons_self fun hh => hh.elim hf fun hh => honly (hiff.mpr hh)

lemma ok_of_edit {change : FileTree → Except IoError Unit × FileTree} {a : Unit}
    (h : (edit change).run w = (.ok a, w')) :
    ∃ files, change w.files = (.ok (), files) ∧ w' = { w with files } := by
  rcases hc : change w.files with ⟨_ | _, files⟩
  · rw [run_edit_error hc] at h
    cases h
  · rw [run_edit_ok hc] at h
    exact ⟨files, rfl, (Prod.mk.inj h).2.symm⟩

/-- The project that a tree becomes. -/
def planned (session : Session) (treeRoot : String) (entries : List ClasspathEntry) : BoundProject :=
  let name := projectName treeRoot
  let location := session.projectDir name
  let plan := linkPlan (Path.join location "links") [] entries
  ⟨name, location, Path.join location "bin", plan.1, plan.2⟩

lemma bind_planned {treeRoot : String} {entries : List ClasspathEntry} {bound : BoundProject}
    (h : (bind treeRoot entries).run w = (.ok bound, w')) :
    bound = planned w.session treeRoot entries := by
  rw [run_bind_eq] at h
  split at h
  · cases h
  · obtain ⟨_, _, -, h⟩ := ok_of_run_bind h
    obtain ⟨_, _, -, h⟩ := ok_of_run_bind h
    obtain ⟨plan, _, hplan, h⟩ := ok_of_run_bind h
    obtain ⟨_, _, -, h⟩ := ok_of_run_bind h
    cases h
    rw [linkEntries_plan hplan]
    rfl

/-- The links of a project stand in the directory of the session. -/
structure Stands (before : FileTree) (home : Location) (session : Session) (bound : BoundProject)
    (files : FileTree) : Prop where
  kept : session.Kept before home files
  dir : files.isDirAt (home ++ ["projects", bound.name, "links"]) = true
  links : ∀ r ∈ bound.roots, r.name.utf8ByteSize ≤ 255 →
    files.entry? (home ++ ["projects", bound.name, "links", r.name]) = some (.link r.external)

/-- The links stand when another project is taken out. -/
lemma Stands.unbind {session : Session} {bound : BoundProject}
    (h : Stands before home session bound files) (hn : IsName name) (hne : name ≠ bound.name) :
    Stands before home session bound (files.removeTree (session.projectDir name)) := by
  have hr := h.kept.removed_project hn
  have hkeep (rest : List String) :
      FileTree.entry? (files.removeTree (session.projectDir name)) (home ++ "projects" :: bound.name :: rest) =
        files.entry? (home ++ "projects" :: bound.name :: rest) := by
    rw [hr.entry?, if_neg]
    intro hp
    have hp := (List.prefix_append_right_inj home).mp hp
    exact hne (by simpa using hp)
  refine ⟨h.kept.remove_project hn, ?_, fun r hr hf => ?_⟩
  · rw [isDirAt_congr (hkeep ["links"]), h.dir]
  · rw [hkeep ["links", r.name], h.links r hr hf]

lemma prepared_of_makes (hm : w.mode = .link) (hk : w.session.Kept before home w.files)
    {made made' : FileTree}
    (hfree : w.files.entry? (home ++ ["projects", project]) = none)
    (hl : MakesDirs w.files home ["projects", project, "links"] (.ok (), made))
    (hb : MakesDirs made home ["projects", project, "bin"] (.ok (), made')) :
    Prepared before home project [] { w with files := made' } := by
  have hz {rest : List String} (l : Location) (h : l ∈ stepsDown home rest) :
      home <+: l ∧ l ≠ home := ⟨h.1, h.2.1⟩
  refine ⟨hm, (hk.of_fills hl.fills hz).of_fills hb.fills hz, ?_, fun name _ => ?_⟩
  · have he := (hb.fills.entry? (home ++ ["projects", project, "links"])).resolve_right fun hh => by
      simpa using (List.prefix_append_right_inj home).mp hh.1.2.2
    rw [isDirAt_congr he, hl.isDirAt rfl]
  · have hlong {last : String} (hh : home ++ ["projects", project, "links", name] <+:
        home ++ ["projects", project, last]) : False := by
      simpa using hh.length_le
    rw [(hb.fills.entry? _).resolve_right fun hh => hlong hh.1.2.2,
      (hl.fills.entry? _).resolve_right fun hh => hlong hh.1.2.2]
    exact hk.wellFormed.entry?_eq_none_below hfree (by simp)

lemma ok_of_register {p : Project} {a : Unit} (h : (register p).run w = (.ok a, w')) :
    ∃ engine, w.engine.create p = .ok engine ∧ w' = { w with engine } := by
  have hget : (get : Action Workspace).run w = (.ok w, w) := rfl
  rw [register, run_bind, hget] at h
  simp only at h
  cases hc : w.engine.create p with
  | error e =>
    rw [hc] at h
    cases h
  | ok engine =>
    rw [hc] at h
    exact ⟨engine, rfl, (Prod.mk.inj h).2.symm⟩

/-- What a project is that was put into the workspace by links. -/
theorem bind_stands (hs : before.Secluded home V) {entries : List ClasspathEntry}
    (hc : ∀ root, .source root ∈ entries → before.Clear home V root.path) (hm : w.mode = .link)
    (hk : w.session.Kept before home w.files) {treeRoot : String} {bound : BoundProject}
    (h : (bind treeRoot entries).run w = (.ok bound, w')) :
    w'.session = w.session ∧ Stands before home w.session bound w'.files ∧
      (∀ r ∈ bound.roots, Hangs before r) ∧ bound.name.utf8ByteSize ≤ 255 := by
  have hp := (isPlain_projectName treeRoot).isName
  rw [run_bind_eq] at h
  split at h
  · cases h
  next ht =>
  have ht : w.session.tornDown = false := by simpa using ht
  generalize projectName treeRoot = project at h hp
  have hkept := hk.remove_project hp
  have hgone := Removed.entry? (hk.removed_project hp) (home ++ ["projects", project])
  rw [if_pos List.prefix_rfl] at hgone
  obtain ⟨_, w₁, hedit, h⟩ := ok_of_run_bind h
  obtain ⟨files₁, h₁, rfl⟩ := ok_of_edit hedit
  obtain ⟨_, w₂, hedit, h⟩ := ok_of_run_bind h
  obtain ⟨files₂, h₂, rfl⟩ := ok_of_edit hedit
  obtain ⟨plan, w₃, h₃, h⟩ := ok_of_run_bind h
  obtain ⟨_, w₄, hregister, h⟩ := ok_of_run_bind h
  obtain ⟨engine, -, rfl⟩ := ok_of_register hregister
  have hlinks := h₁ ▸ hkept.makes_dirs (hkept.isDirAt_home ht) hp (show IsName "links" by decide)
  have hkept₁ := hkept.of_fills hlinks.fills fun l hl => ⟨hl.1, hl.2.1⟩
  have hbin := h₂ ▸ hkept₁.makes_dirs (hkept₁.isDirAt_home ht) hp (show IsName "bin" by decide)
  have hprep : Prepared before home project [] _ :=
    prepared_of_makes (w := w.unbind project) hm hkept hgone hlinks hbin
  have hdir : Path.join (w.session.projectDir project) "links" =
      Path.under w.session.path ["projects", project, "links"] := rfl
  have hlinked := linkEntries_linked (w := { w.unbind project with files := files₂ }) hs hc hp hdir hprep
  rw [h₃] at hlinked
  cases hlinked with
  | all hall hkept' hhung =>
    obtain ⟨hbound, rfl⟩ := Prod.mk.inj h
    obtain rfl := Except.ok.inj hbound
    have hstands := hprep.dir
    rw [← isDirAt_congr (hhung.others _ fun r _ => by simp)] at hstands
    refine ⟨rfl, ⟨hkept', hstands, hhung.links⟩, hall, ?_⟩
    exact (hkept'.wellFormed.isName_of_some (isDirAt_iff.mp hstands) project (by simp)).2

lemma isValidName_of_isPlain (h : IsPlain name) : Engine.isValidName name = true := by
  have hno {c : Char} (hc : c.isAlphanum = false) (hu : c ≠ '_') : hasChar c name = false := by
    rw [hasChar, Bool.eq_false_iff]
    intro hm
    exact (h.chars c (by simpa using hm)).elim (by simp [hc]) hu
  have hslash := hno (show '/'.isAlphanum = false by decide) (by decide)
  have hback := hno (show '\\'.isAlphanum = false by decide) (by decide)
  simp [Engine.isValidName, hslash, hback, h.ne_empty, h.isName.ne_point, h.isName.ne_points]

lemma isWithin_projectDir (hk : w.session.Kept before home w.files) (hp : IsName project)
    (hengine : w.engine.workspace = w.session.path) :
    Path.isWithin w.engine.workspace (w.session.projectDir project) = true := by
  have hcs := Path.components_under hk.anchored.path_ne_empty
    (show ∀ n ∈ ["projects", project], IsName n by simp [hp]; decide)
  have hdir : w.session.projectDir project = Path.under w.session.path ["projects", project] := rfl
  rw [Path.isWithin, hengine, hdir, hcs, List.isPrefixOf_iff_prefix]
  exact List.prefix_append _ _

/-- A project whose name is free and that lies in the workspace is registered. -/
lemma register_ok {p : Project} (hn : Engine.isValidName p.name = true)
    (hl : Path.isWithin w.engine.workspace p.location = true) (hd : w.engine.project? p.name = none) :
    (register p).run w =
      (.ok (), { w with engine := { w.engine with projects := w.engine.projects ++ [p] } }) := by
  have hget : (get : Action Workspace).run w = (.ok w, w) := rfl
  rw [register, run_bind, hget]
  simp only [Engine.create, hn, hl, hd]
  rfl

lemma free_project {last : String} (h₀ : fs.isDirAt home = true)
    (h₁ : fs.entry? (home ++ ["projects"]) = none ∨ fs.isDirAt (home ++ ["projects"]) = true)
    (h₂ : fs.entry? (home ++ ["projects", project]) = none ∨
      fs.isDirAt (home ++ ["projects", project]) = true)
    (h₃ : fs.entry? (home ++ ["projects", project, last]) = none) :
    Free fs home ["projects", project, last] := by
  intro xs ys hx
  rcases xs with _ | ⟨a, _ | ⟨b, _ | ⟨c, xs⟩⟩⟩
  · exact .inr (by simpa using h₀)
  · obtain ⟨rfl, -⟩ := List.cons.inj hx
    exact h₁
  · obtain ⟨rfl, rfl, -⟩ : "projects" = a ∧ project = b ∧ _ := by simpa using hx
    exact h₂
  · obtain ⟨rfl, rfl, rfl, rfl, -⟩ : "projects" = a ∧ project = b ∧ last = c ∧ xs = [] ∧ ys = [] := by
      simpa [eq_comm] using hx
    exact .inl h₃

/-- The directories of a project are made where there is none of it. -/
lemma project_dirs_made (hm : w.mode = .link) (hk : w.session.Kept before home w.files)
    (ht : w.session.tornDown = false) (hp : IsName project) (hfit : project.utf8ByteSize ≤ 255)
    (hprojects : w.files.entry? (home ++ ["projects"]) = none ∨
      w.files.isDirAt (home ++ ["projects"]) = true)
    (hgone : w.files.entry? (home ++ ["projects", project]) = none) :
    ∃ made made', w.files.createDirAll (Path.under w.session.path ["projects", project, "links"]) =
        (.ok (), made) ∧
      made.createDirAll (Path.under w.session.path ["projects", project, "bin"]) = (.ok (), made') ∧
      Prepared before home project [] { w with files := made' } := by
  have hfits (last : String) (hl : last.utf8ByteSize ≤ 255) :
      ∀ n ∈ ["projects", project, last], n.utf8ByteSize ≤ 255 := by
    simp only [List.forall_mem_cons]
    exact ⟨by decide, hfit, hl, by simp⟩
  have hnone (last : String) := hk.wellFormed.entry?_eq_none_below hgone
    (show home ++ ["projects", project] <+: home ++ ["projects", project, last] by simp)
  have hlinks := hk.makes_dirs (hk.isDirAt_home ht) hp (show IsName "links" by decide)
  have hok := hlinks.ok (hfits "links" (by decide))
    (free_project (hk.isDirAt_home ht) hprojects (.inl hgone) (hnone "links"))
  generalize w.files.createDirAll (Path.under w.session.path ["projects", project, "links"]) = result
    at hlinks hok
  obtain ⟨_, made⟩ := result
  obtain rfl : _ = Except.ok () := hok
  have hkept := hk.of_fills hlinks.fills fun l hl => ⟨hl.1, hl.2.1⟩
  have hbin := hkept.makes_dirs (hkept.isDirAt_home ht) hp (show IsName "bin" by decide)
  have hfree : Free made home ["projects", project, "bin"] := by
    have hd := isDirAt_iff.mp (hlinks.isDirAt rfl)
    have hin := hlinks.fills.wellFormed.isDirAt_of_append (List.cons_ne_nil "links" [])
      (show made.entry? (home ++ ["projects", project] ++ ["links"]) = _ by simpa using hd)
    have hout := hlinks.fills.wellFormed.isDirAt_of_append (List.cons_ne_nil project [])
      (show made.entry? (home ++ ["projects"] ++ [project]) = _ by simpa using isDirAt_iff.mp hin)
    refine free_project (hkept.isDirAt_home ht) (.inr hout) (.inr hin) ?_
    refine ((hlinks.fills.entry? _).resolve_right fun hh => ?_).trans (hnone "bin")
    simpa using (List.prefix_append_right_inj home).mp hh.1.2.2
  have hok := hbin.ok (hfits "bin" (by decide)) hfree
  generalize hr : made.createDirAll (Path.under w.session.path ["projects", project, "bin"]) = result
    at hbin hok
  obtain ⟨_, made'⟩ := result
  obtain rfl : _ = Except.ok () := hok
  exact ⟨made, made', rfl, hr, prepared_of_makes hm hk hgone hlinks hbin⟩

/-- A tree can be put into the workspace if the names of its project and of its links are not too
long. -/
theorem bind_succeeds (hs : before.Secluded home V) {entries : List ClasspathEntry}
    (hc : ∀ root, .source root ∈ entries → before.Clear home V root.path) (hm : w.mode = .link)
    (hk : w.session.Kept before home w.files) (ht : w.session.tornDown = false)
    (hprojects : w.files.entry? (home ++ ["projects"]) = none ∨
      w.files.isDirAt (home ++ ["projects"]) = true)
    (hengine : w.engine.workspace = w.session.path) {treeRoot : String}
    (hall : ∀ r ∈ (planned w.session treeRoot entries).roots, Hangs before r)
    (hfit : (projectName treeRoot).utf8ByteSize ≤ 255) :
    ∃ w', (bind treeRoot entries).run w = (.ok (planned w.session treeRoot entries), w') := by
  have hplain := isPlain_projectName treeRoot
  rw [run_bind_eq, if_neg (by simp [ht])]
  rw [planned] at hall ⊢
  generalize projectName treeRoot = project at hplain hfit hall
  have hp := hplain.isName
  have hremoved := hk.removed_project hp
  have hgone := (hremoved.entry? (home ++ ["projects", project])).trans (if_pos List.prefix_rfl)
  have hkeep := (hremoved.entry? (home ++ ["projects"])).trans (if_neg (by simp))
  rw [← hkeep, ← isDirAt_congr hkeep] at hprojects
  obtain ⟨made, made', h₁, h₂, hprep⟩ := project_dirs_made (w := w.unbind project) hm
    (hk.remove_project hp) ht hp hfit hprojects hgone
  have hdir : Path.join (w.session.projectDir project) "links" =
      Path.under w.session.path ["projects", project, "links"] := rfl
  have hlinked := linkEntries_linked (w := { w.unbind project with files := made' }) hs hc hp hdir hprep
  have hedit : (edit (·.createDirAll (Path.join (w.session.projectDir project) "links"))).run
      (w.unbind project) = (.ok (), { w.unbind project with files := made }) := run_edit_ok h₁
  have hedit' : (edit (·.createDirAll (Path.join (w.session.projectDir project) "bin"))).run
      { w.unbind project with files := made } = (.ok (), { w.unbind project with files := made' }) :=
    run_edit_ok h₂
  rw [build, run_bind, hedit]
  dsimp only
  rw [run_bind, hedit']
  dsimp only
  rw [run_bind]
  generalize (linkEntries (Path.join (w.session.projectDir project) "links") [] entries).run
    { w.unbind project with files := made' } = result at hlinked
  cases hlinked with
  | failed hr hbad => exact absurd (hall _ hr) hbad
  | all _ _ _ =>
    dsimp only
    rw [run_bind, register_ok]
    · exact ⟨_, rfl⟩
    · exact isValidName_of_isPlain hplain
    · have hwithin := isWithin_projectDir hk hp hengine
      exact hwithin
    · simp [Engine.project?, unbind, Engine.delete]

end Workspace

end JavaAtlas
