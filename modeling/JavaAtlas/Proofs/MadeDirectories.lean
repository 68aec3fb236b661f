import JavaAtlas.Proofs.SourceTreeSafety

/-! Trees in which directories are made and nothing else happens. What a path led to it leads to
still, and a directory that was made once cannot be made again. -/

namespace JavaAtlas

open Text

namespace FileTree

variable {fs fs' fs'' : FileTree} {loc l : Location} {b : Nat} {ns : List String} {path : String}

/-- The entries that come up are directories. -/
structure GrowsDirs (fs fs' : FileTree) : Prop extends Grows fs fs' where
  added : ∀ l, fs.entry? l = none → FileTree.entry? fs' l = none ∨ FileTree.entry? fs' l = some .dir

namespace GrowsDirs

lemma refl (hw : fs.WellFormed) : GrowsDirs fs fs := ⟨.refl hw, fun _ h => .inl h⟩

lemma trans (h : GrowsDirs fs fs') (h' : GrowsDirs fs' fs'') : GrowsDirs fs fs'' := by
  refine ⟨h.toGrows.trans h'.toGrows, fun l hl => ?_⟩
  rcases h.added l hl with hn | hd
  · exact h'.added l hn
  · exact .inr (h'.toGrows.entry? l _ hd)

end GrowsDirs

/-- A directory is made where the path leads to nothing. -/
lemma createDir_ok_iff : fs.createDir path = .ok fs' ↔
    ∃ loc, fs.reach true (withoutSlash path) = .missing loc ∧ fs' = fs.insert loc .dir := by
  rw [createDir]
  cases fs.reach true (withoutSlash path) <;> simp [eq_comm]

lemma createDir_growsDirs (hw : fs.WellFormed) (h : fs.createDir path = .ok fs') :
    GrowsDirs fs fs' := by
  refine ⟨createDir_grows hw h, fun l hl => ?_⟩
  obtain ⟨loc, hr, rfl⟩ := createDir_ok_iff.mp h
  rw [entry?_insert (seat_of_reach hw hr).1.ne_nil]
  split
  · exact .inr rfl
  · exact .inl hl

section Persistence

variable {keepLast : Bool} {S : Set Location}

lemma Grows.isDirAt (h : Grows fs fs') (hd : fs.isDirAt l = true) : fs'.isDirAt l = true :=
  isDirAt_iff.mpr (h.entry? l _ (isDirAt_iff.mp hd))

/-- A path that leads somewhere leads there still. -/
lemma Follows.arrived_of_grows (h : fs.Follows S keepLast b loc ns (.arrived l))
    (hg : Grows fs fs') : fs'.follow keepLast b loc ns = .arrived l := by
  generalize hr : Walk.arrived l = r at h
  induction h with
  | here =>
    obtain rfl := Walk.arrived.inj hr
    exact follow_nil
  | kept hk _ hd hn _ he =>
    obtain rfl := Walk.arrived.inj hr
    subst hk
    exact follow_kept (hg.isDirAt hd) hn (hg.entry? _ _ he)
  | stay _ hd _ ih => rw [follow_point (hg.isDirAt hd), ih hr]
  | up _ hd _ ih => rw [follow_points (hg.isDirAt hd), ih hr]
  | link hk _ hd hn _ he _ ih => rw [follow_link (hg.isDirAt hd) hn (hg.entry? _ _ he) hk, ih hr]
  | enter _ hd hn he hl _ ih => rw [follow_enter (hg.isDirAt hd) hn (hg.entry? _ _ he) hl, ih hr]
  | _ => cases hr

lemma follow_arrived_of_grows (h : fs.follow keepLast b loc ns = .arrived l)
    (hg : Grows fs fs') : fs'.follow keepLast b loc ns = .arrived l := by
  have hf := fs.follows_follow keepLast b loc ns
  rw [h] at hf
  exact hf.arrived_of_grows hg

end Persistence

/-- A path leads to a place, links followed; the empty path leads to where it starts. -/
def LeadsTo (fs : FileTree) (path : String) (loc : Location) : Prop :=
  fs.follow false 40 (fs.startOf path) (Path.names path) = .arrived loc

lemma LeadsTo.grows (h : fs.LeadsTo path loc) (hg : Grows fs fs') : fs'.LeadsTo path loc := by
  have hstart : fs'.startOf path = fs.startOf path := by rw [startOf, startOf, hg.cwd]
  rw [LeadsTo, hstart]
  exact follow_arrived_of_grows h hg

/-- A name behind a path stands for a place in the directory that the path leads to. -/
lemma reach_join_missing {base name : String} (hn : IsName name)
    (h : fs.reach true (Path.join base name) = .missing loc) : ∃ above,
      fs.LeadsTo base above ∧ loc = above ++ [name] := by
  have habs := Path.isAbsolute_of_isName hn
  have hslash : (Path.join base name).toList.getLast? ≠ some '/' := by
    rw [Path.getLast?_join hn.ne_empty]
    exact getLast?_of_isName hn
  have hstart : fs.startOf (Path.join base name) = fs.startOf base := by
    rw [startOf, startOf, Path.isAbsolute_join habs]
  rw [reach_eq (Path.join_ne_empty hn.ne_empty), namesOf_eq hslash, Path.names_join habs,
    Path.names_of_not_mem hn.ne_empty hn.no_slash, hstart] at h
  rcases fs.follow_split true 40 (fs.startOf base) (Path.names base) (List.cons_ne_nil name []) with
    ⟨error, he⟩ | ⟨b', above, hleads, he⟩
  · rw [h] at he
    cases he
  · refine ⟨above, hleads.follow_eq, ?_⟩
    rw [h] at he
    have hf := fs.follows_follow true b' above [name]
    rw [← he] at hf
    generalize hr : Walk.missing loc = r at hf
    cases hf with
    | missing => exact Walk.missing.inj hr
    | stay => exact absurd rfl hn.ne_point
    | up => exact absurd rfl hn.ne_points
    | link hk => simp at hk
    | enter _ _ _ _ _ hrest =>
      cases hrest
      cases hr
    | _ => cases hr

end FileTree

namespace Path

/-- The components after those that a path begins with. -/
def IsInner (c : Component) : Prop := c = .parent ∨ ∃ n, c = .normal n ∧ IsName n

lemma isInner_of_mem_ofNames {ns : List String} {c : Component} (hs : ∀ n ∈ ns, '/' ∉ n.toList)
    (hc : c ∈ ofNames ns) : IsInner c := by
  obtain ⟨n, hn, rfl⟩ := List.mem_map.mp hc
  obtain ⟨hm, hne⟩ := List.mem_filter.mp hn
  obtain ⟨hempty, hpoint⟩ : n ≠ "" ∧ n ≠ "." := by simpa using hne
  by_cases hp : n = ".."
  · exact .inl (by simp [hp])
  · exact .inr ⟨n, by simp [hp], hempty, hpoint, hp, hs n hm⟩

lemma ofNames_texts {cs : List Component} (h : ∀ c ∈ cs, IsInner c) :
    ofNames (cs.map (·.text)) = cs := by
  induction cs with
  | nil => rfl
  | cons c cs ih =>
    have ih := ih fun d hd => h d (List.mem_cons_of_mem c hd)
    have hcons (n : String) (ns : List String) (he : n ≠ "") (hp : n ≠ ".") :
        ofNames (n :: ns) = (if n == ".." then .parent else .normal n) :: ofNames ns := by
      simp [ofNames, he, hp]
    rcases h c List.mem_cons_self with rfl | ⟨n, rfl, hn⟩
    · rw [List.map_cons, Component.text, hcons ".." _ (by decide) (by decide), ih]
      rfl
    · rw [List.map_cons, Component.text, hcons n _ hn.ne_empty hn.ne_point, ih]
      simp [hn.ne_points]

lemma IsInner.text_ok {c : Component} (h : IsInner c) :
    c.text ≠ "" ∧ c.text ≠ "." ∧ '/' ∉ c.text.toList := by
  rcases h with rfl | ⟨n, rfl, hn⟩
  · decide
  · exact ⟨hn.ne_empty, hn.ne_point, hn.no_slash⟩

/-- The pieces of components that are written with slashes between them. -/
lemma components_joinWith {cs : List Component} (h : ∀ c ∈ cs, IsInner c) :
    components (joinWith "/" (cs.map (·.text))) = cs ∧
      components (joinWith "/" ("." :: cs.map (·.text))) = .current :: cs ∧
      components ("/" ++ joinWith "/" (cs.map (·.text))) = .root :: cs := by
  have hok : ∀ t ∈ cs.map (·.text), t ≠ "" ∧ t ≠ "." ∧ '/' ∉ t.toList := by
    intro t ht
    obtain ⟨c, hc, rfl⟩ := List.mem_map.mp ht
    exact (h c hc).text_ok
  have hof := ofNames_texts h
  generalize hts : cs.map (·.text) = ts at hok hof
  have hne : ∀ t ∈ ts, t ≠ "" ∧ '/' ∉ t.toList := fun t ht => ⟨(hok t ht).1, (hok t ht).2.2⟩
  have hpieces (hnil : ts ≠ []) : pieces '/' (joinWith "/" ts) = ts :=
    pieces_joinWith hnil fun t ht => (hne t ht).2
  refine ⟨?_, ?_, ?_⟩
  · by_cases hnil : ts = []
    · obtain rfl : cs = [] := by simpa [hnil] using hts
      subst hnil
      decide
    · obtain ⟨t, rest, ht⟩ := List.exists_cons_of_ne_nil hnil
      have hpoint : t ≠ "." := (hok t (by simp [ht])).2.1
      rw [components, isAbsolute_joinWith_of_ne hne, hpieces hnil, hof]
      simp [ht, hpoint]
  · have hdot : ∀ t ∈ "." :: ts, t ≠ "" ∧ '/' ∉ t.toList := by
      intro t ht
      rcases List.mem_cons.mp ht with rfl | ht
      · decide
      · exact hne t ht
    have hp := pieces_joinWith (List.cons_ne_nil "." ts) fun t ht => (hdot t ht).2
    have hcut : ofNames ("." :: ts) = ofNames ts := by simp [ofNames]
    rw [components, isAbsolute_joinWith_of_ne hdot, hp, hcut, hof]
    rfl
  · have hp : pieces '/' ("/" ++ joinWith "/" ts) = "" :: pieces '/' (joinWith "/" ts) := by
      have ha := pieces_append_slash "" (joinWith "/" ts)
      rwa [String.empty_append, pieces_of_not_mem (s := "") (by decide), List.singleton_append] at ha
    have hcut : ofNames ("" :: pieces '/' (joinWith "/" ts)) = ofNames ts := by
      by_cases hnil : ts = []
      · subst hnil
        decide
      · rw [hpieces hnil]
        simp [ofNames]
    have habs : isAbsolute ("/" ++ joinWith "/" ts) = true := by simp [isAbsolute]
    rw [components, habs, hp, hcut, hof]
    rfl

lemma Proper.beginning {cs ds : List Component} (h : Proper ds) (hp : cs <+: ds) : Proper cs := by
  refine ⟨fun c hc => ?_, fun c hc => h.text_ok c (hp.subset hc)⟩
  obtain ⟨rest, rfl⟩ := hp
  cases cs with
  | nil => simp at hc
  | cons d cs => exact h.root_first c (List.mem_append_left rest hc)

end Path

namespace FileTree

variable {fs made fs' : FileTree} {base : String} {home : Location}

lemma Follows.leads_of_arrived {S : Set Location} {b : Nat} {loc l : Location} {ns : List String}
    (h : fs.Follows S false b loc ns (.arrived l)) : ∃ b', fs.Leads S b loc ns b' l := by
  generalize hr : Walk.arrived l = r at h
  induction h with
  | here hs =>
    obtain rfl := Walk.arrived.inj hr
    exact ⟨_, .here hs⟩
  | stay hs hd _ ih =>
    obtain ⟨b', hb⟩ := ih hr
    exact ⟨b', .stay hs hd hb⟩
  | up hs hd _ ih =>
    obtain ⟨b', hb⟩ := ih hr
    exact ⟨b', .up hs hd hb⟩
  | link _ hs hd hn hm he _ ih =>
    obtain ⟨b', hb⟩ := ih hr
    exact ⟨b', .link hs hd hn hm he hb⟩
  | enter hs hd hn he hl _ ih =>
    obtain ⟨b', hb⟩ := ih hr
    exact ⟨b', .enter hs hd hn he hl hb⟩
  | kept hk => cases hk
  | _ => cases hr

lemma createDir_root : fs.createDir "/" = .error .alreadyExists := by
  have hroot : fs.reach true "/" = .arrived [] := by
    rw [reach_eq (by decide), show fs.startOf "/" = [] from rfl, show namesOf "/" = ["."] by decide,
      follow_point rfl, follow_nil]
  rw [createDir, show withoutSlash "/" = "/" by decide, hroot]

lemma render_of_texts_nil {cs : List Path.Component} (hcs : Path.Proper cs)
    (h : Path.texts cs = []) : Path.render cs = "/" ∨ Path.render cs = "" := by
  have hrender := hcs.render_eq.1
  rw [h] at hrender
  split at hrender
  · exact .inl hrender
  · exact .inr hrender

lemma Follows.arrived_kept {S : Set Location} {b : Nat} {loc l : Location} {ns : List String}
    (h : fs.Follows S false b loc ns (.arrived l)) : ∃ l', fs.follow true b loc ns = .arrived l' := by
  generalize hr : Walk.arrived l = r at h
  induction h with
  | here => exact ⟨_, follow_nil⟩
  | stay _ hd _ ih =>
    rw [follow_point hd]
    exact ih hr
  | up _ hd _ ih =>
    rw [follow_points hd]
    exact ih hr
  | enter _ hd hn he hl _ ih =>
    rw [follow_enter hd hn he hl]
    exact ih hr
  | @link b loc name target rest r _ _ hd hn _ he _ ih =>
    by_cases hrest : rest = []
    · subst hrest
      exact ⟨_, follow_kept hd hn he⟩
    · rw [follow_link hd hn he (by simp [hrest])]
      exact ih hr
  | kept hk => cases hk
  | _ => cases hr

/-- Where a directory is, none can be made. -/
lemma createDir_of_isDir {cs : List Path.Component} (hcs : Path.Proper cs)
    (h : fs.isDir (Path.render cs) = true) :
    fs.createDir (Path.render cs) = .error .alreadyExists := by
  by_cases htexts : Path.texts cs = []
  · rcases render_of_texts_nil hcs htexts with hr | hr
    · rw [hr, createDir_root]
    · rw [hr] at h
      cases h
  · have hslash := hcs.getLast?_render htexts
    obtain ⟨loc, hloc⟩ : ∃ loc, fs.locate (Path.render cs) = .ok loc := by
      cases hl : fs.locate (Path.render cs) with
      | ok loc => exact ⟨loc, rfl⟩
      | error e =>
        rw [isDir, status, hl] at h
        cases h
    obtain ⟨hne, hfollow⟩ := locate_follow hloc
    have hf := fs.follows_follow false 40 (fs.startOf (Path.render cs)) (Path.names (Path.render cs))
    rw [hfollow] at hf
    obtain ⟨l', hl'⟩ := hf.arrived_kept
    rw [createDir, withoutSlash_eq hslash, reach_eq hne, namesOf_eq hslash, hl']

end FileTree

end JavaAtlas
