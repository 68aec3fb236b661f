import JavaAtlas.Proofs.Resolution
import Mathlib.Data.List.Basic

/-! What file operations do below a directory. A path is anchored at a directory when it leads there
through places outside of it, so that nothing done inside changes where it leads; a path that spells
the same way and goes on then leads straight down. -/

namespace JavaAtlas

namespace Text

lemma joinWith_cons {x : String} {xs : List String} (h : xs ≠ []) :
    joinWith "/" (x :: xs) = x ++ "/" ++ joinWith "/" xs := by
  cases xs with
  | nil => exact absurd rfl h
  | cons y ys => rfl

lemma joinWith_append {xs ys : List String} (hx : xs ≠ []) (hy : ys ≠ []) :
    joinWith "/" (xs ++ ys) = joinWith "/" xs ++ "/" ++ joinWith "/" ys := by
  induction xs with
  | nil => exact absurd rfl hx
  | cons x xs ih =>
    rw [List.cons_append, joinWith_cons (by simp [hy])]
    cases xs with
    | nil => rfl
    | cons z zs =>
      rw [ih (List.cons_ne_nil z zs), joinWith_cons (List.cons_ne_nil z zs)]
      simp only [String.append_assoc]

lemma joinWith_pieces (p : String) : joinWith "/" (pieces '/' p) = p := by
  have h (cs : List Char) :
      joinWith "/" ((splitChars '/' cs).map String.ofList) = String.ofList cs := by
    induction cs with
    | nil => rfl
    | cons c cs ih =>
      obtain ⟨first, rest, hs⟩ := List.exists_cons_of_ne_nil (splitChars_ne_nil '/' cs)
      by_cases hc : c = '/'
      · subst hc
        rw [splitChars, if_pos rfl, List.map_cons, joinWith_cons (by simp [hs]), ih]
        apply String.toList_injective
        simp
      · rw [hs, List.map_cons] at ih
        rw [splitChars, if_neg hc, hs, List.map_cons]
        apply String.toList_injective
        cases rest with
        | nil => simpa [joinWith] using congrArg String.toList ih
        | cons r rs => simpa [joinWith] using congrArg String.toList ih
  simpa [pieces] using h p.toList

end Text

open Text

namespace Path

lemma DropsPoints.concat {init ns : List String} {last : String}
    (h : DropsPoints (init ++ [last]) ns) (hl : last ≠ ".") :
    ∃ init', ns = init' ++ [last] ∧ DropsPoints init init' := by
  induction init generalizing ns with
  | nil =>
    cases h with
    | keep _ h =>
      cases h
      exact ⟨[], rfl, .nil⟩
    | drop => exact absurd rfl hl
  | cons n init ih =>
    cases h with
    | keep _ h =>
      obtain ⟨init', rfl, hi⟩ := ih h
      exact ⟨n :: init', rfl, .keep n hi⟩
    | drop h =>
      obtain ⟨init', rfl, hi⟩ := ih h
      exact ⟨init', rfl, .drop hi⟩

lemma DropsPoints.refl (ns : List String) : DropsPoints ns ns := by
  induction ns with
  | nil => exact .nil
  | cons n ns ih => exact .keep n ih

lemma isAbsolute_joinWith_of_ne {ns : List String} (hn : ∀ n ∈ ns, n ≠ "" ∧ '/' ∉ n.toList) :
    isAbsolute (joinWith "/" ns) = false := by
  cases ns with
  | nil => decide
  | cons n ms =>
    obtain ⟨hne, hslash⟩ := hn n List.mem_cons_self
    obtain ⟨c, cs, hc⟩ := List.exists_cons_of_ne_nil (l := n.toList) (by simpa using hne)
    have hcs : c ≠ '/' := fun h => hslash (by simp [hc, h])
    cases ms with
    | nil => simp [joinWith, isAbsolute, hc, hcs]
    | cons k ks => simp [joinWith, isAbsolute, hc, hcs]

lemma isAbsolute_joinWith {ns : List String} (hn : ∀ n ∈ ns, IsName n) :
    isAbsolute (joinWith "/" ns) = false :=
  isAbsolute_joinWith_of_ne fun n hm => ⟨(hn n hm).ne_empty, (hn n hm).no_slash⟩

lemma components_join_names {base : String} (hb : base ≠ "") {ns : List String}
    (hn : ∀ n ∈ ns, IsName n) :
    components (join base (joinWith "/" ns)) = components base ++ ns.map .normal := by
  rw [components_join hb (isAbsolute_joinWith hn), ofNames_joinWith hn]

/-- The path that goes on by some names. -/
def under (path : String) (ns : List String) : String := ns.foldl join path

lemma join_under (path : String) (ns : List String) (n : String) :
    join (under path ns) n = under path (ns ++ [n]) := by
  simp [under]

lemma under_ne_empty {path : String} (hp : path ≠ "") {ns : List String}
    (hn : ∀ n ∈ ns, IsName n) : under path ns ≠ "" := by
  induction ns using List.reverseRecOn with
  | nil => exact hp
  | append_singleton ns n _ =>
    rw [← join_under]
    exact join_ne_empty (hn n (by simp)).ne_empty

lemma components_under {path : String} (hp : path ≠ "") {ns : List String}
    (hn : ∀ n ∈ ns, IsName n) : components (under path ns) = components path ++ ns.map .normal := by
  induction ns using List.reverseRecOn with
  | nil => simp [under]
  | append_singleton ns n ih =>
    have hns : ∀ m ∈ ns, IsName m := fun m hm => hn m (List.mem_append_left _ hm)
    have hname : ∀ m ∈ [n], IsName m := by simpa using hn n
    have hjoin := components_join_names (under_ne_empty hp hns) hname
    rw [joinWith] at hjoin
    rw [← join_under, hjoin, ih hns]
    simp

end Path

namespace FileTree

/-- The places outside a directory. -/
def outside (home : Location) : Set Location := {l | ¬ home <+: l}

structure SameOutside (home : Location) (fs fs' : FileTree) : Prop where
  cwd : fs'.cwd = fs.cwd
  entry? : ∀ l ∈ outside home, FileTree.entry? fs' l = fs.entry? l

variable {fs fs' fs'' : FileTree} {home loc l : Location} {e : FileEntry}

lemma SameOutside.refl : SameOutside home fs fs := ⟨rfl, fun _ _ => rfl⟩

lemma SameOutside.trans (h : SameOutside home fs fs') (hn : SameOutside home fs' fs'') :
    SameOutside home fs fs'' :=
  ⟨hn.cwd.trans h.cwd, fun l hl => (hn.entry? l hl).trans (h.entry? l hl)⟩

lemma SameOutside.symm (h : SameOutside home fs fs') : SameOutside home fs' fs :=
  ⟨h.cwd.symm, fun l hl => (h.entry? l hl).symm⟩

/-- Directories and files may come up at places of `Z` and files change there; links do not come up,
directories stay, and nothing else changes. -/
structure Fills (Z : Set Location) (fs fs' : FileTree) : Prop where
  cwd : fs'.cwd = fs.cwd
  wellFormed : fs'.WellFormed
  entry? : ∀ l, FileTree.entry? fs' l = fs.entry? l ∨ l ∈ Z ∧ ∀ t, FileTree.entry? fs' l ≠ some (.link t)
  dirs : ∀ l, fs.isDirAt l = true → fs'.isDirAt l = true

namespace Fills

variable {Z Z' : Set Location}

lemma refl (hw : fs.WellFormed) : Fills Z fs fs := ⟨rfl, hw, fun _ => .inl rfl, fun _ h => h⟩

lemma trans (h : Fills Z fs fs') (hn : Fills Z fs' fs'') : Fills Z fs fs'' := by
  refine ⟨hn.cwd.trans h.cwd, hn.wellFormed, fun l => ?_, fun l hd => hn.dirs l (h.dirs l hd)⟩
  rcases hn.entry? l with hl' | hl'
  · rcases h.entry? l with hl | ⟨hz, hl⟩
    · exact .inl (hl'.trans hl)
    · exact .inr ⟨hz, fun t => hl' ▸ hl t⟩
  · exact .inr hl'

lemma mono (h : Fills Z fs fs') (hz : Z ⊆ Z') : Fills Z' fs fs' :=
  ⟨h.cwd, h.wellFormed, fun l => (h.entry? l).imp_right (And.imp_left fun hl => hz hl), h.dirs⟩

lemma same_outside (h : Fills Z fs fs') (hz : ∀ l ∈ Z, home <+: l) : SameOutside home fs fs' :=
  ⟨h.cwd, fun l hl => (h.entry? l).resolve_right fun hh => hl (hz l hh.1)⟩

lemma not_link (h : Fills Z fs fs') {t : String} (hl : FileTree.entry? fs' l = some (.link t)) :
    fs.entry? l = some (.link t) := by
  rcases h.entry? l with he | ⟨-, he⟩
  · exact he.symm.trans hl
  · exact absurd hl (he t)

lemma insert (hw : fs.WellFormed) (hs : fs.Seat loc) (hd : fs.isDirAt loc = false)
    (he : ∀ t, e ≠ .link t) (hz : loc ∈ Z) : Fills Z fs (fs.insert loc e) := by
  refine ⟨rfl, hw.insert hs hd, fun l => ?_, fun l hl => ?_⟩
  · rw [entry?_insert hs.ne_nil]
    by_cases hl : l = loc
    · subst hl
      exact .inr ⟨hz, fun t => by simpa using he t⟩
    · exact .inl (if_neg hl)
  · have hne : l ≠ loc := by
      rintro rfl
      simp [hd] at hl
    rw [isDirAt_congr ((entry?_insert hs.ne_nil).trans (if_neg hne)), hl]

end Fills

/-- All that stands at or below a place is taken away, and nothing else. -/
structure Removed (loc : Location) (fs fs' : FileTree) : Prop where
  cwd : fs'.cwd = fs.cwd
  wellFormed : fs'.WellFormed
  entry? : ∀ l, FileTree.entry? fs' l = if loc <+: l then none else fs.entry? l

lemma Removed.same_outside (h : Removed loc fs fs') (hp : home <+: loc) :
    SameOutside home fs fs' :=
  ⟨h.cwd, fun l hl => by rw [h.entry?, if_neg fun hh => hl (hp.trans hh)]⟩

/-- Where a path begins to lead. -/
def startOf (fs : FileTree) (path : String) : Location :=
  if Path.isAbsolute path then [] else fs.cwd

lemma reach_eq {keepLast : Bool} {p : String} (h : p ≠ "") :
    fs.reach keepLast p = fs.follow keepLast 40 (fs.startOf p) (namesOf p) := by
  rw [reach, if_neg (by simpa using h)]
  rfl

lemma withoutSlash_eq {p : String} (h : p.toList.getLast? ≠ some '/') : withoutSlash p = p := by
  have hd : (p.toList.reverse.dropWhile (· == '/')).reverse = p.toList := by
    rcases List.eq_nil_or_concat' p.toList with hl | ⟨init, last, hl⟩
    · simp [hl]
    · rw [hl, List.getLast?_append] at h
      have hc : last ≠ '/' := by simpa using h
      simp [hl, hc]
  rw [withoutSlash, hd]
  simp

/-- A file is written where nothing or a file is. -/
lemma Lands.write_eq {p : String} (hlands : fs.Lands loc (fs.reach false p)) (hw : fs.WellFormed)
    (hne : loc ≠ []) {content : List UInt8} (hc : fs.write p content = .ok fs') :
    (∃ executable, fs' = fs.insert loc (.file content executable)) ∧ fs.Seat loc ∧
      fs.isDirAt loc = false := by
  rw [write] at hc
  split at hc
  · cases hc
  generalize fs.reach false p = r at hlands hc
  cases hlands with
  | failed => simp at hc
  | missing hn hs => exact ⟨⟨false, by simpa using hc.symm⟩, hs, by simp [isDirAt, hn]⟩
  | arrived hs =>
    obtain ⟨e, he⟩ := Option.isSome_iff_exists.mp hs
    simp only [he] at hc
    cases e with
    | dir | link => simp at hc
    | file old executable =>
      exact ⟨⟨executable, by simpa using hc.symm⟩, hw.seat hne he, by simp [isDirAt, he]⟩

/-- A path leads to the directory `home` through places outside of it, whether or not the directory
is there. -/
structure Anchored (fs : FileTree) (path : String) (home : Location) : Prop where
  slash : path.toList.getLast? ≠ some '/'
  leads : ∃ init last b above, Path.names path = init ++ [last] ∧ home = above ++ [last] ∧
    IsName last ∧ last.utf8ByteSize ≤ 255 ∧
    fs.Leads (outside home) 40 (fs.startOf path) init b above ∧ fs.isDirAt above = true

/-- A path leads like another and then on by some names. -/
structure Spells (path p : String) (rest : List String) : Prop where
  isAbsolute : Path.isAbsolute p = Path.isAbsolute path
  slash : p.toList.getLast? ≠ some '/'
  names : ∃ ns, Path.DropsPoints (Path.names path) ns ∧ Path.names p = ns ++ rest
  isName : ∀ n ∈ rest, IsName n

variable {path p : String} {rest : List String}

namespace Spells

lemma refl (h : path.toList.getLast? ≠ some '/') : Spells path path [] :=
  ⟨rfl, h, ⟨_, .refl _, by simp⟩, by simp⟩

lemma join (h : Spells path p rest) {ns : List String} (hne : ns ≠ []) (hn : ∀ n ∈ ns, IsName n) :
    Spells path (Path.join p (joinWith "/" ns)) (rest ++ ns) := by
  have hok : ∀ n ∈ ns, n ≠ "" ∧ '/' ∉ n.toList := fun n hm => ⟨(hn n hm).ne_empty, (hn n hm).no_slash⟩
  have hnames := Path.names_joinWith hok
  have hj : joinWith "/" ns ≠ "" := by
    intro hj
    rw [hj, show Path.names "" = [] by decide] at hnames
    exact hne hnames.symm
  have habs := Path.isAbsolute_joinWith hn
  obtain ⟨base, hb, hp⟩ := h.names
  refine ⟨(Path.isAbsolute_join habs).trans h.isAbsolute, ?_, ⟨base, hb, ?_⟩, ?_⟩
  · rw [Path.getLast?_join hj]
    exact Path.getLast?_joinWith hne hok
  · rw [Path.names_join habs, hnames, hp, List.append_assoc]
  · intro n hm
    exact (List.mem_append.mp hm).elim (h.isName n) (hn n)

lemma join_name (h : Spells path p rest) {n : String} (hn : IsName n) :
    Spells path (Path.join p n) (rest ++ [n]) := by
  have hjoin := h.join (List.cons_ne_nil n []) (by simpa using hn)
  rwa [show joinWith "/" [n] = n from rfl] at hjoin

lemma under (h : path.toList.getLast? ≠ some '/') (hn : ∀ n ∈ rest, IsName n) :
    Spells path (Path.under path rest) rest := by
  induction rest using List.reverseRecOn with
  | nil => exact refl h
  | append_singleton rest n ih =>
    rw [← Path.join_under]
    exact (ih fun m hm => hn m (List.mem_append_left _ hm)).join_name (hn n (by simp))

/-- The shortest spelling. -/
lemma render (hpath : Path.names path ≠ []) (hlast : (Path.names path).getLast? ≠ some ".")
    (hn : ∀ n ∈ rest, IsName n) :
    Spells path (Path.render (Path.components path ++ rest.map .normal)) rest := by
  have hproper := (Path.proper_components path).append_names hn
  have htexts := Path.texts_append_names (Path.components path) rest
  have hdrops := Path.dropsPoints_texts path
  have hne : Path.texts (Path.components path) ≠ [] := by
    obtain ⟨init, last, hi⟩ := (List.eq_nil_or_concat' (Path.names path)).resolve_left hpath
    rw [hi] at hdrops
    obtain ⟨init', hi', -⟩ := Path.DropsPoints.concat hdrops (by simpa [hi] using hlast)
    simp [hi']
  have hcs : Path.components path ≠ [] := by
    intro hcs
    simp [hcs, Path.texts] at hne
  refine ⟨?_, ?_, ⟨_, hdrops, ?_⟩, hn⟩
  · rw [hproper.isAbsolute_render, List.head?_append, ← Path.head?_components]
    obtain ⟨c, cs, hc⟩ := List.exists_cons_of_ne_nil hcs
    simp [hc]
  · exact hproper.getLast?_render (by simp [htexts, hne])
  · rw [hproper.names_render, htexts]

end Spells

namespace Anchored

lemma of_same_outside (ha : Anchored fs path home) (h : SameOutside home fs fs') :
    Anchored fs' path home := by
  obtain ⟨init, last, b, above, hp, hh, hn, hf, hl, hd⟩ := ha.leads
  refine ⟨ha.slash, init, last, b, above, hp, hh, hn, hf, ?_, ?_⟩
  · have hs : fs'.startOf path = fs.startOf path := by rw [startOf, startOf, h.cwd]
    rw [hs]
    exact hl.congr h.entry?
  · rw [isDirAt_congr (h.entry? above hl.end_mem), hd]

lemma path_ne_empty (ha : Anchored fs path home) : path ≠ "" := by
  obtain ⟨_, _, _, _, hp, -⟩ := ha.leads
  rintro rfl
  rw [show Path.names "" = [] by decide] at hp
  simp at hp

lemma home_ne_nil (ha : Anchored fs path home) : home ≠ [] := by
  obtain ⟨_, _, _, _, -, rfl, -⟩ := ha.leads
  simp

lemma render (ha : Anchored fs path home) (hn : ∀ n ∈ rest, IsName n) :
    Spells path (Path.render (Path.components path ++ rest.map .normal)) rest := by
  obtain ⟨init, last, _, _, hp, -, hl, -⟩ := ha.leads
  exact .render (by simp [hp]) (by simpa [hp] using hl.ne_point) hn

/-- All spellings lead the same way, up to the directory around `home` and then on. -/
lemma reach_spelled {S : Set Location} {init : List String} {last : String} {b : Nat}
    {above : Location} (hp : Path.names path = init ++ [last]) (hn : last ≠ ".")
    (hl : fs.Leads S 40 (fs.startOf path) init b above) (hs : Spells path p rest) :
    (∃ init, Path.names p = init ++ last :: rest ∧ fs.Leads S 40 (fs.startOf p) init b above) ∧
      ∀ keepLast, fs.reach keepLast p = fs.follow keepLast b above (last :: rest) := by
  obtain ⟨ns, hdrop, hnames⟩ := hs.names
  rw [hp] at hdrop
  obtain ⟨init', rfl, hinit⟩ := hdrop.concat hn
  have hnames' : Path.names p = init' ++ last :: rest := by simpa using hnames
  have hstart : fs.startOf p = fs.startOf path := by rw [startOf, startOf, hs.isAbsolute]
  have hleads : fs.Leads S 40 (fs.startOf p) init' b above := by
    rw [hstart]
    exact Leads.drop_points [] hl hinit
  refine ⟨⟨init', hnames', hleads⟩, fun keepLast => ?_⟩
  have hne : p ≠ "" := by
    rintro rfl
    rw [show Path.names "" = [] by decide] at hnames'
    simp at hnames'
  rw [reach_eq hne, namesOf_eq hs.slash, hnames', hleads.follow_append keepLast (by simp)]

lemma reach_follow (ha : Anchored fs path home) : ∃ last b above,
    home = above ++ [last] ∧ IsName last ∧ last.utf8ByteSize ≤ 255 ∧ fs.isDirAt above = true ∧
      ∀ p rest, Spells path p rest →
        (∃ init, Path.names p = init ++ last :: rest ∧
          fs.Leads (outside home) 40 (fs.startOf p) init b above) ∧
        ∀ keepLast, fs.reach keepLast p = fs.follow keepLast b above (last :: rest) := by
  obtain ⟨init, last, b, above, hp, hh, hn, hf, hl, hd⟩ := ha.leads
  exact ⟨last, b, above, hh, hn, hf, hd, fun p rest hs => reach_spelled hp hn.ne_point hl hs⟩

/-- The links that are left at a directory below `home` do not depend on what `home` holds. -/
lemma reach_below (ha : Anchored fs path home) : ∃ b ≤ 40, ∀ fs', SameOutside home fs fs' →
    fs'.WellFormed → ∀ dir, fs'.isDirAt (home ++ dir) = true → ∀ p ns, Spells path p (dir ++ ns) →
      ∀ keepLast, fs'.reach keepLast p = fs'.follow keepLast b (home ++ dir) ns := by
  obtain ⟨init, last, b, above, hp, hh, hn, -, hl, -⟩ := ha.leads
  refine ⟨b, hl.left_le, fun fs' hsame hw dir hd p ns hs keepLast => ?_⟩
  have hstart : fs'.startOf path = fs.startOf path := by rw [startOf, startOf, hsame.cwd]
  have hl' := hl.congr hsame.entry?
  rw [← hstart] at hl'
  rw [(reach_spelled hp hn.ne_point hl' hs).2 keepLast]
  have hloc : home ++ dir = above ++ last :: dir := by simp [hh]
  rw [hloc] at hd ⊢
  exact follow_down hw hd

/-- Where no link is on the way, a path leads straight down from `home`. -/
lemma lands (ha : Anchored fs path home) (hw : fs.WellFormed) (hs : Spells path p rest)
    {keepLast : Bool} (hl : ∀ xs ys t, rest = xs ++ ys → ys ≠ [] ∨ keepLast = false →
      fs.entry? (home ++ xs) ≠ some (.link t)) :
    fs.Lands (home ++ rest) (fs.reach keepLast p) := by
  obtain ⟨last, b, above, rfl, hn, -, -, hreach⟩ := ha.reach_follow
  rw [(hreach p rest hs).2 keepLast, List.append_assoc]
  refine follow_lands hw (by simp) ?_ fun xs ys t hxs hne hys => ?_
  · simpa using And.intro hn hs.isName
  · cases xs with
    | nil => exact absurd rfl hne
    | cons x xs =>
      obtain ⟨rfl, hrest⟩ := List.cons.inj hxs
      rw [List.append_cons]
      exact hl xs ys t hrest hys

end Anchored

/-- A path names the place `home ++ rest`, and no link lies on the way from `home` there. -/
structure Names (fs : FileTree) (path : String) (home : Location) (p : String)
    (rest : List String) : Prop where
  wellFormed : fs.WellFormed
  anchored : Anchored fs path home
  spells : Spells path p rest
  plain : ∀ xs ys t, rest = xs ++ ys → ys ≠ [] → fs.entry? (home ++ xs) ≠ some (.link t)

namespace Names

lemma lands_kept (h : Names fs path home p rest) : fs.Lands (home ++ rest) (fs.reach true p) :=
  h.anchored.lands h.wellFormed h.spells fun xs ys t hx hy =>
    h.plain xs ys t hx (hy.resolve_right nofun)

lemma lands (h : Names fs path home p rest) (hl : ∀ t, fs.entry? (home ++ rest) ≠ some (.link t)) :
    fs.Lands (home ++ rest) (fs.reach false p) :=
  h.anchored.lands h.wellFormed h.spells fun xs ys t hx _ => by
    by_cases hy : ys = []
    · simpa [hx, hy] using hl t
    · exact h.plain xs ys t hx hy

lemma loc_ne_nil (h : Names fs path home p rest) : home ++ rest ≠ [] := by
  simp [h.anchored.home_ne_nil]

lemma of_fills (h : Names fs path home p rest) {Z : Set Location} (hf : Fills Z fs fs')
    (hz : ∀ l ∈ Z, home <+: l) : Names fs' path home p rest :=
  ⟨hf.wellFormed, h.anchored.of_same_outside (hf.same_outside hz), h.spells,
    fun xs ys t hx hy hl => h.plain xs ys t hx hy (hf.not_link hl)⟩

lemma ne_empty (h : Names fs path home p rest) : p ≠ "" := by
  obtain ⟨last, b, above, -, -, -, -, hreach⟩ := h.anchored.reach_follow
  obtain ⟨⟨init, hp, -⟩, -⟩ := hreach p rest h.spells
  rintro rfl
  rw [show Path.names "" = [] by decide] at hp
  simp at hp

lemma createDir_eq (h : Names fs path home p rest) (hc : fs.createDir p = .ok fs') :
    fs' = fs.insert (home ++ rest) .dir ∧ fs.Seat (home ++ rest) ∧
      fs.entry? (home ++ rest) = none := by
  have hlands := h.lands_kept
  rw [createDir, withoutSlash_eq h.spells.slash] at hc
  generalize fs.reach true p = r at hlands hc
  cases hlands with
  | arrived | failed => simp at hc
  | missing hn hs => exact ⟨by simpa using hc.symm, hs, hn⟩

lemma createDir_fills (h : Names fs path home p rest) (hc : fs.createDir p = .ok fs') :
    Fills {home ++ rest} fs fs' := by
  obtain ⟨rfl, hs, hn⟩ := h.createDir_eq hc
  exact .insert h.wellFormed hs (by simp [isDirAt, hn]) nofun rfl

lemma createLink_eq (h : Names fs path home p rest) {target : String}
    (hc : fs.createLink target p = .ok fs') :
    fs' = fs.insert (home ++ rest) (.link target) ∧ fs.Seat (home ++ rest) ∧
      fs.entry? (home ++ rest) = none := by
  have hlands := h.lands_kept
  rw [createLink] at hc
  generalize fs.reach true p = r at hlands hc
  cases hlands with
  | arrived | failed => simp at hc
  | missing hn hs => exact ⟨by simpa using hc.symm, hs, hn⟩

lemma write_eq (h : Names fs path home p rest)
    (hl : ∀ t, fs.entry? (home ++ rest) ≠ some (.link t)) {content : List UInt8}
    (hc : fs.write p content = .ok fs') :
    (∃ executable, fs' = fs.insert (home ++ rest) (.file content executable)) ∧
      fs.Seat (home ++ rest) ∧ fs.isDirAt (home ++ rest) = false :=
  (h.lands hl).write_eq h.wellFormed h.loc_ne_nil hc

lemma locate_eq (h : Names fs path home p rest)
    (hl : ∀ t, fs.entry? (home ++ rest) ≠ some (.link t)) (hc : fs.locate p = .ok loc) :
    loc = home ++ rest ∧ (fs.entry? (home ++ rest)).isSome := by
  have hlands := h.lands hl
  rw [locate] at hc
  generalize fs.reach false p = r at hlands hc
  cases hlands with
  | missing | failed => simp at hc
  | arrived hs => exact ⟨by simpa using hc.symm, hs⟩

lemma isDir_eq (h : Names fs path home p rest)
    (hl : ∀ t, fs.entry? (home ++ rest) ≠ some (.link t)) :
    fs.isDir p = fs.isDirAt (home ++ rest) := by
  have hlands := h.lands hl
  rw [isDir, status, locate]
  generalize fs.reach false p = r at hlands
  cases hlands with
  | missing hn | failed _ hn => simp [isDirAt, hn, bind, Except.bind, Except.toOption]
  | arrived hs =>
    obtain ⟨e, he⟩ := Option.isSome_iff_exists.mp hs
    simp [isDirAt, he, bind, Except.bind, Except.toOption]

lemma copyFile_fills (h : Names fs path home p rest)
    (hl : ∀ t, fs.entry? (home ++ rest) ≠ some (.link t)) {source : String}
    (hc : fs.copyFile source p = .ok fs') : Fills {home ++ rest} fs fs' := by
  have hz : ∀ l ∈ ({home ++ rest} : Set Location), home <+: l := by
    rintro l rfl
    exact List.prefix_append home rest
  obtain ⟨entry, -, hc⟩ := ok_of_bind hc
  cases entry with
  | dir | link => cases hc
  | file content executable =>
    obtain ⟨written, hwrite, hc⟩ := ok_of_bind hc
    obtain ⟨⟨x, rfl⟩, hseat, hd⟩ := h.write_eq hl hwrite
    have hf : Fills {home ++ rest} fs (fs.insert (home ++ rest) (.file content x)) :=
      .insert h.wellFormed hseat hd nofun rfl
    have hnew : FileTree.entry? (fs.insert (home ++ rest) (.file content x)) (home ++ rest) =
        some (.file content x) := by rw [entry?_insert hseat.ne_nil, if_pos rfl]
    obtain ⟨loc, hlocate, hc⟩ := ok_of_bind hc
    obtain ⟨rfl, -⟩ := (h.of_fills hf hz).locate_eq (by simp [hnew]) hlocate
    obtain rfl := Except.ok.inj hc
    exact hf.trans (.insert hf.wellFormed (hf.wellFormed.seat h.loc_ne_nil hnew)
      (by simp [isDirAt, hnew]) nofun rfl)

end Names

/-- Where nothing but directories is on the way, names lead to one or to nothing. -/
lemma follow_free {keepLast : Bool} {b : Nat} {ns : List String} (hd : fs.isDirAt loc = true)
    (hn : ∀ n ∈ ns, IsName n ∧ n.utf8ByteSize ≤ 255)
    (hfree : ∀ xs ys, ns = xs ++ ys → fs.entry? (loc ++ xs) = none ∨ fs.isDirAt (loc ++ xs) = true)
    {error : IoError} (h : fs.follow keepLast b loc ns = .failed error) : error = .notFound := by
  induction ns generalizing loc with
  | nil => simp [follow_nil] at h
  | cons n ns ih =>
    obtain ⟨hname, hfits⟩ := hn n List.mem_cons_self
    have hstep : IsStep n := ⟨hname.ne_point, hname.ne_points, hfits⟩
    rcases hfree [n] ns rfl with he | he
    · by_cases hns : ns = []
      · subst hns
        simp [follow_missing hd hstep he] at h
      · rw [follow_lost hd hstep he hns] at h
        exact (Walk.failed.inj h).symm
    · rw [follow_enter hd hstep (isDirAt_iff.mp he) nofun] at h
      refine ih he (fun m hm => hn m (List.mem_cons_of_mem _ hm)) (fun xs ys hx => ?_) h
      have hnext := hfree (n :: xs) ys (by simp [hx])
      rwa [List.append_cons] at hnext

/-- The places from below `home` down to some place. -/
abbrev stepsDown (home : Location) (rest : List String) : Set Location :=
  {l | home <+: l ∧ l ≠ home ∧ l <+: home ++ rest}

lemma stepsDown_subset (home : Location) (rest : List String) (n : String) :
    stepsDown home rest ⊆ stepsDown home (rest ++ [n]) := fun l hl =>
  ⟨hl.1, hl.2.1, hl.2.2.trans (by simp [← List.append_assoc])⟩

/-- From `home` down to some place there is nothing but directories. -/
def Free (fs : FileTree) (home : Location) (rest : List String) : Prop :=
  ∀ xs ys, rest = xs ++ ys → fs.entry? (home ++ xs) = none ∨ fs.isDirAt (home ++ xs) = true

lemma Free.not_link (h : Free fs home rest) {xs ys : List String} (hx : rest = xs ++ ys) (t : String) :
    fs.entry? (home ++ xs) ≠ some (.link t) := by
  rcases h xs ys hx with h | h
  · simp [h]
  · simp [isDirAt_iff.mp h]

lemma Free.concat_of_fills {n : String} (hfree : Free fs home (rest ++ [n]))
    (h : Fills (stepsDown home rest) fs fs')
    (hd : fs'.isDirAt (home ++ rest) = true) : Free fs' home (rest ++ [n]) := by
  intro xs ys hx
  rcases List.eq_nil_or_concat' ys with rfl | ⟨ys, last, rfl⟩
  · obtain rfl : rest ++ [n] = xs := by simpa using hx
    have he : FileTree.entry? fs' (home ++ (rest ++ [n])) = fs.entry? (home ++ (rest ++ [n])) := by
      refine (h.entry? _).resolve_right fun hh => ?_
      have hlen := hh.1.2.2.length_le
      simp only [List.length_append, List.length_singleton] at hlen
      omega
    rw [isDirAt_congr he, he]
    exact hfree _ [] (by simp)
  · rw [← List.append_assoc] at hx
    obtain ⟨rfl, -⟩ := List.append_inj' hx rfl
    by_cases hys : ys = []
    · exact .inr (by simpa [hys] using hd)
    · rw [← List.append_assoc] at hd
      exact .inr (h.wellFormed.isDirAt_of_append hys (isDirAt_iff.mp hd))

/-- A directory can be made in a directory where there is none. -/
lemma Names.createDir_ok (h : Names fs path home p rest) (hd : fs.isDirAt home = true)
    (hf : ∀ n ∈ rest, n.utf8ByteSize ≤ 255) (hfree : Free fs home rest) {error : IoError}
    (hc : fs.createDir p = .error error) (hdir : fs.isDir p = false) :
    error = .notFound ∧ ∀ init last, rest = init ++ [last] → fs.isDirAt (home ++ init) = false := by
  obtain ⟨b, -, hreach⟩ := h.anchored.reach_below
  have hbelow := hreach fs .refl h.wellFormed
  have hnone : fs.entry? (home ++ rest) = none := by
    refine (hfree rest [] (by simp)).resolve_right fun hh => ?_
    rw [← h.isDir_eq (hfree.not_link (List.append_nil rest).symm), hdir] at hh
    cases hh
  have hlands := h.lands_kept
  rw [createDir, withoutSlash_eq h.spells.slash] at hc
  constructor
  · have hfollow := hbelow [] (by simpa using hd) p rest h.spells true
    rw [List.append_nil] at hfollow
    generalize hr : fs.reach true p = r at hlands hc
    cases hlands with
    | arrived hs => simp [hnone] at hs
    | missing => simp at hc
    | failed e =>
      obtain rfl : e = error := by simpa using hc
      exact follow_free hd (fun n hn => ⟨h.spells.isName n hn, hf n hn⟩) hfree (hfollow.symm.trans hr)
  · rintro init last rfl
    by_contra hh
    have hinit : fs.isDirAt (home ++ init) = true := by simpa using hh
    have hname := h.spells.isName last (by simp)
    have hstep : IsStep last := ⟨hname.ne_point, hname.ne_points, hf last (by simp)⟩
    rw [hbelow init hinit p [last] h.spells true,
      follow_missing hinit hstep (by simpa using hnone)] at hc
    cases hc

/-- What is known of directories that were to be made from `home` down: whatever happens, nothing but
these comes up; if all went well, the last one is there; and so it goes unless a name is too long or
something stands in the way. -/
structure MakesDirs (fs : FileTree) (home : Location) (rest : List String)
    (result : Except IoError Unit × FileTree) : Prop where
  fills : Fills (stepsDown home rest) fs result.2
  isDirAt : result.1 = .ok () → result.2.isDirAt (home ++ rest) = true
  ok : (∀ n ∈ rest, n.utf8ByteSize ≤ 255) → Free fs home rest → result.1 = .ok ()

namespace MakesDirs

variable {result : Except IoError Unit × FileTree} {n : String}

lemma there (hw : fs.WellFormed) (hd : fs.isDirAt (home ++ rest) = true) :
    MakesDirs fs home rest (.ok (), fs) :=
  ⟨.refl hw, fun _ => hd, fun _ _ => rfl⟩

lemma made {parent made : FileTree} (h : Fills (stepsDown home rest) fs parent)
    (hn : Names parent path home p (rest ++ [n])) (hc : parent.createDir p = .ok made) :
    MakesDirs fs home (rest ++ [n]) (.ok (), made) := by
  obtain ⟨rfl, hseat, hnone⟩ := hn.createDir_eq hc
  refine ⟨(h.mono (stepsDown_subset home rest n)).trans ((hn.createDir_fills hc).mono ?_), fun _ => ?_, fun _ _ => rfl⟩
  · rintro l rfl
    exact ⟨List.prefix_append _ _, by simp, List.prefix_rfl⟩
  · rw [isDirAt_iff, entry?_insert hseat.ne_nil, if_pos rfl]

end MakesDirs

lemma createDirsFrom_makes (hw : fs.WellFormed) (ha : Anchored fs path home)
    (hd : fs.isDirAt home = true) (hn : ∀ n ∈ rest, IsName n)
    (hl : ∀ xs ys t, rest = xs ++ ys → fs.entry? (home ++ xs) ≠ some (.link t)) :
    MakesDirs fs home rest
      (fs.createDirsFrom (Path.components path ++ rest.map Path.Component.normal).reverse) := by
  induction rest using List.reverseRecOn with
  | nil =>
    have hnames : Names fs path home _ [] :=
      ⟨hw, ha, ha.render (by simp), fun xs ys t hx _ => hl xs ys t hx⟩
    have hdir := hnames.isDir_eq (hl [] [] · rfl)
    rw [List.append_nil, hd] at hdir
    have hthere : MakesDirs fs home [] (.ok (), fs) := .there hw (by simpa using hd)
    cases hc : (Path.components path ++ [].map Path.Component.normal).reverse with
    | nil => exact hthere
    | cons c before =>
      rw [← List.reverse_reverse (Path.components path ++ _), hc] at hdir
      rw [createDirsFrom, if_pos hdir]
      exact hthere
  | append_singleton rest n ih =>
    have hnames : Names fs path home _ (rest ++ [n]) :=
      ⟨hw, ha, ha.render hn, fun xs ys t hx _ => hl xs ys t hx⟩
    have ih := ih (fun m hm => hn m (List.mem_append_left _ hm)) fun xs ys t hx =>
      hl xs (ys ++ [n]) t (by simp [hx])
    generalize hp : Path.render (Path.components path ++ (rest ++ [n]).map Path.Component.normal) = p at hnames
    have hcs : (Path.components path ++ (rest ++ [n]).map Path.Component.normal).reverse =
        .normal n :: (Path.components path ++ rest.map Path.Component.normal).reverse := by simp
    have hback : (Path.Component.normal n ::
        (Path.components path ++ rest.map Path.Component.normal).reverse).reverse =
        Path.components path ++ (rest ++ [n]).map Path.Component.normal := by simp
    have hdir {f : FileTree} (hf : Names f path home p (rest ++ [n]))
        (hl : ∀ t, f.entry? (home ++ (rest ++ [n])) ≠ some (.link t)) (h : f.isDir p = true) :
        f.isDirAt (home ++ (rest ++ [n])) = true := by rw [← hf.isDir_eq hl, h]
    have hlast (t : String) := hl (rest ++ [n]) [] t (by simp)
    rw [hcs, createDirsFrom, hback, hp]
    split
    · next h => exact .there hw (hdir hnames hlast h)
    · next hnd =>
      have hnd : fs.isDir p = false := by simpa using hnd
      split
      · next made hc => exact .made (.refl hw) hnames hc
      · have hnames' := hnames.of_fills ih.fills fun l hl' => hl'.1
        have hmono := ih.fills.mono (stepsDown_subset home rest n)
        have hbefore {f : FileTree} (h : Free f home (rest ++ [n])) : Free f home rest :=
          fun xs ys hx => h xs (ys ++ [n]) (by simp [hx])
        split
        · next e parent he =>
          rw [he] at ih hmono
          exact ⟨hmono, nofun, fun hf hfree =>
            ih.ok (fun m hm => hf m (List.mem_append_left _ hm)) (hbefore hfree)⟩
        · next parent he =>
          rw [he] at ih hnames' hmono
          have hlast' (t : String) : parent.entry? (home ++ (rest ++ [n])) ≠ some (.link t) :=
            fun h => hlast t (ih.fills.not_link h)
          split
          · next made hc => exact .made ih.fills hnames' hc
          · next e hc =>
            split
            · next h => exact ⟨hmono, fun _ => hdir hnames' hlast' h, fun _ _ => rfl⟩
            · next h =>
              have hin := ih.isDirAt rfl
              refine ⟨hmono, nofun, fun hf hfree => ?_⟩
              have hfree' := hfree.concat_of_fills ih.fills hin
              have hhome : parent.isDirAt home = true := by
                rw [isDirAt_congr ((ih.fills.entry? home).resolve_right fun hh => hh.1.2.1 rfl), hd]
              have hc := (hnames'.createDir_ok hhome hf hfree' hc (by simpa using h)).2 rest n rfl
              rw [hin] at hc
              cases hc
      · next e hne hc =>
        refine ⟨.refl hw, nofun, fun hf hfree => ?_⟩
        exact absurd (hnames.createDir_ok hd hf hfree hc hnd).1 hne

lemma createDirAll_makes (hw : fs.WellFormed) (ha : Anchored fs path home)
    (hd : fs.isDirAt home = true) (hp : Path.components p = Path.components path ++ rest.map .normal)
    (hn : ∀ n ∈ rest, IsName n)
    (hl : ∀ xs ys t, rest = xs ++ ys → fs.entry? (home ++ xs) ≠ some (.link t)) :
    MakesDirs fs home rest (fs.createDirAll p) := by
  rw [createDirAll, hp]
  exact createDirsFrom_makes hw ha hd hn hl

/-- The last piece of a path is a name, unless the path ends in a slash. -/
lemma pieces_concat (hs : p.toList.getLast? ≠ some '/') (hne : p ≠ "") :
    ∃ init last, pieces '/' p = init ++ [last] ∧ last ≠ "" := by
  obtain ⟨init, last, hl⟩ := (List.eq_nil_or_concat' (pieces '/' p)).resolve_left
    (by simpa [pieces] using splitChars_ne_nil '/' p.toList)
  refine ⟨init, last, hl, ?_⟩
  rintro rfl
  have hp := joinWith_pieces p
  rw [hl] at hp
  by_cases hinit : init = []
  · rw [hinit] at hp
    exact hne hp.symm
  · rw [joinWith_append hinit (by simp)] at hp
    rw [← hp] at hs
    simp [joinWith] at hs

/-- The path without what follows its last names. -/
lemma names_of_beginning {names : List String} (hs : p.toList.getLast? ≠ some '/') (hne : p ≠ "")
    (hb : names ∈ beginnings (pieces '/' p)) : ∃ ys, ys ≠ [] ∧
      Path.names p = Path.names (joinWith "/" names) ++ ys ∧
      (joinWith "/" names ≠ "" →
        Path.isAbsolute (joinWith "/" names) = Path.isAbsolute p) := by
  obtain ⟨i, hi, rfl⟩ := List.mem_map.mp hb
  have hi : i < (pieces '/' p).length := List.mem_range.mp hi
  have hsplit := List.take_append_drop i (pieces '/' p)
  have hdrop : (pieces '/' p).drop i ≠ [] := by simpa using hi
  have hp := joinWith_pieces p
  have hno : ∀ n ∈ (pieces '/' p).take i, '/' ∉ n.toList := fun n hn =>
    not_mem_of_mem_pieces (List.mem_of_mem_take hn)
  have hnames : Path.names (joinWith "/" ((pieces '/' p).take i)) =
      ((pieces '/' p).take i).filter (· != "") := by
    by_cases ht : (pieces '/' p).take i = []
    · rw [ht]
      decide
    · rw [Path.names, pieces_joinWith ht hno]
  refine ⟨((pieces '/' p).drop i).filter (· != ""), fun hf => ?_, ?_, fun hq => ?_⟩
  · obtain ⟨init, last, hl, hlast⟩ := pieces_concat hs hne
    have hlen : i ≤ init.length := by simpa [hl, Nat.lt_succ_iff] using hi
    have hmem : last ∈ (pieces '/' p).drop i := by simp [hl, List.drop_append_of_le_length hlen]
    exact hlast (by simpa using List.filter_eq_nil_iff.mp hf last hmem)
  · rw [hnames, ← List.filter_append, hsplit]
    rfl
  · have ht : (pieces '/' p).take i ≠ [] := by
      intro ht
      rw [ht] at hq
      exact hq rfl
    rw [← hsplit, joinWith_append ht hdrop] at hp
    obtain ⟨c, cs, hc⟩ := List.exists_cons_of_ne_nil
      (l := (joinWith "/" ((pieces '/' p).take i)).toList) (by simpa using hq)
    have hhead : p.toList.head? = some c := by
      rw [← congrArg String.toList hp]
      simp [hc]
    rw [Path.isAbsolute, Path.isAbsolute, hhead, hc, List.head?_cons]

/-- A point at the end changes nothing but that it asks for a directory. -/
lemma follow_concat_point {b : Nat} {ns : List String}
    (h : fs.follow false b loc (ns ++ ["."]) = .arrived l) :
    fs.follow false b loc ns = .arrived l := by
  rcases fs.follow_split false b loc ns (List.cons_ne_nil "." []) with ⟨error, he⟩ | ⟨b', loc', hleads, he⟩
  · simp [he] at h
  · rw [he] at h
    cases hd : fs.isDirAt loc' with
    | false => simp [follow_not_dir hd] at h
    | true =>
      rw [follow_point hd, follow_nil] at h
      rw [hleads.follow_eq, h]

lemma locate_follow {q : String} (h : fs.locate q = .ok l) :
    q ≠ "" ∧ fs.follow false 40 (fs.startOf q) (Path.names q) = .arrived l := by
  have hne : q ≠ "" := by
    rintro rfl
    simp [locate, reach] at h
  refine ⟨hne, ?_⟩
  have harr : fs.follow false 40 (fs.startOf q) (namesOf q) = .arrived l := by
    rw [locate, reach_eq hne] at h
    generalize fs.follow false 40 (fs.startOf q) (namesOf q) = r at h
    cases r with
    | arrived loc => simpa using h
    | missing | linked | failed => simp at h
  by_cases hs : q.toList.getLast? = some '/'
  · rw [namesOf, if_pos (by simpa using hs)] at harr
    exact follow_concat_point harr
  · rwa [namesOf_eq hs] at harr

namespace Names

/-- On its way a path comes through nothing that lies at its end or below. -/
lemma placesAlong_above (h : Names fs path home p rest) (hl : l ∈ fs.placesAlong p) :
    ¬ home ++ rest <+: l := by
  obtain ⟨names, hb, hq⟩ := List.mem_filterMap.mp hl
  obtain ⟨last, b, above, hh, hlast, -, -, hreach⟩ := h.anchored.reach_follow
  obtain ⟨⟨init, hp, hleads⟩, -⟩ := hreach p rest h.spells
  obtain ⟨ys, hys, hnames, habs⟩ := names_of_beginning h.spells.slash h.ne_empty hb
  have hlocate : fs.locate (joinWith "/" names) = .ok l := by
    cases hr : fs.locate (joinWith "/" names) with
    | error e => simp [hr, Except.toOption] at hq
    | ok loc => simpa [hr, Except.toOption] using hq
  obtain ⟨hqne, hfollow⟩ := locate_follow hlocate
  have hstart : fs.startOf (joinWith "/" names) = fs.startOf p := by
    rw [startOf, startOf, habs hqne]
  rw [hstart] at hfollow
  rw [hp] at hnames
  generalize Path.names (joinWith "/" names) = xs at hnames hfollow
  rcases List.append_eq_append_iff.mp hnames with ⟨ms, rfl, hms⟩ | ⟨ms, rfl, -⟩
  · -- the path has come to `home` already
    cases ms with
    | nil =>
      rw [List.append_nil, hleads.follow_eq] at hfollow
      obtain rfl := Walk.arrived.inj hfollow
      intro hpre
      exact hleads.end_mem ((List.prefix_append home rest).trans hpre)
    | cons m ms =>
      obtain ⟨rfl, rfl⟩ := List.cons.inj hms
      rw [hleads.follow_append false (by simp)] at hfollow
      have hlands : fs.Lands (above ++ last :: ms) (fs.follow false b above (last :: ms)) := by
        refine follow_lands h.wellFormed (by simp) ?_ fun xs zs t hxs hne _ => ?_
        · simpa using And.intro hlast fun n hn => h.spells.isName n (List.mem_append_left _ hn)
        · cases xs with
          | nil => exact absurd rfl hne
          | cons x xs =>
            obtain ⟨rfl, rfl⟩ := List.cons.inj hxs
            rw [List.append_cons, ← hh]
            exact h.plain xs (zs ++ ys) t (by simp) (by simp [hys])
      rw [hfollow] at hlands
      cases hlands
      intro hpre
      have hlen := hpre.length_le
      have := List.length_pos_iff.mpr hys
      simp only [hh, List.append_eq, List.length_append, List.length_cons, List.length_nil] at hlen
      omega
  · obtain ⟨c, mid, hmid⟩ := hleads.split
    rw [hmid.follow_eq] at hfollow
    obtain rfl := Walk.arrived.inj hfollow
    intro hpre
    exact hmid.end_mem ((List.prefix_append home rest).trans hpre)

lemma getLast?_pieces (h : Names fs path home p rest) :
    ∃ name, (pieces '/' p).getLast? = some name ∧ IsName name := by
  obtain ⟨last, b, above, -, hlast, -, -, hreach⟩ := h.anchored.reach_follow
  obtain ⟨⟨init, hp, -⟩, -⟩ := hreach p rest h.spells
  obtain ⟨before, name, hpieces, hne⟩ := pieces_concat h.spells.slash h.ne_empty
  refine ⟨name, by simp [hpieces], ?_⟩
  have hnames : Path.names p = before.filter (· != "") ++ [name] := by
    simp [Path.names, hpieces, hne]
  have hmem : name ∈ last :: rest := by
    have hl : (init ++ last :: rest).getLast? = some name := by
      rw [← hp, hnames]
      simp
    rw [List.getLast?_append_cons] at hl
    exact List.mem_of_getLast? hl
  rcases List.mem_cons.mp hmem with rfl | hm
  · exact hlast
  · exact h.spells.isName name hm

lemma removeTree_eq (h : Names fs path home p rest) (hloc : fs.isDirAt (home ++ rest) = true) :
    fs.removeTree p =
      { fs with entries := fs.entries.filter fun (l, _) => !(home ++ rest).isPrefixOf l } := by
  have hlands := h.lands_kept
  have hlocate : fs.locateLink p = .ok (home ++ rest) := by
    rw [locateLink]
    generalize fs.reach true p = r at hlands
    cases hlands with
    | arrived => rfl
    | missing hn | failed _ hn => simp [isDirAt, hn] at hloc
  have hentry : fs.endsInEntry p = true := by
    obtain ⟨name, hlast, hname⟩ := h.getLast?_pieces
    unfold endsInEntry
    rw [withoutSlash_eq h.spells.slash, hlast]
    split
    · next hp => exact absurd (Option.some.inj hp) hname.ne_point
    · next hp => exact absurd (Option.some.inj hp) hname.ne_points
    · simp [hlocate, hloc]
  have hstay (l : Location) : fs.staysBehind p (home ++ rest) l = false := by
    have hf : (fs.placesAlong p).filter (home ++ rest).isPrefixOf = [] := by
      rw [List.filter_eq_nil_iff]
      intro place hp hpre
      exact h.placesAlong_above hp (List.isPrefixOf_iff_prefix.mp hpre)
    simp [staysBehind, hentry, hf]
  rw [removeTree, hlocate]
  simp only [isDirAt_iff.mp hloc, hstay, Bool.or_false]

lemma removed_keep (hw : fs.WellFormed) (hne : loc ≠ []) : Removed loc fs
    { fs with entries := fs.entries.filter fun (l, _) => !loc.isPrefixOf l } := by
  have hpre (l : Location) : loc.isPrefixOf l = true ↔ loc <+: l := List.isPrefixOf_iff_prefix
  refine ⟨rfl, hw.keep (fun l => !loc.isPrefixOf l) fun l hl _ _ => ?_, fun l => ?_⟩
  · simp only [Bool.not_eq_true', ← Bool.not_eq_true, hpre] at hl ⊢
    exact fun hd => hl (hd.trans (List.dropLast_prefix l))
  · by_cases hl : l = []
    · subst hl
      simp [entry?_nil, hne]
    · rw [entry?_keep (fun l => !loc.isPrefixOf l) hl]
      by_cases hp : loc <+: l
      · simp [(hpre l).mpr hp, hp]
      · simp [Bool.eq_false_iff.mpr fun hh => hp ((hpre l).mp hh), hp]

/-- A directory that a path names is taken away with all that it holds, and nothing else is. -/
theorem removeTree_removed (h : Names fs path home p rest)
    (hl : ∀ t, fs.entry? (home ++ rest) ≠ some (.link t)) :
    Removed (home ++ rest) fs (fs.removeTree p) := by
  have hlands := h.lands_kept
  have hnone {fs' : FileTree} (hw : fs'.WellFormed) (hn : FileTree.entry? fs' (home ++ rest) = none) :
      Removed (home ++ rest) fs' fs' := by
    refine ⟨rfl, hw, fun l => ?_⟩
    by_cases hp : home ++ rest <+: l
    · rw [if_pos hp, hw.entry?_eq_none_below hn hp]
    · rw [if_neg hp]
  cases hd : fs.isDirAt (home ++ rest) with
  | true =>
    rw [h.removeTree_eq hd]
    exact removed_keep h.wellFormed h.loc_ne_nil
  | false =>
    rw [removeTree, locateLink]
    generalize fs.reach true p = r at hlands
    cases hlands with
    | missing hn | failed _ hn => exact hnone h.wellFormed hn
    | arrived hs =>
      obtain ⟨e, he⟩ := Option.isSome_iff_exists.mp hs
      have herase : Removed (home ++ rest) fs (fs.erase (home ++ rest)) := by
        refine ⟨rfl, h.wellFormed.erase hd, fun l => ?_⟩
        by_cases hnil : l = []
        · subst hnil
          simp [entry?_nil, h.anchored.home_ne_nil]
        rw [entry?_erase hnil]
        by_cases hp : home ++ rest <+: l
        · rw [if_pos hp]
          by_cases heq : l = home ++ rest
          · rw [if_pos heq]
          · obtain ⟨ns, rfl⟩ := hp
            rw [if_neg heq]
            exact h.wellFormed.entry?_eq_none hd fun hns => heq (by simp [hns])
        · have hne : l ≠ home ++ rest := fun heq => hp (heq ▸ List.prefix_rfl)
          rw [if_neg hp, if_neg hne]
      cases e with
      | dir => simp [isDirAt, he] at hd
      | link t => exact absurd he (hl t)
      | file content executable => simpa only [he] using herase

end Names

end FileTree

end JavaAtlas
