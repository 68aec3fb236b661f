import JavaAtlas.Proofs.PathNames
import Mathlib.Data.List.Induction
import Mathlib.Data.Set.Basic

/-! Where paths lead. A file tree is well formed when every entry stands in a directory under a name of
its own. `Follows` says step by step how the names of a path are followed, `Leads` how the first of
them are: through which places, and how many links may still be followed after that. -/

namespace JavaAtlas

lemma ok_of_bind {ε α β : Type} {x : Except ε α} {f : α → Except ε β} {b : β}
    (h : x >>= f = .ok b) : ∃ a, x = .ok a ∧ f a = .ok b := by
  cases x with
  | error e => cases h
  | ok a => exact ⟨a, rfl, h⟩

namespace FileTree

open Text

structure WellFormed (fs : FileTree) : Prop where
  nodup : (fs.entries.map (·.1)).Nodup
  ne_root : ∀ e ∈ fs.entries, e.1 ≠ []
  isName : ∀ e ∈ fs.entries, ∀ n ∈ e.1, IsName n ∧ n.utf8ByteSize ≤ 255
  parent : ∀ e ∈ fs.entries, fs.entry? e.1.dropLast = some .dir

instance (fs : FileTree) : Decidable fs.WellFormed :=
  decidable_of_iff ((fs.entries.map (·.1)).Nodup ∧ (∀ e ∈ fs.entries, e.1 ≠ []) ∧
      (∀ e ∈ fs.entries, ∀ n ∈ e.1, IsName n ∧ n.utf8ByteSize ≤ 255) ∧
      ∀ e ∈ fs.entries, fs.entry? e.1.dropLast = some .dir)
    ⟨fun ⟨a, b, c, d⟩ => ⟨a, b, c, d⟩, fun ⟨a, b, c, d⟩ => ⟨a, b, c, d⟩⟩

variable {fs fs' : FileTree} {loc l : Location} {e : FileEntry}

lemma entry?_nil : fs.entry? [] = some .dir := rfl

lemma entry?_of_ne_nil (h : l ≠ []) : fs.entry? l = fs.entries.lookup l := by
  simp [ entry?, h]

lemma lookup_filter_keys (keep : Location → Bool) (entries : List (Location × FileEntry)) :
    (entries.filter fun (l, _) => keep l).lookup l = if keep l then entries.lookup l else none := by
  induction entries with
  | nil => simp
  | cons x xs ih =>
    obtain ⟨k, e⟩ := x
    by_cases hk : l = k
    · subst hk
      cases hq : keep l with
      | true => simp [List.filter_cons_of_pos, hq]
      | false =>
        rw [List.filter_cons_of_neg (by simp [hq]), ih, hq]
        simp
    · have hb : (l == k) = false := by simpa using hk
      cases hq : keep k with
      | true =>
        rw [List.filter_cons_of_pos (by simp [hq])]
        simp only [List.lookup_cons, hb, ih]
      | false =>
        rw [List.filter_cons_of_neg (by simp [hq]), ih]
        simp only [List.lookup_cons, hb]

/-- Keeps the entries of some places only. -/
lemma entry?_keep (keep : Location → Bool) (h : l ≠ []) :
    FileTree.entry? { fs with entries := fs.entries.filter fun (l, _) => keep l } l =
      if keep l then fs.entry? l else none := by
  rw [entry?_of_ne_nil h, entry?_of_ne_nil h]
  exact lookup_filter_keys keep fs.entries

lemma entry?_erase (h : l ≠ []) :
    FileTree.entry? (fs.erase loc) l = if l = loc then none else fs.entry? l := by
  have hk : FileTree.entry? (fs.erase loc) l = if l != loc then fs.entry? l else none :=
    entry?_keep (· != loc) h
  rw [hk]
  by_cases hl : l = loc <;> simp [hl]

lemma entry?_insert (h : loc ≠ []) :
    FileTree.entry? (fs.insert loc e) l = if l = loc then some e else fs.entry? l := by
  by_cases hl : l = []
  · subst hl
    simp [entry?_nil, Ne.symm h]
  · have he : FileTree.entry? (fs.erase loc) l = _ := entry?_erase hl
    rw [entry?_of_ne_nil hl, erase] at he
    rw [entry?_of_ne_nil hl, insert, List.lookup_append, he]
    by_cases hk : l = loc
    · simp [hk]
    · have hb : (l == loc) = false := by simpa using hk
      simp [hk, hb, List.lookup_cons]

lemma mem_entries (h : l ≠ []) (he : fs.entry? l = some e) : (l, e) ∈ fs.entries := by
  rw [entry?_of_ne_nil h] at he
  obtain ⟨before, after, hs, -⟩ := List.lookup_eq_some_iff.mp he
  rw [hs]
  simp

lemma isDirAt_iff : fs.isDirAt loc = true ↔ fs.entry? loc = some .dir := by
  simp [isDirAt]

lemma isDirAt_congr (h : FileTree.entry? fs' loc = fs.entry? loc) : fs'.isDirAt loc = fs.isDirAt loc := by
  rw [isDirAt, isDirAt, h]

namespace WellFormed

lemma entry?_of_mem (hw : fs.WellFormed) (h : (l, e) ∈ fs.entries) : fs.entry? l = some e := by
  rw [entry?_of_ne_nil (hw.ne_root _ h)]
  obtain ⟨before, after, hs⟩ := List.append_of_mem h
  refine List.lookup_eq_some_iff.mpr ⟨before, after, hs, fun x hx => ?_⟩
  have hn := hw.nodup
  rw [hs, List.map_append, List.map_cons, List.nodup_append] at hn
  have hne := hn.2.2 x.1 (List.mem_map_of_mem hx) l List.mem_cons_self
  simpa using Ne.symm hne

lemma isName_of_some (hw : fs.WellFormed) (he : fs.entry? l = some e) :
    ∀ n ∈ l, IsName n ∧ n.utf8ByteSize ≤ 255 := by
  by_cases hl : l = []
  · simp [hl]
  · exact hw.isName _ (mem_entries hl he)

lemma isDirAt_dropLast (hw : fs.WellFormed) (he : fs.entry? l = some e) :
    fs.isDirAt l.dropLast = true := by
  by_cases hl : l = []
  · simp [hl, isDirAt, entry?_nil]
  · exact isDirAt_iff.mpr (hw.parent _ (mem_entries hl he))

/-- Whatever exists stands in directories all the way down. -/
lemma isDirAt_of_append (hw : fs.WellFormed) {rest : List String} (hr : rest ≠ [])
    (he : fs.entry? (loc ++ rest) = some e) : fs.isDirAt loc = true := by
  induction rest using List.reverseRecOn generalizing e with
  | nil => exact absurd rfl hr
  | append_singleton rest n ih =>
    have hd := hw.isDirAt_dropLast he
    rw [← List.append_assoc, List.dropLast_concat] at hd
    by_cases hrest : rest = []
    · simpa [hrest] using hd
    · exact ih hrest (isDirAt_iff.mp hd)

/-- Nothing stands below a place that is no directory. -/
lemma entry?_eq_none (hw : fs.WellFormed) (hn : fs.isDirAt loc = false) {rest : List String}
    (hr : rest ≠ []) : fs.entry? (loc ++ rest) = none := by
  cases he : fs.entry? (loc ++ rest) with
  | none => rfl
  | some e => exact absurd (hw.isDirAt_of_append hr he) (by simp [hn])

lemma entry?_eq_none_below (hw : fs.WellFormed) (hn : fs.entry? loc = none) (hp : loc <+: l) :
    fs.entry? l = none := by
  obtain ⟨rest, rfl⟩ := hp
  by_cases hr : rest = []
  · simpa [hr] using hn
  · exact hw.entry?_eq_none (by simp [isDirAt, hn]) hr

end WellFormed

/-- A place where an entry can stand. -/
structure Seat (fs : FileTree) (loc : Location) : Prop where
  ne_nil : loc ≠ []
  parent : fs.isDirAt loc.dropLast = true
  isName : ∀ n ∈ loc, IsName n ∧ n.utf8ByteSize ≤ 255

lemma Seat.of_dir {dir : Location} {name : String} (hw : fs.WellFormed)
    (hd : fs.isDirAt dir = true) (hn : IsName name) (hf : name.utf8ByteSize ≤ 255) :
    fs.Seat (dir ++ [name]) := by
  refine ⟨by simp, by simpa using hd, fun n hm => ?_⟩
  rcases List.mem_append.mp hm with hm | hm
  · exact hw.isName_of_some (isDirAt_iff.mp hd) n hm
  · obtain rfl : n = name := by simpa using hm
    exact ⟨hn, hf⟩

namespace WellFormed

lemma seat (hw : fs.WellFormed) (hl : l ≠ []) (he : fs.entry? l = some e) : fs.Seat l :=
  ⟨hl, hw.isDirAt_dropLast he, hw.isName_of_some he⟩

/-- An entry may be put where none is, or in place of one that is no directory. -/
lemma insert (hw : fs.WellFormed) (hs : fs.Seat loc) (hd : fs.isDirAt loc = false) :
    (fs.insert loc e).WellFormed := by
  have hmem {x : Location × FileEntry} (hx : x ∈ (fs.insert loc e).entries) :
      x ∈ fs.entries ∧ x.1 ≠ loc ∨ x = (loc, e) := by
    simpa [FileTree.insert] using hx
  refine ⟨?_, fun x hx => ?_, fun x hx => ?_, fun x hx => ?_⟩
  case refine_1 =>
    have hn : ((fs.entries.filter (·.1 != loc)).map (·.1)).Nodup :=
      hw.nodup.sublist (List.filter_sublist.map _)
    rw [FileTree.insert, List.map_append, List.nodup_append]
    refine ⟨hn, by simp, fun a ha b hb => ?_⟩
    obtain ⟨x, hx, rfl⟩ := List.mem_map.mp ha
    obtain rfl : b = loc := by simpa using hb
    simpa using (List.mem_filter.mp hx).2
  case refine_2 =>
    rcases hmem hx with ⟨hm, -⟩ | rfl
    · exact hw.ne_root x hm
    · exact hs.ne_nil
  case refine_3 =>
    rcases hmem hx with ⟨hm, -⟩ | rfl
    · exact hw.isName x hm
    · exact hs.isName
  case refine_4 =>
    rw [entry?_insert hs.ne_nil]
    have hdir : fs.entry? x.1.dropLast = some .dir := by
      rcases hmem hx with ⟨hm, -⟩ | rfl
      · exact hw.parent x hm
      · exact isDirAt_iff.mp hs.parent
    have hne : x.1.dropLast ≠ loc := by
      rintro rfl
      simp [isDirAt, hdir] at hd
    rw [if_neg hne, hdir]

/-- Entries may be taken away with all that stands below them. -/
lemma keep (hw : fs.WellFormed) (keep : Location → Bool)
    (h : ∀ l, keep l = true → l ≠ [] → l.dropLast ≠ [] → keep l.dropLast = true) :
    ({ fs with entries := fs.entries.filter fun (l, _) => keep l } : FileTree).WellFormed := by
  have hmem {x : Location × FileEntry} (hx : x ∈ fs.entries.filter fun (l, _) => keep l) :
      x ∈ fs.entries ∧ keep x.1 = true := List.mem_filter.mp hx
  refine ⟨hw.nodup.sublist (List.filter_sublist.map _), fun x hx => hw.ne_root x (hmem hx).1,
    fun x hx => hw.isName x (hmem hx).1, fun x hx => ?_⟩
  obtain ⟨hm, hk⟩ := hmem hx
  by_cases hd : x.1.dropLast = []
  · rw [hd, entry?_nil]
  · rw [entry?_keep keep hd, h x.1 hk (hw.ne_root x hm) hd, if_pos rfl, hw.parent x hm]

lemma erase (hw : fs.WellFormed) (hd : fs.isDirAt loc = false) : (fs.erase loc).WellFormed := by
  have hmem {x : Location × FileEntry} (hx : x ∈ (fs.erase loc).entries) :
      x ∈ fs.entries := (List.mem_filter.mp hx).1
  refine ⟨hw.nodup.sublist (List.filter_sublist.map _), fun x hx => hw.ne_root x (hmem hx),
    fun x hx => hw.isName x (hmem hx), fun x hx => ?_⟩
  have hp := hw.parent x (hmem hx)
  by_cases hn : x.1.dropLast = []
  · rw [hn, entry?_nil]
  · have hne : x.1.dropLast ≠ loc := by
      rintro rfl
      simp [isDirAt, hp] at hd
    rw [entry?_erase hn, if_neg hne, hp]

end WellFormed

section Follow

variable {keepLast : Bool} {b b' : Nat} {loc' : Location} {name target : String}
variable {ns rest : List String}

/-- Where a link with that target begins to lead. -/
def baseOf (target : String) (loc : Location) : Location :=
  if Path.isAbsolute target then [] else loc

structure IsStep (name : String) : Prop where
  ne_point : name ≠ "."
  ne_points : name ≠ ".."
  fits : name.utf8ByteSize ≤ 255

lemma follow_nil : fs.follow keepLast b loc [] = .arrived loc := by
  rw [follow, walk]

lemma follow_not_dir (h : fs.isDirAt loc = false) :
    fs.follow keepLast b loc (name :: rest) = .failed .notDirectory := by
  simp [follow, walk, h]

lemma follow_too_long (h : fs.isDirAt loc = true) (hn : 255 < name.utf8ByteSize) :
    fs.follow keepLast b loc (name :: rest) = .failed .nameTooLong := by
  simp [follow, walk, h, hn]

lemma follow_point (h : fs.isDirAt loc = true) :
    fs.follow keepLast b loc ("." :: rest) = fs.follow keepLast b loc rest := by
  have hs : ¬ 255 < ".".utf8ByteSize := by decide
  rw [follow, walk, h]
  simp only [Bool.not_true, Bool.false_eq_true, if_false, hs, if_true]
  rw [← follow]

lemma follow_points (h : fs.isDirAt loc = true) :
    fs.follow keepLast b loc (".." :: rest) = fs.follow keepLast b loc.dropLast rest := by
  have hs : ¬ 255 < "..".utf8ByteSize := by decide
  have hp : ¬ ".." = "." := by decide
  rw [follow, walk, h]
  simp only [Bool.not_true, Bool.false_eq_true, if_false, hs, hp, if_true]
  rw [← follow]

lemma walk_step (h : fs.isDirAt loc = true) (hn : IsStep name) :
    fs.walk keepLast loc (name :: rest) =
      match fs.entry? (loc ++ [name]) with
      | none => if rest.isEmpty then .missing (loc ++ [name]) else .failed .notFound
      | some (.link target) =>
        if keepLast && rest.isEmpty then .arrived (loc ++ [name]) else .linked loc target rest
      | some _ => fs.walk keepLast (loc ++ [name]) rest := by
  have hs : ¬ 255 < name.utf8ByteSize := by simpa using hn.fits
  cases he : fs.entry? (loc ++ [name]) with
  | none => simp [walk, h, hs, hn.ne_point, hn.ne_points, he]
  | some entry => cases entry <;> simp [walk, h, hs, hn.ne_point, hn.ne_points, he]

lemma follow_enter (h : fs.isDirAt loc = true) (hn : IsStep name)
    (he : fs.entry? (loc ++ [name]) = some e) (hl : ∀ t, e ≠ .link t) :
    fs.follow keepLast b loc (name :: rest) = fs.follow keepLast b (loc ++ [name]) rest := by
  have hw : fs.walk keepLast loc (name :: rest) = fs.walk keepLast (loc ++ [name]) rest := by
    rw [walk_step h hn, he]
    cases e with
    | link t => exact absurd rfl (hl t)
    | dir => rfl
    | file => rfl
  rw [follow, hw, ← follow]

lemma follow_link (h : fs.isDirAt loc = true) (hn : IsStep name)
    (he : fs.entry? (loc ++ [name]) = some (.link target))
    (hk : (keepLast && rest.isEmpty) = false) :
    fs.follow keepLast (b + 1) loc (name :: rest) =
      fs.follow keepLast b (baseOf target loc) (namesOf target ++ rest) := by
  rw [follow, walk_step h hn, he]
  simp only [hk, Bool.false_eq_true, if_false]
  rfl

lemma follow_spent (h : fs.isDirAt loc = true) (hn : IsStep name)
    (he : fs.entry? (loc ++ [name]) = some (.link target))
    (hk : (keepLast && rest.isEmpty) = false) :
    fs.follow keepLast 0 loc (name :: rest) = .failed .tooManyLinks := by
  rw [follow, walk_step h hn, he]
  simp only [hk, Bool.false_eq_true, if_false]

lemma follow_kept (h : fs.isDirAt loc = true) (hn : IsStep name)
    (he : fs.entry? (loc ++ [name]) = some (.link target)) :
    fs.follow true b loc [name] = .arrived (loc ++ [name]) := by
  rw [follow, walk_step h hn, he]
  rfl

lemma follow_missing (h : fs.isDirAt loc = true) (hn : IsStep name)
    (he : fs.entry? (loc ++ [name]) = none) :
    fs.follow keepLast b loc [name] = .missing (loc ++ [name]) := by
  rw [follow, walk_step h hn, he]
  rfl

lemma follow_lost (h : fs.isDirAt loc = true) (hn : IsStep name)
    (he : fs.entry? (loc ++ [name]) = none) (hr : rest ≠ []) :
    fs.follow keepLast b loc (name :: rest) = .failed .notFound := by
  rw [follow, walk_step h hn, he]
  simp [hr]

/-- Names that lead down through directories. -/
lemma follow_down (hw : fs.WellFormed) (hd : fs.isDirAt (loc ++ ns) = true) :
    fs.follow keepLast b loc (ns ++ rest) = fs.follow keepLast b (loc ++ ns) rest := by
  induction ns generalizing loc with
  | nil => simp
  | cons n ns ih =>
    obtain ⟨hname, hfits⟩ := hw.isName_of_some (isDirAt_iff.mp hd) n (by simp)
    rw [List.append_cons] at hd ⊢
    have hnext : fs.isDirAt (loc ++ [n]) = true := by
      by_cases hns : ns = []
      · simpa [hns] using hd
      · exact hw.isDirAt_of_append hns (isDirAt_iff.mp hd)
    have hloc := hw.isDirAt_of_append (List.cons_ne_nil n []) (isDirAt_iff.mp hnext)
    rw [List.cons_append, follow_enter hloc ⟨hname.ne_point, hname.ne_points, hfits⟩
      (isDirAt_iff.mp hnext) nofun, ih hd]

/-- How names are followed, one at a time, where all places that are looked at lie in `S`. -/
inductive Follows (fs : FileTree) (S : Set Location) (keepLast : Bool) :
    Nat → Location → List String → Walk → Prop
  | here {b : Nat} {loc : Location} : loc ∈ S → Follows fs S keepLast b loc [] (.arrived loc)
  | notDir {b : Nat} {loc : Location} {name : String} {rest : List String} : loc ∈ S →
      fs.isDirAt loc = false → Follows fs S keepLast b loc (name :: rest) (.failed .notDirectory)
  | tooLong {b : Nat} {loc : Location} {name : String} {rest : List String} : loc ∈ S →
      fs.isDirAt loc = true → 255 < name.utf8ByteSize →
      Follows fs S keepLast b loc (name :: rest) (.failed .nameTooLong)
  | stay {b : Nat} {loc : Location} {rest : List String} {r : Walk} : loc ∈ S →
      fs.isDirAt loc = true → Follows fs S keepLast b loc rest r →
      Follows fs S keepLast b loc ("." :: rest) r
  | up {b : Nat} {loc : Location} {rest : List String} {r : Walk} : loc ∈ S →
      fs.isDirAt loc = true → Follows fs S keepLast b loc.dropLast rest r →
      Follows fs S keepLast b loc (".." :: rest) r
  | missing {b : Nat} {loc : Location} {name : String} : loc ∈ S → fs.isDirAt loc = true →
      IsStep name → loc ++ [name] ∈ S → fs.entry? (loc ++ [name]) = none →
      Follows fs S keepLast b loc [name] (.missing (loc ++ [name]))
  | lost {b : Nat} {loc : Location} {name : String} {rest : List String} : loc ∈ S →
      fs.isDirAt loc = true → IsStep name → loc ++ [name] ∈ S →
      fs.entry? (loc ++ [name]) = none → rest ≠ [] →
      Follows fs S keepLast b loc (name :: rest) (.failed .notFound)
  | kept {b : Nat} {loc : Location} {name target : String} : keepLast = true → loc ∈ S →
      fs.isDirAt loc = true → IsStep name → loc ++ [name] ∈ S →
      fs.entry? (loc ++ [name]) = some (.link target) →
      Follows fs S keepLast b loc [name] (.arrived (loc ++ [name]))
  | spent {loc : Location} {name target : String} {rest : List String} :
      (keepLast && rest.isEmpty) = false → loc ∈ S → fs.isDirAt loc = true → IsStep name →
      loc ++ [name] ∈ S → fs.entry? (loc ++ [name]) = some (.link target) →
      Follows fs S keepLast 0 loc (name :: rest) (.failed .tooManyLinks)
  | link {b : Nat} {loc : Location} {name target : String} {rest : List String} {r : Walk} :
      (keepLast && rest.isEmpty) = false → loc ∈ S → fs.isDirAt loc = true → IsStep name →
      loc ++ [name] ∈ S → fs.entry? (loc ++ [name]) = some (.link target) →
      Follows fs S keepLast b (baseOf target loc) (namesOf target ++ rest) r →
      Follows fs S keepLast (b + 1) loc (name :: rest) r
  | enter {b : Nat} {loc : Location} {name : String} {rest : List String} {e : FileEntry}
      {r : Walk} : loc ∈ S → fs.isDirAt loc = true → IsStep name →
      fs.entry? (loc ++ [name]) = some e → (∀ t, e ≠ .link t) →
      Follows fs S keepLast b (loc ++ [name]) rest r → Follows fs S keepLast b loc (name :: rest) r

/-- The numbers bound the links, the names bound the steps between two links. -/
theorem follows_follow (keepLast : Bool) (b : Nat) (loc : Location) (ns : List String) :
    fs.Follows Set.univ keepLast b loc ns (fs.follow keepLast b loc ns) := by
  induction b generalizing loc ns with
  | zero | succ b ihb =>
    induction ns generalizing loc with
    | nil =>
      rw [follow_nil]
      exact .here trivial
    | cons name rest ih =>
      cases hd : fs.isDirAt loc with
      | false =>
        rw [follow_not_dir hd]
        exact .notDir trivial hd
      | true =>
        by_cases hp : name = "."
        · subst hp
          rw [follow_point hd]
          exact .stay trivial hd (ih loc)
        by_cases hpp : name = ".."
        · subst hpp
          rw [follow_points hd]
          exact .up trivial hd (ih loc.dropLast)
        by_cases hf : 255 < name.utf8ByteSize
        · rw [follow_too_long hd hf]
          exact .tooLong trivial hd hf
        have hn : IsStep name := ⟨hp, hpp, by omega⟩
        cases he : fs.entry? (loc ++ [name]) with
        | none =>
          by_cases hr : rest = []
          · subst hr
            rw [follow_missing hd hn he]
            exact .missing trivial hd hn trivial he
          · rw [follow_lost hd hn he hr]
            exact .lost trivial hd hn trivial he hr
        | some e =>
          cases e with
          | dir =>
            rw [follow_enter hd hn he nofun]
            exact .enter trivial hd hn he nofun (ih _)
          | file content executable =>
            rw [follow_enter hd hn he nofun]
            exact .enter trivial hd hn he nofun (ih _)
          | link target =>
            cases hk : keepLast && rest.isEmpty with
            | true =>
              obtain ⟨rfl, hr⟩ : keepLast = true ∧ rest = [] := by simpa using hk
              subst hr
              rw [follow_kept hd hn he]
              exact .kept rfl trivial hd hn trivial he
            | false =>
              first
              | rw [follow_spent hd hn he hk]
                exact .spent hk trivial hd hn trivial he
              | rw [follow_link hd hn he hk]
                exact .link hk trivial hd hn trivial he (ihb _ _)

lemma mem_namesOf {p n : String} (h : n ∈ namesOf p) : n ≠ "" ∧ '/' ∉ n.toList := by
  rw [namesOf] at h
  split at h
  · rcases List.mem_append.mp h with h | h
    · exact Path.mem_names h
    · obtain rfl : n = "." := by simpa using h
      decide
  · exact Path.mem_names h

namespace Follows

variable {S : Set Location} {r : Walk}

lemma start_mem (h : fs.Follows S keepLast b loc ns r) : loc ∈ S := by
  cases h <;> assumption

lemma end_mem (h : fs.Follows S keepLast b loc ns (.arrived l)) : l ∈ S := by
  generalize hr : Walk.arrived l = r at h
  induction h with
  | here hs => exact Walk.arrived.inj hr ▸ hs
  | kept _ _ _ _ hm => exact Walk.arrived.inj hr ▸ hm
  | stay _ _ _ ih | up _ _ _ ih | enter _ _ _ _ _ _ ih | link _ _ _ _ _ _ _ ih => exact ih hr
  | _ => cases hr

lemma eq_follow (h : fs.Follows S keepLast b loc ns r) : fs.follow keepLast b loc ns = r := by
  induction h with
  | here => exact follow_nil
  | notDir _ hd => exact follow_not_dir hd
  | tooLong _ hd hf => exact follow_too_long hd hf
  | stay _ hd _ ih => rw [follow_point hd, ih]
  | up _ hd _ ih => rw [follow_points hd, ih]
  | missing _ hd hn _ he => exact follow_missing hd hn he
  | lost _ hd hn _ he hr => exact follow_lost hd hn he hr
  | kept hk _ hd hn _ he =>
    subst hk
    exact follow_kept hd hn he
  | spent hk _ hd hn _ he => exact follow_spent hd hn he hk
  | link hk _ hd hn _ he _ ih => rw [follow_link hd hn he hk, ih]
  | enter _ hd hn he hl _ ih => rw [follow_enter hd hn he hl, ih]

/-- Files that have the same at the places that are looked at are the same for the path. -/
lemma congr (h : fs.Follows S keepLast b loc ns r) (hS : ∀ l ∈ S, FileTree.entry? fs' l = fs.entry? l) :
    fs'.Follows S keepLast b loc ns r := by
  have hdir {l : Location} {d : Bool} (hs : l ∈ S) (hd : fs.isDirAt l = d) :
      fs'.isDirAt l = d := by
    rw [isDirAt_congr (hS l hs), hd]
  induction h with
  | here hs => exact .here hs
  | notDir hs hd => exact .notDir hs (hdir hs hd)
  | tooLong hs hd hf => exact .tooLong hs (hdir hs hd) hf
  | stay hs hd _ ih => exact .stay hs (hdir hs hd) ih
  | up hs hd _ ih => exact .up hs (hdir hs hd) ih
  | missing hs hd hn hm he => exact .missing hs (hdir hs hd) hn hm ((hS _ hm).trans he)
  | lost hs hd hn hm he hr => exact .lost hs (hdir hs hd) hn hm ((hS _ hm).trans he) hr
  | kept hk hs hd hn hm he => exact .kept hk hs (hdir hs hd) hn hm ((hS _ hm).trans he)
  | spent hk hs hd hn hm he => exact .spent hk hs (hdir hs hd) hn hm ((hS _ hm).trans he)
  | link hk hs hd hn hm he _ ih => exact .link hk hs (hdir hs hd) hn hm ((hS _ hm).trans he) ih
  | enter hs hd hn he hl h ih =>
    exact .enter hs (hdir hs hd) hn ((hS _ h.start_mem).trans he) hl ih

lemma not_linked (h : fs.Follows S keepLast b loc ns r) {t : String} :
    r ≠ .linked l t rest := by
  induction h with
  | stay _ _ _ ih | up _ _ _ ih | link _ _ _ _ _ _ _ ih | enter _ _ _ _ _ _ ih => exact ih
  | _ => exact nofun

/-- Where a path leads to nothing, something can be made. -/
lemma seat_of_missing (hw : fs.WellFormed) (h : fs.Follows S keepLast b loc ns (.missing l))
    (hn : ∀ n ∈ ns, n ≠ "" ∧ '/' ∉ n.toList) : fs.Seat l ∧ fs.entry? l = none := by
  generalize hr : Walk.missing l = r at h
  induction h with
  | missing _ hd hs _ he =>
    obtain rfl := Walk.missing.inj hr
    obtain ⟨hne, hsl⟩ := hn _ List.mem_cons_self
    exact ⟨.of_dir hw hd ⟨hne, hs.ne_point, hs.ne_points, hsl⟩ hs.fits, he⟩
  | stay _ _ _ ih | up _ _ _ ih | enter _ _ _ _ _ _ ih =>
    exact ih (fun n hm => hn n (List.mem_cons_of_mem _ hm)) hr
  | link _ _ _ _ _ _ _ ih =>
    refine ih (fun n hm => ?_) hr
    rcases List.mem_append.mp hm with hm | hm
    · exact mem_namesOf hm
    · exact hn n (List.mem_cons_of_mem _ hm)
  | _ => cases hr

lemma isSome_of_arrived (hw : fs.WellFormed) (hs : (fs.entry? loc).isSome)
    (h : fs.Follows S keepLast b loc ns (.arrived l)) : (fs.entry? l).isSome := by
  generalize hr : Walk.arrived l = r at h
  induction h with
  | here =>
    obtain rfl := Walk.arrived.inj hr
    exact hs
  | kept _ _ _ _ _ he =>
    obtain rfl := Walk.arrived.inj hr
    simp [he]
  | stay _ _ _ ih => exact ih hs hr
  | up _ hd _ ih =>
    have hp := hw.isDirAt_dropLast (isDirAt_iff.mp hd)
    exact ih (by simp [isDirAt_iff.mp hp]) hr
  | enter _ _ _ he _ _ ih => exact ih (by simp [he]) hr
  | link _ _ hd _ _ _ _ ih =>
    refine ih ?_ hr
    rw [baseOf]
    split
    · simp [entry?_nil]
    · simp [isDirAt_iff.mp hd]
  | _ => cases hr

end Follows

end Follow

/-- The first names of a path lead from one place to another, through places of `S` only. The numbers
say how many links may be followed before and after. -/
inductive Leads (fs : FileTree) (S : Set Location) :
    Nat → Location → List String → Nat → Location → Prop
  | here {b : Nat} {loc : Location} : loc ∈ S → Leads fs S b loc [] b loc
  | stay {b b' : Nat} {loc loc' : Location} {ns : List String} : loc ∈ S → fs.isDirAt loc = true →
      Leads fs S b loc ns b' loc' → Leads fs S b loc ("." :: ns) b' loc'
  | up {b b' : Nat} {loc loc' : Location} {ns : List String} : loc ∈ S → fs.isDirAt loc = true →
      Leads fs S b loc.dropLast ns b' loc' → Leads fs S b loc (".." :: ns) b' loc'
  | enter {b b' : Nat} {loc loc' : Location} {name : String} {ns : List String} {e : FileEntry} :
      loc ∈ S → fs.isDirAt loc = true → IsStep name → fs.entry? (loc ++ [name]) = some e →
      (∀ t, e ≠ .link t) → Leads fs S b (loc ++ [name]) ns b' loc' →
      Leads fs S b loc (name :: ns) b' loc'
  | link {b b' : Nat} {loc loc' : Location} {name target : String} {ns : List String} :
      loc ∈ S → fs.isDirAt loc = true → IsStep name → loc ++ [name] ∈ S →
      fs.entry? (loc ++ [name]) = some (.link target) →
      Leads fs S b (baseOf target loc) (namesOf target ++ ns) b' loc' →
      Leads fs S (b + 1) loc (name :: ns) b' loc'

namespace Leads

variable {S T : Set Location} {b b' : Nat} {loc' : Location} {ns ms rest : List String}

lemma start_mem (h : fs.Leads S b loc ns b' loc') : loc ∈ S := by
  cases h <;> assumption

lemma end_mem (h : fs.Leads S b loc ns b' loc') : loc' ∈ S := by
  induction h with
  | here hs => exact hs
  | stay _ _ _ ih | up _ _ _ ih | enter _ _ _ _ _ _ ih | link _ _ _ _ _ _ ih => exact ih

lemma left_le (h : fs.Leads S b loc ns b' loc') : b' ≤ b := by
  induction h with
  | here => exact le_rfl
  | stay _ _ _ ih | up _ _ _ ih | enter _ _ _ _ _ _ ih => exact ih
  | link _ _ _ _ _ _ ih => exact Nat.le_succ_of_le ih

lemma follow_append (h : fs.Leads S b loc ns b' loc') (keepLast : Bool) (hr : rest ≠ []) :
    fs.follow keepLast b loc (ns ++ rest) = fs.follow keepLast b' loc' rest := by
  induction h with
  | here => rfl
  | stay _ hd _ ih => rw [List.cons_append, follow_point hd, ih]
  | up _ hd _ ih => rw [List.cons_append, follow_points hd, ih]
  | enter _ hd hn he hl _ ih => rw [List.cons_append, follow_enter hd hn he hl, ih]
  | link _ hd hn _ he _ ih =>
    rw [List.cons_append, follow_link hd hn he (by simp [hr]), ← List.append_assoc, ih]

lemma follow_eq (h : fs.Leads S b loc ns b' loc') : fs.follow false b loc ns = .arrived loc' := by
  induction h with
  | here => exact follow_nil
  | stay _ hd _ ih => rw [follow_point hd, ih]
  | up _ hd _ ih => rw [follow_points hd, ih]
  | enter _ hd hn he hl _ ih => rw [follow_enter hd hn he hl, ih]
  | link _ hd hn _ he _ ih => rw [follow_link hd hn he (by simp), ih]

lemma mono (h : fs.Leads S b loc ns b' loc') (hST : S ⊆ T) : fs.Leads T b loc ns b' loc' := by
  induction h with
  | here hs => exact .here (hST hs)
  | stay hs hd _ ih => exact .stay (hST hs) hd ih
  | up hs hd _ ih => exact .up (hST hs) hd ih
  | enter hs hd hn he hl _ ih => exact .enter (hST hs) hd hn he hl ih
  | link hs hd hn hs' he _ ih => exact .link (hST hs) hd hn (hST hs') he ih

lemma congr (h : fs.Leads S b loc ns b' loc') (hS : ∀ l ∈ S, FileTree.entry? fs' l = fs.entry? l) :
    fs'.Leads S b loc ns b' loc' := by
  have hdir {l : Location} (hs : l ∈ S) (hd : fs.isDirAt l = true) : fs'.isDirAt l = true := by
    rw [isDirAt_congr (hS l hs), hd]
  induction h with
  | here hs => exact .here hs
  | stay hs hd _ ih => exact .stay hs (hdir hs hd) ih
  | up hs hd _ ih => exact .up hs (hdir hs hd) ih
  | enter hs hd hn he hl h ih =>
    exact .enter hs (hdir hs hd) hn ((hS _ h.start_mem).trans he) hl ih
  | link hs hd hn hs' he _ ih => exact .link hs (hdir hs hd) hn hs' ((hS _ hs').trans he) ih

/-- What leads to a directory leads through directories and links only. -/
lemma through_dirs (h : fs.Leads S b loc ns b' loc') (hd : fs.isDirAt loc' = true) :
    fs.Leads (S ∩ {l | fs.isDirAt l = true ∨ ∃ t, fs.entry? l = some (.link t)}) b loc ns b' loc' := by
  induction h with
  | here hs => exact .here ⟨hs, .inl hd⟩
  | stay hs h _ ih => exact .stay ⟨hs, .inl h⟩ h (ih hd)
  | up hs h _ ih => exact .up ⟨hs, .inl h⟩ h (ih hd)
  | enter hs h hn he hl _ ih => exact .enter ⟨hs, .inl h⟩ h hn he hl (ih hd)
  | link hs h hn hs' he _ ih => exact .link ⟨hs, .inl h⟩ h hn ⟨hs', .inr ⟨_, he⟩⟩ he (ih hd)

lemma drop_point {xs ys : List String} (h : fs.Leads S b loc (xs ++ "." :: ys) b' loc') :
    fs.Leads S b loc (xs ++ ys) b' loc' := by
  generalize hn : xs ++ "." :: ys = names at h
  induction h generalizing xs with
  | here => simp at hn
  | stay hs hd h ih =>
    cases xs with
    | nil =>
      obtain ⟨-, rfl⟩ := List.cons.inj hn
      exact h
    | cons x xs =>
      obtain ⟨rfl, rfl⟩ := List.cons.inj hn
      exact .stay hs hd (ih rfl)
  | up hs hd h ih =>
    cases xs with
    | nil => simp at hn
    | cons x xs =>
      obtain ⟨rfl, rfl⟩ := List.cons.inj hn
      exact .up hs hd (ih rfl)
  | enter hs hd hm he hl h ih =>
    cases xs with
    | nil => exact absurd (List.cons.inj hn).1.symm hm.ne_point
    | cons x xs =>
      obtain ⟨rfl, rfl⟩ := List.cons.inj hn
      exact .enter hs hd hm he hl (ih rfl)
  | @link b b' loc loc' name target ns hs hd hm hs' he h ih =>
    cases xs with
    | nil => exact absurd (List.cons.inj hn).1.symm hm.ne_point
    | cons x xs =>
      obtain ⟨rfl, rfl⟩ := List.cons.inj hn
      have hh := ih (List.append_assoc (namesOf target) xs ("." :: ys))
      rw [List.append_assoc] at hh
      exact .link hs hd hm hs' he hh

lemma drop_points (pre : List String) (h : fs.Leads S b loc (pre ++ ns) b' loc')
    (hd : Path.DropsPoints ns ms) : fs.Leads S b loc (pre ++ ms) b' loc' := by
  induction hd generalizing pre with
  | nil => exact h
  | keep n _ ih =>
    rw [List.append_cons] at h ⊢
    exact ih _ h
  | drop _ ih => exact ih _ h.drop_point

/-- The first names of a path lead somewhere on the way. -/
lemma split {xs ys : List String} (h : fs.Leads S b loc (xs ++ ys) b' loc') :
    ∃ c mid, fs.Leads S b loc xs c mid := by
  generalize hn : xs ++ ys = names at h
  induction h generalizing xs with
  | here hs =>
    obtain ⟨rfl, -⟩ := List.append_eq_nil_iff.mp hn
    exact ⟨_, _, .here hs⟩
  | stay hs hd _ ih =>
    cases xs with
    | nil => exact ⟨_, _, .here hs⟩
    | cons x xs =>
      obtain ⟨rfl, rfl⟩ := List.cons.inj hn
      obtain ⟨c, mid, h⟩ := ih rfl
      exact ⟨c, mid, .stay hs hd h⟩
  | up hs hd _ ih =>
    cases xs with
    | nil => exact ⟨_, _, .here hs⟩
    | cons x xs =>
      obtain ⟨rfl, rfl⟩ := List.cons.inj hn
      obtain ⟨c, mid, h⟩ := ih rfl
      exact ⟨c, mid, .up hs hd h⟩
  | enter hs hd hm he hl _ ih =>
    cases xs with
    | nil => exact ⟨_, _, .here hs⟩
    | cons x xs =>
      obtain ⟨rfl, rfl⟩ := List.cons.inj hn
      obtain ⟨c, mid, h⟩ := ih rfl
      exact ⟨c, mid, .enter hs hd hm he hl h⟩
  | link hs hd hm hs' he _ ih =>
    cases xs with
    | nil => exact ⟨_, _, .here hs⟩
    | cons x xs =>
      obtain ⟨rfl, rfl⟩ := List.cons.inj hn
      obtain ⟨c, mid, h⟩ := ih (List.append_assoc ..)
      exact ⟨c, mid, .link hs hd hm hs' he h⟩

end Leads

/-- The places that exist. -/
def places (fs : FileTree) : Set Location := {l | (fs.entry? l).isSome}

lemma mem_places_of_isDirAt (h : fs.isDirAt loc = true) : loc ∈ fs.places := by
  simp [places, isDirAt_iff.mp h]

/-- Names are followed up to any of them, unless that fails. -/
lemma follow_split (fs : FileTree) (keepLast : Bool) (b : Nat) (loc : Location) (xs : List String)
    {ys : List String} (hy : ys ≠ []) :
    (∃ error, fs.follow keepLast b loc (xs ++ ys) = .failed error) ∨
      ∃ b' loc', fs.Leads fs.places b loc xs b' loc' ∧
        fs.follow keepLast b loc (xs ++ ys) = fs.follow keepLast b' loc' ys := by
  suffices h : (∃ error, fs.follow keepLast b loc (xs ++ ys) = .failed error) ∨
      ∃ b' loc', fs.Leads fs.places b loc xs b' loc' from
    h.imp_right fun ⟨b', loc', h⟩ => ⟨b', loc', h, h.follow_append keepLast hy⟩
  have hf := fs.follows_follow keepLast b loc (xs ++ ys)
  generalize fs.follow keepLast b loc (xs ++ ys) = r at hf
  generalize hn : xs ++ ys = names at hf
  have hstart {b : Nat} {loc : Location} (hd : fs.isDirAt loc = true) :
      fs.Leads fs.places b loc [] b loc := .here (mem_places_of_isDirAt hd)
  induction hf generalizing xs with
  | here => simp [hy] at hn
  | notDir | tooLong | lost | spent => exact .inl ⟨_, rfl⟩
  | stay _ hd _ ih =>
    cases xs with
    | nil => exact .inr ⟨_, _, hstart hd⟩
    | cons x xs =>
      obtain ⟨rfl, rfl⟩ := List.cons.inj hn
      exact (ih _ rfl).imp_right fun ⟨c, mid, h⟩ => ⟨c, mid, .stay (mem_places_of_isDirAt hd) hd h⟩
  | up _ hd _ ih =>
    cases xs with
    | nil => exact .inr ⟨_, _, hstart hd⟩
    | cons x xs =>
      obtain ⟨rfl, rfl⟩ := List.cons.inj hn
      exact (ih _ rfl).imp_right fun ⟨c, mid, h⟩ => ⟨c, mid, .up (mem_places_of_isDirAt hd) hd h⟩
  | missing _ hd | kept _ _ hd =>
    cases xs with
    | nil => exact .inr ⟨_, _, hstart hd⟩
    | cons x xs => simp [hy] at hn
  | enter _ hd hm he hl _ ih =>
    cases xs with
    | nil => exact .inr ⟨_, _, hstart hd⟩
    | cons x xs =>
      obtain ⟨rfl, rfl⟩ := List.cons.inj hn
      exact (ih _ rfl).imp_right fun ⟨c, mid, h⟩ =>
        ⟨c, mid, .enter (mem_places_of_isDirAt hd) hd hm he hl h⟩
  | link _ _ hd hm _ he _ ih =>
    cases xs with
    | nil => exact .inr ⟨_, _, hstart hd⟩
    | cons x xs =>
      obtain ⟨rfl, rfl⟩ := List.cons.inj hn
      exact (ih _ (List.append_assoc ..)).imp_right fun ⟨c, mid, h⟩ =>
        ⟨c, mid, .link (mem_places_of_isDirAt hd) hd hm (by simp [places, he]) he h⟩

/-- What following a path to `loc` gives when no link lies on the way. -/
inductive Lands (fs : FileTree) (loc : Location) : Walk → Prop
  | arrived : (fs.entry? loc).isSome → Lands fs loc (.arrived loc)
  | missing : fs.entry? loc = none → fs.Seat loc → Lands fs loc (.missing loc)
  | failed (error : IoError) : fs.entry? loc = none → Lands fs loc (.failed error)

/-- Names that lead through no link lead straight down; with `keepLast` there may be a link at the
end. -/
lemma follow_lands {keepLast : Bool} {b : Nat} {ns : List String} (hw : fs.WellFormed)
    (hne : ns ≠ []) (hn : ∀ n ∈ ns, IsName n)
    (hl : ∀ xs ys t, ns = xs ++ ys → xs ≠ [] → ys ≠ [] ∨ keepLast = false →
      fs.entry? (loc ++ xs) ≠ some (.link t)) :
    fs.Lands (loc ++ ns) (fs.follow keepLast b loc ns) := by
  induction ns generalizing loc with
  | nil => exact absurd rfl hne
  | cons n ns ih =>
    have hname := hn n List.mem_cons_self
    cases hd : fs.isDirAt loc with
    | false =>
      rw [follow_not_dir hd]
      exact .failed _ (hw.entry?_eq_none hd hne)
    | true =>
      rw [List.append_cons]
      by_cases hf : 255 < n.utf8ByteSize
      · rw [follow_too_long hd hf]
        refine .failed _ ?_
        cases he : fs.entry? (loc ++ [n] ++ ns) with
        | none => rfl
        | some e =>
          have := (hw.isName_of_some he n (by simp)).2
          omega
      have hs : IsStep n := ⟨hname.ne_point, hname.ne_points, by omega⟩
      cases he : fs.entry? (loc ++ [n]) with
      | none =>
        by_cases hns : ns = []
        · subst hns
          rw [follow_missing hd hs he, List.append_nil]
          exact .missing he (.of_dir hw hd hname hs.fits)
        · rw [follow_lost hd hs he hns]
          exact .failed _ (hw.entry?_eq_none_below he (List.prefix_append _ _))
      | some e =>
        by_cases hns : ns = []
        · subst hns
          rw [List.append_nil]
          by_cases hlink : ∃ t, e = .link t
          · obtain ⟨t, rfl⟩ := hlink
            cases keepLast with
            | false => exact absurd he (hl [n] [] t rfl (by simp) (.inr rfl))
            | true =>
              rw [follow_kept hd hs he]
              exact .arrived (by simp [he])
          · rw [follow_enter hd hs he (fun t ht => hlink ⟨t, ht⟩), follow_nil]
            exact .arrived (by simp [he])
        · have hlink : ∀ t, e ≠ .link t := fun t ht =>
            hl [n] ns t rfl (by simp) (.inl hns) (ht ▸ he)
          rw [follow_enter hd hs he hlink]
          refine ih hns (fun m hm => hn m (List.mem_cons_of_mem _ hm)) fun xs ys t hxs _ hys => ?_
          rw [← List.append_cons]
          exact hl (n :: xs) ys t (by simp [hxs]) (by simp) hys

end FileTree

end JavaAtlas
