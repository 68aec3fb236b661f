import JavaAtlas.Proofs.Confinement
import JavaAtlas.Sources
import Mathlib.Data.List.Nodup
import Mathlib.Data.List.Perm.Subperm
import Mathlib.Tactic.Ring

/-! The walk through source directories. It ends before its depth is used up, and where nothing that
it comes to lies in a directory, what that directory holds makes no difference to it. -/

namespace JavaAtlas

open Text

namespace FileTree

variable {fs fs' : FileTree} {home loc l : Location} {V : Set Location}

namespace Follows

variable {S : Set Location} {keepLast : Bool} {b b' : Nat} {xs ys ns : List String} {r : Walk}

/-- With fewer links the way is the same, or it stops at a link. -/
lemma fewer (h : fs.Follows S keepLast b loc ns r) (hb : b' ≤ b) :
    fs.Follows S keepLast b' loc ns r ∨ fs.Follows S keepLast b' loc ns (.failed .tooManyLinks) := by
  induction h generalizing b' with
  | here hs => exact .inl (.here hs)
  | notDir hs hd => exact .inl (.notDir hs hd)
  | tooLong hs hd hf => exact .inl (.tooLong hs hd hf)
  | stay hs hd _ ih => exact (ih hb).imp (.stay hs hd) (.stay hs hd)
  | up hs hd _ ih => exact (ih hb).imp (.up hs hd) (.up hs hd)
  | missing hs hd hn hm he => exact .inl (.missing hs hd hn hm he)
  | lost hs hd hn hm he hr => exact .inl (.lost hs hd hn hm he hr)
  | kept hk hs hd hn hm he => exact .inl (.kept hk hs hd hn hm he)
  | spent hk hs hd hn hm he =>
    obtain rfl := Nat.le_zero.mp hb
    exact .inl (.spent hk hs hd hn hm he)
  | link hk hs hd hn hm he _ ih =>
    cases b' with
    | zero => exact .inr (.spent hk hs hd hn hm he)
    | succ b' =>
      exact (ih (Nat.le_of_succ_le_succ hb)).imp (.link hk hs hd hn hm he) (.link hk hs hd hn hm he)
  | enter hs hd hn he hl _ ih => exact (ih hb).imp (.enter hs hd hn he hl) (.enter hs hd hn he hl)

/-- A way goes on from where it has come to, with the links that are left. -/
lemma append (h : fs.Follows S false b loc xs r)
    (hy : ∀ l, r = .arrived l → ∀ c ≤ b, ∃ r', fs.Follows S false c l ys r') :
    ∃ r', fs.Follows S false b loc (xs ++ ys) r' := by
  induction h with
  | here hs => exact hy _ rfl _ le_rfl
  | notDir hs hd => exact ⟨_, .notDir hs hd⟩
  | tooLong hs hd hf => exact ⟨_, .tooLong hs hd hf⟩
  | stay hs hd _ ih =>
    obtain ⟨r', h⟩ := ih hy
    exact ⟨r', .stay hs hd h⟩
  | up hs hd _ ih =>
    obtain ⟨r', h⟩ := ih hy
    exact ⟨r', .up hs hd h⟩
  | missing hs hd hn hm he =>
    by_cases hys : ys = []
    · subst hys
      exact ⟨_, .missing hs hd hn hm he⟩
    · exact ⟨_, .lost hs hd hn hm he hys⟩
  | lost hs hd hn hm he hr => exact ⟨_, .lost hs hd hn hm he (by simp [hr])⟩
  | kept hk => cases hk
  | spent hk hs hd hn hm he => exact ⟨_, .spent rfl hs hd hn hm he⟩
  | link hk hs hd hn hm he _ ih =>
    obtain ⟨r', h⟩ := ih fun l hr c hc => hy l hr c (Nat.le_succ_of_le hc)
    rw [List.append_assoc] at h
    exact ⟨r', .link rfl hs hd hn hm he h⟩
  | enter hs hd hn he hl _ ih =>
    obtain ⟨r', h⟩ := ih hy
    exact ⟨r', .enter hs hd hn he hl h⟩

/-- A way on which a link at the end is not followed looks at no more places. -/
lemma keep_last (h : fs.Follows S false b loc ns r) : ∃ r', fs.Follows S true b loc ns r' := by
  induction h with
  | here hs => exact ⟨_, .here hs⟩
  | notDir hs hd => exact ⟨_, .notDir hs hd⟩
  | tooLong hs hd hf => exact ⟨_, .tooLong hs hd hf⟩
  | stay hs hd _ ih =>
    obtain ⟨r', h⟩ := ih
    exact ⟨r', .stay hs hd h⟩
  | up hs hd _ ih =>
    obtain ⟨r', h⟩ := ih
    exact ⟨r', .up hs hd h⟩
  | missing hs hd hn hm he => exact ⟨_, .missing hs hd hn hm he⟩
  | lost hs hd hn hm he hr => exact ⟨_, .lost hs hd hn hm he hr⟩
  | kept hk => cases hk
  | @spent _ _ _ rest hk hs hd hn hm he =>
    by_cases hr : rest = []
    · subst hr
      exact ⟨_, .kept rfl hs hd hn hm he⟩
    · exact ⟨_, .spent (by simp [hr]) hs hd hn hm he⟩
  | @link _ _ _ _ rest _ hk hs hd hn hm he _ ih =>
    by_cases hr : rest = []
    · subst hr
      exact ⟨_, .kept rfl hs hd hn hm he⟩
    · obtain ⟨r', h⟩ := ih
      exact ⟨r', .link (by simp [hr]) hs hd hn hm he h⟩
  | enter hs hd hn he hl _ ih =>
    obtain ⟨r', h⟩ := ih
    exact ⟨r', .enter hs hd hn he hl h⟩

end Follows

/-- Places from which nothing leads to the directory `home`: neither the way down nor any link. -/
structure Secluded (fs : FileTree) (home : Location) (V : Set Location) : Prop where
  outside : V ⊆ outside home
  below : ∀ l ∈ V, ∀ name, l ++ [name] ∈ V
  link : ∀ l ∈ V, ∀ name t, fs.entry? (l ++ [name]) = some (.link t) →
    ∃ r, fs.Follows (FileTree.outside home) false 40 l [name] r ∧ ∀ target, r = .arrived target → target ∈ V

lemma Secluded.congr (h : fs.Secluded home V) (hsame : SameOutside home fs fs') :
    fs'.Secluded home V := by
  refine ⟨h.outside, h.below, fun l hl name t he => ?_⟩
  rw [hsame.entry? _ (h.outside (h.below l hl name))] at he
  obtain ⟨r, hr, hV⟩ := h.link l hl name t he
  exact ⟨r, hr.congr hsame.entry?, hV⟩

lemma Secluded.follows (h : fs.Secluded home V) (hl : l ∈ V) {b : Nat} (hb : b ≤ 40) {ns : List String}
    (hn : ∀ n ∈ ns, IsName n) : ∃ r, fs.Follows (FileTree.outside home) false b l ns r := by
  induction ns generalizing l b with
  | nil => exact ⟨_, .here (h.outside hl)⟩
  | cons n ns ih =>
    have hs := h.outside hl
    have hname := hn n List.mem_cons_self
    have hnext := h.below l hl n
    have ih {l : Location} (hl : l ∈ V) {b : Nat} (hb : b ≤ 40) :=
      ih hl hb fun m hm => hn m (List.mem_cons_of_mem _ hm)
    cases hd : fs.isDirAt l with
    | false => exact ⟨_, .notDir hs hd⟩
    | true =>
      by_cases hf : 255 < n.utf8ByteSize
      · exact ⟨_, .tooLong hs hd hf⟩
      have hstep : IsStep n := ⟨hname.ne_point, hname.ne_points, by omega⟩
      cases he : fs.entry? (l ++ [n]) with
      | none =>
        by_cases hr : ns = []
        · subst hr
          exact ⟨_, .missing hs hd hstep (h.outside hnext) he⟩
        · exact ⟨_, .lost hs hd hstep (h.outside hnext) he hr⟩
      | some e =>
        by_cases hlink : ∃ t, e = .link t
        · obtain ⟨t, rfl⟩ := hlink
          obtain ⟨r, hr, htarget⟩ := h.link l hl n t he
          have hfew : ∃ r, fs.Follows (FileTree.outside home) false b l [n] r ∧
              ∀ target, r = .arrived target → target ∈ V :=
            (hr.fewer hb).elim (fun h => ⟨r, h, htarget⟩) fun h => ⟨_, h, nofun⟩
          obtain ⟨r, hr, htarget⟩ := hfew
          exact hr.append fun target hr c hc => ih (htarget target hr) (hc.trans hb)
        · obtain ⟨r, hr⟩ := ih hnext hb
          exact ⟨r, .enter hs hd hstep he (fun t ht => hlink ⟨t, ht⟩) hr⟩

/-- The name under which a place stands in a directory. -/
lemma name_eq_iff {name : String} : (match l.getLast? with
    | some name => if l.dropLast == loc then some name else none
    | none => none) = some name ↔ l = loc ++ [name] := by
  rcases List.eq_nil_or_concat' l with rfl | ⟨dir, last, rfl⟩
  · simp
  · by_cases hd : dir = loc <;> simp [hd]

lemma mem_namesAt (hw : fs.WellFormed) {name : String} :
    name ∈ fs.namesAt loc ↔ (fs.entry? (loc ++ [name])).isSome := by
  rw [namesAt, List.mem_mergeSort, List.mem_filterMap]
  constructor
  · rintro ⟨⟨l, e⟩, he, hl⟩
    obtain rfl := name_eq_iff.mp hl
    simp [hw.entry?_of_mem he]
  · intro hs
    obtain ⟨e, he⟩ := Option.isSome_iff_exists.mp hs
    exact ⟨(loc ++ [name], e), mem_entries (by simp) he, name_eq_iff.mpr rfl⟩

lemma nodup_namesAt (hw : fs.WellFormed) : (fs.namesAt loc).Nodup := by
  rw [namesAt, (List.mergeSort_perm _ _).nodup_iff]
  refine (List.pairwise_map.mp hw.nodup).filterMap _ ?_
  rintro ⟨l, e⟩ ⟨l', e'⟩ hne name hn name' hn' rfl
  exact hne ((name_eq_iff.mp hn).trans (name_eq_iff.mp hn').symm)

/-- The names in a directory are those of its entries, in their one order. -/
lemma namesAt_congr (hw : fs.WellFormed) (hw' : fs'.WellFormed)
    (h : ∀ name, FileTree.entry? fs' (loc ++ [name]) = fs.entry? (loc ++ [name])) :
    fs'.namesAt loc = fs.namesAt loc := by
  have hsorted (f : FileTree) : (f.namesAt loc).Pairwise (· ≤ ·) := by
    refine (List.pairwise_mergeSort (fun a b c hab hbc => ?_) (fun a b => ?_) _).imp
      (fun hab => of_decide_eq_true hab)
    · exact decide_eq_true (String.le_trans (of_decide_eq_true hab) (of_decide_eq_true hbc))
    · simpa using String.le_total a b
  refine List.Perm.eq_of_pairwise (fun a b _ _ => String.le_antisymm) (hsorted fs') (hsorted fs) ?_
  refine (List.perm_ext_iff_of_nodup (nodup_namesAt hw') (nodup_namesAt hw)).mpr fun name => ?_
  rw [mem_namesAt hw', mem_namesAt hw, h]

/-- A place lies no deeper than there are entries. -/
lemma WellFormed.length_le (hw : fs.WellFormed) {e : FileEntry} (he : fs.entry? loc = some e) :
    loc.length ≤ fs.entries.length := by
  have hnodup : ((List.range loc.length).map fun i => loc.take (i + 1)).Nodup := by
    refine List.Nodup.map_on (fun i hi j hj hij => ?_) List.nodup_range
    have hi := List.mem_range.mp hi
    have hj := List.mem_range.mp hj
    have hlen := congrArg List.length hij
    simp only [List.length_take] at hlen
    omega
  have hsub : ((List.range loc.length).map fun i => loc.take (i + 1)) ⊆ fs.entries.map (·.1) := by
    intro l hl
    obtain ⟨i, hi, rfl⟩ := List.mem_map.mp hl
    have hi := List.mem_range.mp hi
    have hne : loc.take (i + 1) ≠ [] := by
      intro h
      simp only [List.take_eq_nil_iff] at h
      rcases h with h | h <;> simp_all
    have hentry : ∃ e, fs.entry? (loc.take (i + 1)) = some e := by
      by_cases hdrop : loc.drop (i + 1) = []
      · exact ⟨e, by rw [← List.take_append_drop (i + 1) loc, hdrop, List.append_nil] at he; exact he⟩
      · rw [← List.take_append_drop (i + 1) loc] at he
        exact ⟨_, isDirAt_iff.mp (hw.isDirAt_of_append hdrop he)⟩
    obtain ⟨e', he'⟩ := hentry
    exact List.mem_map_of_mem (mem_entries hne he')
  simpa using (List.subperm_of_subset hnodup hsub).length_le

end FileTree

namespace Sources

open FileTree

variable {fs fs' : FileTree} {home loc : Location} {V : Set Location} {around : List Location}
variable {fuel fuel' : Nat} {path : String}

/-- How many places the walk is not in. -/
def unseen (fs : FileTree) (around : List Location) : Nat :=
  ([] :: fs.entries.map (·.1)).countP fun l => !around.contains l

/-- The depth is enough for what can still come: with each link the walk enters one more directory,
and between two links it goes down only. -/
structure Enough (fs : FileTree) (fuel : Nat) (around : List Location) (loc : Location) : Prop where
  pos : 0 < fuel
  bound : fs.isDirAt loc = true →
    unseen fs (loc :: around) * (fs.entries.length + 1) + (fs.entries.length - loc.length) < fuel

lemma unseen_cons_le (fs : FileTree) (around : List Location) (loc : Location) :
    unseen fs (loc :: around) ≤ unseen fs around := by
  refine List.countP_mono_left fun l _ h => ?_
  simp only [List.contains_cons, Bool.not_or, Bool.and_eq_true] at h
  exact h.2

lemma unseen_cons_lt (hd : fs.isDirAt loc = true) (hn : around.contains loc = false) :
    unseen fs (loc :: around) < unseen fs around := by
  have hmem : loc ∈ [] :: fs.entries.map (·.1) := by
    by_cases hl : loc = []
    · simp [hl]
    · exact List.mem_cons_of_mem _ (List.mem_map_of_mem (mem_entries hl (isDirAt_iff.mp hd)))
  obtain ⟨xs, ys, hs⟩ := List.append_of_mem hmem
  have hmono (zs : List Location) : zs.countP (fun l => !(loc :: around).contains l) ≤
      zs.countP fun l => !around.contains l := by
    refine List.countP_mono_left fun l _ h => ?_
    simp only [List.contains_cons, Bool.not_or, Bool.and_eq_true] at h
    exact h.2
  have hself : (!(loc :: around).contains loc) = false := by simp
  have hx := hmono xs
  have hy := hmono ys
  rw [unseen, unseen, hs, List.countP_append, List.countP_append, List.countP_cons, List.countP_cons,
    hself, hn]
  simp only [Bool.not_false, Bool.false_eq_true, if_false, if_true]
  omega

lemma Enough.start : Enough fs (depthFor fs) [] loc := by
  have hu : unseen fs [loc] ≤ fs.entries.length + 1 := by
    simpa [unseen] using List.countP_le_length (p := fun l => !([loc].contains l))
      (l := [] :: fs.entries.map (·.1))
  refine ⟨by simp [depthFor], fun _ => ?_⟩
  have hm := Nat.mul_le_mul_right (fs.entries.length + 1) hu
  have hsquare : (fs.entries.length + 2) * (fs.entries.length + 2) =
      (fs.entries.length + 1) * (fs.entries.length + 1) + 2 * fs.entries.length + 3 := by ring
  rw [depthFor, hsquare]
  omega

lemma Enough.child (h : Enough fs (fuel + 1) around loc) (hw : fs.WellFormed)
    (hd : fs.isDirAt loc = true) {name : String} {e : FileEntry}
    (he : fs.entry? (loc ++ [name]) = some e) : Enough fs fuel (loc :: around) (loc ++ [name]) := by
  have hlen := hw.length_le he
  have hb := h.bound hd
  have hu := Nat.mul_le_mul_right (fs.entries.length + 1) (unseen_cons_le fs (loc :: around) (loc ++ [name]))
  simp only [List.length_append, List.length_singleton] at hlen
  refine ⟨by omega, fun _ => ?_⟩
  simp only [List.length_append, List.length_singleton]
  omega

lemma Enough.target (h : Enough fs (fuel + 1) around loc) (hw : fs.WellFormed)
    (hd : fs.isDirAt loc = true) {name : String} {e : FileEntry} {target : Location}
    (he : fs.entry? (loc ++ [name]) = some e)
    (ht : (fs.isDirAt target && (loc :: around).contains target) = false) :
    Enough fs fuel (loc :: around) target := by
  have hlen := hw.length_le he
  have hb := h.bound hd
  simp only [List.length_append, List.length_singleton] at hlen
  refine ⟨by omega, fun htd => ?_⟩
  rw [htd, Bool.true_and] at ht
  have hu := Nat.mul_le_mul_right (fs.entries.length + 1) (unseen_cons_lt htd ht)
  rw [Nat.succ_mul] at hu
  omega

/-- Where the walk comes to nothing in a directory, what that holds makes no difference. -/
theorem filesAt_congr (hs : fs.Secluded home V) (hw : fs.WellFormed) (hw' : fs'.WellFormed)
    (hsame : SameOutside home fs fs') (hl : loc ∈ V) (hf : Enough fs fuel around loc)
    (hf' : Enough fs' fuel' around loc) :
    filesAt fs' fuel' around path loc = filesAt fs fuel around path loc := by
  induction fuel generalizing fuel' around path loc with
  | zero => exact absurd hf.pos (Nat.lt_irrefl 0)
  | succ fuel ih =>
    cases fuel' with
    | zero => exact absurd hf'.pos (Nat.lt_irrefl 0)
    | succ fuel' =>
      rw [filesAt, filesAt, hsame.entry? loc (hs.outside hl)]
      cases he : fs.entry? loc with
      | none => rfl
      | some e =>
        cases e with
        | link | file => rfl
        | dir =>
          have hd := isDirAt_iff.mpr he
          have hd' : fs'.isDirAt loc = true := by
            rw [isDirAt_congr (hsame.entry? loc (hs.outside hl)), hd]
          have hentry (name : String) := hsame.entry? _ (hs.outside (hs.below loc hl name))
          simp only [namesAt_congr hw hw' hentry, hentry]
          refine List.flatMap_congr fun name hn => ?_
          obtain ⟨e, he⟩ := Option.isSome_iff_exists.mp
            ((mem_namesAt hw).mp (List.mem_of_mem_filter hn))
          have he' := (hentry name).trans he
          rw [he]
          cases e with
          | dir | file =>
            exact ih (hs.below loc hl name) (hf.child hw hd he) (hf'.child hw' hd' he')
          | link t =>
            obtain ⟨r, hr, htarget⟩ := hs.link loc hl name t he
            rw [(hr.congr hsame.entry?).eq_follow, hr.eq_follow]
            cases r with
            | missing | linked | failed => rfl
            | arrived target =>
              have htv := htarget target rfl
              have htd := isDirAt_congr (hsame.entry? target (hs.outside htv))
              simp only [htd]
              split
              · rfl
              · next hc =>
                have hc := Bool.eq_false_iff.mpr hc
                exact ih htv (hf.target hw hd he hc) (hf'.target hw' hd' he' (htd ▸ hc))

/-- Where there are no links, the walk finds all source files behind names that are not hidden. -/
theorem mem_filesAt_iff (hw : fs.WellFormed) (hplain : ∀ rest t, fs.entry? (loc ++ rest) ≠ some (.link t))
    (hf : Enough fs fuel around loc) {p : String} : p ∈ filesAt fs fuel around path loc ↔
      ∃ ns content x, p = Path.under path ns ∧ (∀ n ∈ ns, isHidden n = false) ∧
        fs.entry? (loc ++ ns) = some (.file content x) ∧ isSource p = true := by
  induction fuel generalizing around path loc with
  | zero => exact absurd hf.pos (Nat.lt_irrefl 0)
  | succ fuel ih =>
    rw [filesAt]
    have hbelow (he : fs.isDirAt loc = false) {ns : List String} {e : FileEntry}
        (h : fs.entry? (loc ++ ns) = some e) : ns = [] := by
      by_contra hns
      rw [hw.entry?_eq_none he hns] at h
      cases h
    cases he : fs.entry? loc with
    | none =>
      refine iff_of_false (by simp) ?_
      rintro ⟨ns, content, x, -, -, hfile, -⟩
      obtain rfl := hbelow (by simp [isDirAt, he]) hfile
      simp [he] at hfile
    | some e =>
      cases e with
      | link t => exact absurd (by simpa using he) (hplain [] t)
      | file content x =>
        dsimp only
        constructor
        · intro hp
          split at hp
          · next hs =>
            obtain rfl := List.mem_singleton.mp hp
            exact ⟨[], content, x, rfl, by simp, by simpa using he, hs⟩
          · cases hp
        · rintro ⟨ns, content, x, rfl, -, hfile, hs⟩
          obtain rfl := hbelow (by simp [isDirAt, he]) hfile
          rw [Path.under, List.foldl_nil] at hs ⊢
          simp [hs]
      | dir =>
        have hd := isDirAt_iff.mpr he
        dsimp only
        have hchild {name : String} {e : FileEntry} (hn : fs.entry? (loc ++ [name]) = some e) :
            p ∈ filesAt fs fuel (loc :: around) (Path.join path name) (loc ++ [name]) ↔ _ :=
          ih (fun rest t => by simpa using hplain (name :: rest) t) (hf.child hw hd hn)
        constructor
        · intro hp
          obtain ⟨name, hn, hp⟩ := List.mem_flatMap.mp hp
          obtain ⟨hn, hv⟩ := List.mem_filter.mp hn
          obtain ⟨e, hentry⟩ := Option.isSome_iff_exists.mp ((mem_namesAt hw).mp hn)
          rw [hentry] at hp
          have hp : p ∈ filesAt fs fuel (loc :: around) (Path.join path name) (loc ++ [name]) := by
            cases e with
            | link t => exact absurd hentry (hplain [name] t)
            | dir | file => exact hp
          obtain ⟨ns, content, x, rfl, hns, hfile, hs⟩ := (hchild hentry).mp hp
          exact ⟨name :: ns, content, x, rfl, by simpa using ⟨by simpa using hv, hns⟩,
            by simpa using hfile, hs⟩
        · rintro ⟨ns, content, x, rfl, hns, hfile, hs⟩
          cases ns with
          | nil => simp [he] at hfile
          | cons name ns =>
            rw [List.append_cons] at hfile
            obtain ⟨e, hentry⟩ : ∃ e, fs.entry? (loc ++ [name]) = some e := by
              by_cases hnil : ns = []
              · exact ⟨_, by simpa [hnil] using hfile⟩
              · exact ⟨_, isDirAt_iff.mp (hw.isDirAt_of_append hnil hfile)⟩
            obtain ⟨hv, hns⟩ := List.forall_mem_cons.mp hns
            refine List.mem_flatMap.mpr ⟨name, List.mem_filter.mpr
              ⟨(mem_namesAt hw).mpr (by simp [hentry]), by simp [hv]⟩, ?_⟩
            have hp := (hchild hentry).mpr ⟨ns, content, x, rfl, hns, hfile, hs⟩
            rw [hentry]
            cases e with
            | link t => exact absurd hentry (hplain [name] t)
            | dir | file => exact hp

end Sources

end JavaAtlas
