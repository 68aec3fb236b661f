import JavaAtlas.Path
import Mathlib.Tactic.Common

/-! Lists without repetitions: of the elements that are the same the first one stays. The firsts of two
lists together are those of the one and what is new in the other. Paths with the same components are the
same, and what is gathered of paths in one pass are these firsts. -/

namespace JavaAtlas

section Firsts

variable {α : Type} {same : α → α → Bool} {x : α} {xs : List α}

/-- The elements in their order, of those that are the same the first. -/
def firstsBy (same : α → α → Bool) (xs : List α) : List α := xs.eraseDupsBy fun x first => same first x

/-- The elements that are the same as none of the known ones. -/
def newTo (same : α → α → Bool) (known xs : List α) : List α :=
  xs.filter fun x => known.any (same · x) = false

lemma firstsBy_cons (x : α) (xs : List α) :
    firstsBy same (x :: xs) = x :: firstsBy same (xs.filter fun y => same x y = false) := by
  simp [firstsBy, List.eraseDupsBy_cons]

/-- Induction along the elements that stay. -/
lemma firstsBy_induct {motive : List α → Prop} (same : α → α → Bool) (nil : motive [])
    (cons : ∀ x xs, motive (xs.filter fun y => same x y = false) → motive (x :: xs))
    (xs : List α) : motive xs := by
  induction hn : xs.length using Nat.strongRecOn generalizing xs with
  | _ n ih =>
    cases xs with
    | nil => exact nil
    | cons x xs =>
      refine cons x xs (ih _ ?_ _ rfl)
      rw [← hn, List.length_cons]
      exact Nat.lt_succ_of_le (List.length_filter_le _ _)

lemma firstsBy_sublist (xs : List α) : (firstsBy same xs).Sublist xs := by
  induction xs using firstsBy_induct same with
  | nil => exact .slnil
  | cons x xs ih =>
    rw [firstsBy_cons]
    exact (ih.trans List.filter_sublist).cons_cons x

lemma firstsBy_pairwise (xs : List α) : (firstsBy same xs).Pairwise fun x y => same x y = false := by
  induction xs using firstsBy_induct same with
  | nil => exact .nil
  | cons x xs ih =>
    rw [firstsBy_cons]
    refine .cons (fun y hy => ?_) ih
    simpa using (List.mem_filter.mp ((firstsBy_sublist _).subset hy)).2

lemma exists_mem_firstsBy (hrefl : ∀ x, same x x = true) (h : x ∈ xs) :
    ∃ first ∈ firstsBy same xs, same first x = true := by
  induction xs using firstsBy_induct same with
  | nil => cases h
  | cons y xs ih =>
    rw [firstsBy_cons]
    by_cases hy : same y x = true
    · exact ⟨y, List.mem_cons_self, hy⟩
    · have hmem : x ∈ xs.filter fun z => same y z = false := by
        rcases List.mem_cons.mp h with rfl | h
        · exact absurd (hrefl x) hy
        · exact List.mem_filter.mpr ⟨h, by simpa using hy⟩
      obtain ⟨first, hf, hs⟩ := ih hmem
      exact ⟨first, List.mem_cons_of_mem _ hf, hs⟩

lemma newTo_nil (xs : List α) : newTo same [] xs = xs := List.filter_eq_self.mpr fun _ _ => rfl

lemma newTo_cons (x : α) (known xs : List α) :
    newTo same (x :: known) xs = newTo same known (xs.filter fun y => same x y = false) := by
  rw [newTo, newTo, List.filter_filter]
  refine List.filter_congr fun y _ => ?_
  rw [List.any_cons]
  cases same x y <;> simp

lemma firstsBy_append (xs ys : List α) :
    firstsBy same (xs ++ ys) = firstsBy same xs ++ firstsBy same (newTo same (firstsBy same xs) ys) := by
  induction xs using firstsBy_induct same generalizing ys with
  | nil => exact (congrArg (firstsBy same) (newTo_nil ys)).symm
  | cons x xs ih =>
    rw [List.cons_append, firstsBy_cons, firstsBy_cons, List.filter_append, ih, newTo_cons,
      List.cons_append]

lemma firstsBy_eq_self (h : xs.Pairwise fun x y => same x y = false) : firstsBy same xs = xs := by
  induction h with
  | nil => rfl
  | cons hx _ ih =>
    rw [firstsBy_cons, List.filter_eq_self.mpr, ih]
    exact fun y hy => by rw [hx y hy]; rfl

lemma firstsBy_firstsBy (xs : List α) : firstsBy same (firstsBy same xs) = firstsBy same xs :=
  firstsBy_eq_self (firstsBy_pairwise xs)

/-- What is asked of elements that are the same alike may be asked before or after. -/
lemma firstsBy_filter {p : α → Bool} (hp : ∀ x y, same x y = true → p x = p y) (xs : List α) :
    firstsBy same (xs.filter p) = (firstsBy same xs).filter p := by
  induction xs using firstsBy_induct same with
  | nil => rfl
  | cons x xs ih =>
    have hcomm : (xs.filter fun y => same x y = false).filter p =
        (xs.filter p).filter fun y => same x y = false := by
      simp only [List.filter_filter, Bool.and_comm]
    rw [firstsBy_cons, List.filter_cons, List.filter_cons, ← ih, hcomm]
    split
    · rw [firstsBy_cons]
    · next hx =>
      have hkeep : ((xs.filter p).filter fun y => same x y = false) = xs.filter p := by
        refine List.filter_eq_self.mpr fun y hy => ?_
        have hpy := (List.mem_filter.mp hy).2
        cases hsame : same x y with
        | false => rfl
        | true => exact absurd ((hp x y hsame).trans hpy) hx
      rw [hkeep]

lemma firstsBy_append_firstsBy (h : ∀ x y z, same y z = true → same x y = same x z) (xs ys : List α) :
    firstsBy same (firstsBy same xs ++ firstsBy same ys) = firstsBy same (xs ++ ys) := by
  have hnew : newTo same (firstsBy same xs) (firstsBy same ys) =
      firstsBy same (newTo same (firstsBy same xs) ys) := by
    refine (firstsBy_filter (fun y z hyz => ?_) ys).symm
    simp only [h _ y z hyz]
  rw [firstsBy_append, firstsBy_append, firstsBy_firstsBy, hnew, firstsBy_firstsBy]

end Firsts

namespace Path

variable {paths : List String} {p q : String}

lemma same_iff : same p q = true ↔ components p = components q := beq_iff_eq

/-- The paths in their order, of those with the same components the first. -/
def firsts (paths : List String) : List String := firstsBy same paths

lemma firsts_append_firsts (paths paths' : List String) :
    firsts (firsts paths ++ firsts paths') = firsts (paths ++ paths') := by
  refine firstsBy_append_firstsBy (fun p q r h => ?_) paths paths'
  rw [same, same, same_iff.mp h]

/-- What is gathered grows by the firsts of the new paths, the last one in front. -/
lemma foldl_distinct (paths kept : List String) :
    paths.foldl (fun (seen, kept) p =>
      let key := components p
      if seen.contains key then (seen, kept) else (key :: seen, p :: kept)) (kept.map components, kept) =
    (((firsts (newTo same kept paths)).reverse ++ kept).map components,
      (firsts (newTo same kept paths)).reverse ++ kept) := by
  induction paths generalizing kept with
  | nil => rfl
  | cons p paths ih =>
    have hcontains : (kept.map components).contains (components p) = kept.any (same · p) := by
      rw [List.contains_eq_any_beq, List.any_map]
      exact List.any_congr rfl fun r => BEq.comm
    rw [List.foldl_cons, newTo, List.filter_cons]
    dsimp only
    rw [hcontains]
    cases kept.any (same · p) with
    | true => exact ih kept
    | false =>
      have hnew : newTo same (p :: kept) paths =
          (newTo same kept paths).filter fun q => same p q = false := by
        rw [newTo_cons, newTo, newTo, List.filter_filter, List.filter_filter]
        simp only [Bool.and_comm]
      have hfold := ih (p :: kept)
      rw [hnew] at hfold
      simpa [firsts, firstsBy_cons, newTo] using hfold

lemma distinct_eq_firsts (paths : List String) : distinct paths = firsts paths := by
  have hfold := foldl_distinct paths []
  rw [newTo_nil, List.append_nil, List.map_nil] at hfold
  rw [distinct, hfold, List.reverse_reverse]

lemma mem_of_mem_distinct (h : p ∈ distinct paths) : p ∈ paths := by
  rw [distinct_eq_firsts] at h
  exact (firstsBy_sublist paths).subset h

lemma exists_mem_distinct (h : p ∈ paths) : ∃ q ∈ distinct paths, components q = components p := by
  obtain ⟨q, hq, hsame⟩ := exists_mem_firstsBy (fun r => same_iff.mpr rfl) h
  exact ⟨q, by rwa [distinct_eq_firsts], same_iff.mp hsame⟩

lemma nodup_distinct (paths : List String) : ((distinct paths).map components).Nodup := by
  rw [distinct_eq_firsts, List.Nodup, List.pairwise_map]
  refine (firstsBy_pairwise paths).imp ?_
  intro p q h heq
  rw [same_iff.mpr heq] at h
  cases h

end Path

end JavaAtlas
