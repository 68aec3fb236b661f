import JavaAtlas.Proofs.TypeClosures
import Mathlib.Order.Lattice.Nat

/-! The order of a walk. What it finds stands in the order of its distance from the start, because
the elements that wait in the queue are never more than one step apart. -/

namespace JavaAtlas.Hierarchy

open Relation

variable {next : String → List Element} {seen ids : List String} {queue : List Element}
variable {e start x : Element} {a b c : String} {n fuel : ℕ}

/-- A walk that goes on until its queue is empty, however many steps that takes. -/
inductive Walks (next : String → List Element) : List String → List Element → List Element → Prop
  | done {seen : List String} : Walks next seen [] []
  | visit {seen : List String} {queue out : List Element} {e : Element} :
      Walks next (seenAfter seen (next e.id)) (queue ++ fresh seen (next e.id)) out →
      Walks next seen (e :: queue) (fresh seen (next e.id) ++ out)

/-- Every element comes into the queue once, so the bound on the steps is not met. -/
lemma walkFrom_walks (hids : ∀ a, ∀ e ∈ next a, e.id ∈ ids)
    (hf : queue.length + unseen ids seen < fuel) :
    Walks next seen queue (walkFrom (fun t => next t.id) fuel seen queue) := by
  induction fuel generalizing seen queue with
  | zero => omega
  | succ fuel ih =>
    cases queue with
    | nil => exact .done
    | cons e queue =>
      have hle : unseen ids (seenAfter seen (next e.id)) + (fresh seen (next e.id)).length ≤
          unseen ids seen := unseen_seenAfter_le (hids e.id)
      rw [List.length_cons] at hf
      rw [walkFrom_cons]
      exact .visit (ih (by rw [List.length_append]; omega))

/-! ### Each element once -/

lemma fresh_ids_nodup (ns : List Element) : ((fresh seen ns).map (·.id)).Nodup := by
  induction ns generalizing seen with
  | nil => exact List.nodup_nil
  | cons n ns ih =>
    by_cases hn : n.id ∈ seen
    · rw [fresh_of_mem hn]
      exact ih
    · rw [fresh_of_not_mem hn, List.map_cons, List.nodup_cons]
      refine ⟨fun h => ?_, ih⟩
      obtain ⟨m, hm, hid⟩ := List.mem_map.mp h
      exact (mem_of_mem_fresh hm).2 (hid ▸ List.mem_cons_self)

lemma walkFrom_ids_nodup :
    ((walkFrom (fun t => next t.id) fuel seen queue).map (·.id)).Nodup := by
  induction fuel generalizing seen queue with
  | zero => exact List.nodup_nil
  | succ fuel ih =>
    cases queue with
    | nil => exact List.nodup_nil
    | cons e queue =>
      rw [walkFrom_cons, List.map_append, List.nodup_append']
      refine ⟨fresh_ids_nodup _, ih, fun a ha ha' => ?_⟩
      obtain ⟨x, hx, rfl⟩ := List.mem_map.mp ha
      obtain ⟨y, hy, hyx⟩ := List.mem_map.mp ha'
      refine (walkFrom_sound hy).1 ?_
      rw [hyx]
      exact mem_seenAfter.mpr (Or.inr ⟨x, hx, rfl⟩)

/-! ### Distances -/

inductive StepsTo (next : String → List Element) (a : String) : ℕ → String → Prop
  | start : StepsTo next a 0 a
  | step {n : ℕ} {b c : String} :
      StepsTo next a n b → Step next b c → StepsTo next a (n + 1) c

/-- The fewest steps that lead from one identifier to another. -/
noncomputable def distance (next : String → List Element) (a b : String) : ℕ :=
  sInf {n | StepsTo next a n b}

lemma distance_le (h : StepsTo next a n b) : distance next a b ≤ n := Nat.sInf_le h

lemma exists_stepsTo (h : ReflTransGen (Step next) a b) : ∃ n, StepsTo next a n b := by
  induction h with
  | refl => exact ⟨0, .start⟩
  | tail _ hstep ih =>
    obtain ⟨n, hn⟩ := ih
    exact ⟨n + 1, hn.step hstep⟩

lemma stepsTo_distance (h : ReflTransGen (Step next) a b) :
    StepsTo next a (distance next a b) b := Nat.sInf_mem (exists_stepsTo h)

lemma distance_step_le (h : ReflTransGen (Step next) a b) (hbc : Step next b c) :
    distance next a c ≤ distance next a b + 1 :=
  distance_le ((stepsTo_distance h).step hbc)

/-- Steps that lead out of what was seen leave it at some place. -/
lemma StepsTo.leaves (h : StepsTo next a n b) (ha : a ∈ seen) (hb : b ∉ seen) :
    ∃ m < n, ∃ c ∈ seen, StepsTo next a m c ∧ ∃ d, Step next c d ∧ d ∉ seen := by
  induction h with
  | start => exact absurd ha hb
  | @step n b c h hstep ih =>
    by_cases hmem : b ∈ seen
    · exact ⟨n, Nat.lt_succ_self n, b, hmem, h, c, hstep, hb⟩
    · obtain ⟨m, hm, rest⟩ := ih hmem
      exact ⟨m, Nat.lt_succ_of_lt hm, rest⟩

/-! ### The queue -/

/-- The queue of a walk between two visits: it is in order, and it spans two distances at most. -/
structure Frontier (next : String → List Element) (start : String) (seen : List String)
    (queue : List Element) : Prop where
  start_mem : start ∈ seen
  reached : ∀ q ∈ queue, ReflTransGen (Step next) start q.id
  settled : Settled next seen queue
  sorted : queue.Pairwise fun x y => distance next start x.id ≤ distance next start y.id
  spread : ∀ x ∈ queue, ∀ y ∈ queue, distance next start y.id ≤ distance next start x.id + 1

namespace Frontier

variable {start : String}

lemma initial (next : String → List Element) (e : Element) : Frontier next e.id [e.id] [e] where
  start_mem := List.mem_singleton_self _
  reached q hq := List.mem_singleton.mp hq ▸ .refl
  settled a ha := Or.inl ⟨e, List.mem_singleton_self _, (List.mem_singleton.mp ha).symm⟩
  sorted := List.pairwise_singleton _ _
  spread x hx y hy := by
    rw [List.mem_singleton.mp hx, List.mem_singleton.mp hy]
    omega

lemma head_le (h : Frontier next start seen (e :: queue)) (hx : x ∈ e :: queue) :
    distance next start e.id ≤ distance next start x.id := by
  rcases List.mem_cons.mp hx with rfl | hx
  · exact Nat.le_refl _
  · exact (List.pairwise_cons.mp h.sorted).1 x hx

/-- What was not seen yet is farther away than the front of the queue: the steps to it leave what
was seen from an element that still waits. -/
lemma beyond (h : Frontier next start seen (e :: queue)) (hb : b ∉ seen)
    (hpath : ReflTransGen (Step next) start b) :
    distance next start e.id + 1 ≤ distance next start b := by
  obtain ⟨m, hm, c, hc, hmc, d, hstep, hd⟩ := (stepsTo_distance hpath).leaves h.start_mem hb
  rcases h.settled c hc with ⟨q, hq, rfl⟩ | hclosed
  · have hfront : distance next start e.id ≤ distance next start q.id := h.head_le hq
    have hle : distance next start q.id ≤ m := distance_le hmc
    omega
  · exact absurd (hclosed d hstep) hd

lemma reached_fresh (h : Frontier next start seen (e :: queue)) (hx : x ∈ fresh seen (next e.id)) :
    ReflTransGen (Step next) start x.id :=
  (h.reached e List.mem_cons_self).tail ⟨x, (mem_of_mem_fresh hx).1, rfl⟩

lemma distance_fresh (h : Frontier next start seen (e :: queue))
    (hx : x ∈ fresh seen (next e.id)) :
    distance next start x.id = distance next start e.id + 1 := by
  obtain ⟨hmem, hseen⟩ := mem_of_mem_fresh hx
  apply Nat.le_antisymm
  · exact distance_step_le (h.reached e List.mem_cons_self) ⟨x, hmem, rfl⟩
  · exact h.beyond hseen (h.reached_fresh hx)

lemma visit (h : Frontier next start seen (e :: queue)) :
    Frontier next start (seenAfter seen (next e.id)) (queue ++ fresh seen (next e.id)) where
  start_mem := mem_seenAfter.mpr (Or.inl h.start_mem)
  reached q hq := by
    rcases List.mem_append.mp hq with hq | hq
    · exact h.reached q (List.mem_cons_of_mem _ hq)
    · exact h.reached_fresh hq
  settled := h.settled.visit
  sorted := by
    refine List.pairwise_append.mpr ⟨(List.pairwise_cons.mp h.sorted).2, ?_, ?_⟩
    · refine List.pairwise_of_forall_mem_list fun x hx y hy => ?_
      rw [h.distance_fresh hx, h.distance_fresh hy]
    · intro x hx y hy
      rw [h.distance_fresh hy]
      exact h.spread e List.mem_cons_self x (List.mem_cons_of_mem _ hx)
  spread x hx y hy := by
    have hlow {z : Element} (hz : z ∈ queue ++ fresh seen (next e.id)) :
        distance next start e.id ≤ distance next start z.id := by
      rcases List.mem_append.mp hz with hz | hz
      · exact h.head_le (List.mem_cons_of_mem _ hz)
      · rw [h.distance_fresh hz]
        omega
    have hhigh {z : Element} (hz : z ∈ queue ++ fresh seen (next e.id)) :
        distance next start z.id ≤ distance next start e.id + 1 := by
      rcases List.mem_append.mp hz with hz | hz
      · exact h.spread e List.mem_cons_self z (List.mem_cons_of_mem _ hz)
      · exact (h.distance_fresh hz).le
    have hx := hlow hx
    have hy := hhigh hy
    omega

lemma walkFrom_sorted (h : Frontier next start seen queue) :
    (walkFrom (fun t => next t.id) fuel seen queue).Pairwise
      fun x y => distance next start x.id ≤ distance next start y.id := by
  induction fuel generalizing seen queue with
  | zero => exact .nil
  | succ fuel ih =>
    cases queue with
    | nil => exact .nil
    | cons e queue =>
      rw [walkFrom_cons]
      refine List.pairwise_append.mpr ⟨?_, ih h.visit, fun x hx y hy => ?_⟩
      · refine List.pairwise_of_forall_mem_list fun x hx y hy => ?_
        rw [h.distance_fresh hx, h.distance_fresh hy]
      · obtain ⟨hy, q, hq, hpath⟩ := walkFrom_sound hy
        have hseen : y.id ∉ seen := fun hmem => hy (mem_seenAfter.mpr (Or.inl hmem))
        rw [h.distance_fresh hx]
        exact h.beyond hseen ((h.visit.reached q hq).trans hpath)

end Frontier

/-! ### Closures -/

/-- What there is to find from an element by one or more steps, nearest first. -/
structure Closure (next : String → List Element) (start : Element) (found : List Element) :
    Prop where
  ends : Walks next [start.id] [start] found
  once : (found.map (·.id)).Nodup
  reached : ∀ id, (∃ e ∈ found, e.id = id) ↔ id ≠ start.id ∧ TransGen (Step next) start.id id
  nearest_first : found.Pairwise fun x y =>
    distance next start.id x.id ≤ distance next start.id y.id

lemma walk_closure (ids : List String) (hids : ∀ a, ∀ e ∈ next a, e.id ∈ ids)
    (hf : ids.length + 1 < fuel) : Closure next start (walk fuel (fun t => next t.id) start) where
  ends := by
    have hle : unseen ids [start.id] ≤ ids.length := List.countP_le_length
    refine walkFrom_walks hids ?_
    rw [List.length_singleton]
    omega
  once := walkFrom_ids_nodup
  reached id := by
    rw [mem_walk_iff ids hids hf, reflTransGen_iff_eq_or_transGen]
    refine and_congr_right fun hne => ?_
    rw [or_iff_right hne]
  nearest_first := (Frontier.initial next start).walkFrom_sorted

end JavaAtlas.Hierarchy

namespace JavaAtlas.Index

open Hierarchy

lemma eraseP_eq_filter {found : List Element} (id : String) (h : (found.map (·.id)).Nodup) :
    found.eraseP (·.id == id) = found.filter (·.id != id) := by
  induction found with
  | nil => rfl
  | cons e found ih =>
    obtain ⟨he, hfound⟩ := List.nodup_cons.mp h
    by_cases hid : e.id = id
    · have hrest : ∀ x ∈ found, (x.id != id) = true := by
        intro x hx
        rw [bne_iff_ne, ← hid]
        exact fun heq => he (List.mem_map.mpr ⟨x, hx, heq⟩)
      simp [hid, List.filter_eq_self.mpr hrest]
    · simp [hid, ih hfound]

/-- The subtypes and the supertypes of an element are what the steps of inheritance lead to, each
once and nearest first. Only the root of all types has another place: it comes last. -/
theorem hierarchy_closures (index : Index) (e : Element) :
    Closure index.directSubtypes e (index.allSubtypes e) ∧
      let found := walk index.typeBound (fun t => index.directSupertypes t.id) e
      Closure index.directSupertypes e found ∧
        index.allSupertypes rootType e =
          if e.id = rootType.id then found
          else found.filter (·.id != rootType.id) ++ [rootType] := by
  have hsubs : Closure index.directSubtypes e (index.allSubtypes e) :=
    walk_closure _ (fun _ _ => mem_directSubtypes_declared) index.declarations_lt_typeBound
  have hsupers : Closure index.directSupertypes e
      (walk index.typeBound (fun t => index.directSupertypes t.id) e) :=
    walk_closure _ (fun _ _ => mem_directSupertypes_listed) index.superRefs_lt_typeBound
  refine ⟨hsubs, hsupers, ?_⟩
  rw [allSupertypes, eraseP_eq_filter _ hsupers.once]
  by_cases hroot : e.id = rootType.id
  · rw [if_pos hroot, if_pos (beq_iff_eq.mpr hroot)]
  · rw [if_neg hroot, if_neg (fun h => hroot (beq_iff_eq.mp h))]

end JavaAtlas.Index
