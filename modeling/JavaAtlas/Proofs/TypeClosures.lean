import JavaAtlas.Proofs.SearchSelection
import JavaAtlas.Proofs.SupertypeSources
import Mathlib.Logic.Relation

/-! The closures of a type hierarchy. A walk reaches exactly what the steps between identifiers lead
to, however they are linked, so the supertypes and the subtypes of all types are dual. -/

namespace JavaAtlas.Hierarchy

variable {next : String → List Element} {seen : List String} {queue : List Element}
variable {e start : Element} {id : String} {fuel : Nat}

/-- One step of a walk from the element of an identifier to that of another. -/
def Step (next : String → List Element) (a b : String) : Prop := ∃ e ∈ next a, e.id = b

/-- The elements that were not seen before, each once. -/
def fresh (seen : List String) : List Element → List Element
  | [] => []
  | n :: ns => if n.id ∈ seen then fresh seen ns else n :: fresh (n.id :: seen) ns

lemma fresh_of_mem {n : Element} {ns : List Element} (h : n.id ∈ seen) :
    fresh seen (n :: ns) = fresh seen ns := if_pos h

lemma fresh_of_not_mem {n : Element} {ns : List Element} (h : n.id ∉ seen) :
    fresh seen (n :: ns) = n :: fresh (n.id :: seen) ns := if_neg h

/-- What was seen once the elements are taken in. -/
def seenAfter (seen : List String) (ns : List Element) : List String :=
  ((fresh seen ns).map (·.id)).reverse ++ seen

lemma seenAfter_of_mem {n : Element} {ns : List Element} (h : n.id ∈ seen) :
    seenAfter seen (n :: ns) = seenAfter seen ns := by
  simp [seenAfter, fresh_of_mem h]

lemma seenAfter_of_not_mem {n : Element} {ns : List Element} (h : n.id ∉ seen) :
    seenAfter seen (n :: ns) = seenAfter (n.id :: seen) ns := by
  simp [seenAfter, fresh_of_not_mem h]

lemma mem_seenAfter {ns : List Element} :
    id ∈ seenAfter seen ns ↔ id ∈ seen ∨ ∃ e ∈ fresh seen ns, e.id = id := by
  simp only [seenAfter, List.mem_append, List.mem_reverse, List.mem_map]
  exact or_comm

lemma foldl_fresh (seen : List String) (found ns : List Element) :
    ns.foldl (fun (seen, found) n =>
      if seen.contains n.id then (seen, found) else (n.id :: seen, found ++ [n])) (seen, found) =
      (seenAfter seen ns, found ++ fresh seen ns) := by
  induction ns generalizing seen found with
  | nil => simp [seenAfter, fresh]
  | cons n ns ih =>
    rw [List.foldl_cons]
    by_cases h : n.id ∈ seen
    · simpa [h, seenAfter_of_mem, fresh_of_mem] using ih seen found
    · simpa [h, seenAfter_of_not_mem, fresh_of_not_mem] using ih (n.id :: seen) (found ++ [n])

lemma walkFrom_cons (next : Element → List Element) (fuel : Nat) (seen : List String) (e : Element)
    (queue : List Element) : walkFrom next (fuel + 1) seen (e :: queue) =
      fresh seen (next e) ++
        walkFrom next fuel (seenAfter seen (next e)) (queue ++ fresh seen (next e)) := by
  rw [walkFrom, foldl_fresh, List.nil_append]

lemma mem_of_mem_fresh {ns : List Element} (h : e ∈ fresh seen ns) : e ∈ ns ∧ e.id ∉ seen := by
  induction ns generalizing seen with
  | nil => cases h
  | cons n ns ih =>
    by_cases hn : n.id ∈ seen
    · rw [fresh_of_mem hn] at h
      obtain ⟨hm, hs⟩ := ih h
      exact ⟨List.mem_cons_of_mem _ hm, hs⟩
    · rw [fresh_of_not_mem hn] at h
      rcases List.mem_cons.mp h with rfl | h
      · exact ⟨List.mem_cons_self, hn⟩
      · obtain ⟨hm, hs⟩ := ih h
        exact ⟨List.mem_cons_of_mem _ hm, fun hseen => hs (List.mem_cons_of_mem _ hseen)⟩

lemma id_mem_seenAfter {ns : List Element} (h : e ∈ ns) : e.id ∈ seenAfter seen ns := by
  induction ns generalizing seen with
  | nil => cases h
  | cons n ns ih =>
    by_cases hn : n.id ∈ seen
    · rw [seenAfter_of_mem hn]
      rcases List.mem_cons.mp h with rfl | h
      · exact mem_seenAfter.mpr (Or.inl hn)
      · exact ih h
    · rw [seenAfter_of_not_mem hn]
      rcases List.mem_cons.mp h with rfl | h
      · exact mem_seenAfter.mpr (Or.inl List.mem_cons_self)
      · exact ih h

/-- How many of the identifiers were not seen yet. -/
def unseen (ids seen : List String) : Nat := ids.countP (· ∉ seen)

lemma unseen_cons_lt {ids : List String} (h : id ∈ ids) (hs : id ∉ seen) :
    unseen ids (id :: seen) < unseen ids seen := by
  induction ids with
  | nil => cases h
  | cons a ids ih =>
    have hle : unseen ids (id :: seen) ≤ unseen ids seen := by
      apply List.countP_mono_left
      intro x _ hx
      simp only [List.mem_cons, not_or, decide_eq_true_eq] at hx
      simpa using hx.2
    simp only [unseen, List.countP_cons, List.mem_cons, not_or, decide_eq_true_eq] at ih hle ⊢
    by_cases ha : a = id
    · subst ha
      simp only [not_true_eq_false, false_and, if_false, hs, not_false_eq_true, if_true]
      omega
    · have hlt := ih ((List.mem_cons.mp h).resolve_left (Ne.symm ha))
      simp only [ha, not_false_eq_true, true_and]
      omega

lemma unseen_seenAfter_le {ids : List String} {ns : List Element} (h : ∀ n ∈ ns, n.id ∈ ids) :
    unseen ids (seenAfter seen ns) + (fresh seen ns).length ≤ unseen ids seen := by
  induction ns generalizing seen with
  | nil => simp [seenAfter, fresh]
  | cons n ns ih =>
    have hns : ∀ m ∈ ns, m.id ∈ ids := fun m hm => h m (List.mem_cons_of_mem _ hm)
    by_cases hn : n.id ∈ seen
    · rw [seenAfter_of_mem hn, fresh_of_mem hn]
      exact ih hns
    · have hlt := unseen_cons_lt (h n List.mem_cons_self) hn
      have hle : unseen ids (seenAfter (n.id :: seen) ns) + (fresh (n.id :: seen) ns).length ≤
          unseen ids (n.id :: seen) := ih hns
      rw [seenAfter_of_not_mem hn, fresh_of_not_mem hn, List.length_cons]
      omega

lemma walkFrom_sound (h : e ∈ walkFrom (fun t => next t.id) fuel seen queue) :
    e.id ∉ seen ∧ ∃ q ∈ queue, Relation.ReflTransGen (Step next) q.id e.id := by
  induction fuel generalizing seen queue with
  | zero => simp [walkFrom] at h
  | succ fuel ih =>
    cases queue with
    | nil => simp [walkFrom] at h
    | cons q queue =>
      rw [walkFrom_cons, List.mem_append] at h
      rcases h with h | h
      · obtain ⟨hm, hs⟩ := mem_of_mem_fresh h
        exact ⟨hs, q, List.mem_cons_self, .single ⟨e, hm, rfl⟩⟩
      · obtain ⟨hs, r, hr, hpath⟩ := ih h
        refine ⟨fun hseen => hs (mem_seenAfter.mpr (Or.inl hseen)), ?_⟩
        rcases List.mem_append.mp hr with hr | hr
        · exact ⟨r, List.mem_cons_of_mem _ hr, hpath⟩
        · exact ⟨q, List.mem_cons_self, hpath.head ⟨r, (mem_of_mem_fresh hr).1, rfl⟩⟩

/-- All steps lead on to what was seen, except from what waits in the queue. -/
def Settled (next : String → List Element) (seen : List String) (queue : List Element) : Prop :=
  ∀ a ∈ seen, (∃ q ∈ queue, q.id = a) ∨ ∀ b, Step next a b → b ∈ seen

/-- The element at the front is done with once all its neighbours were seen. -/
lemma Settled.visit (h : Settled next seen (e :: queue)) :
    Settled next (seenAfter seen (next e.id)) (queue ++ fresh seen (next e.id)) := by
  intro a ha
  rcases mem_seenAfter.mp ha with ha | ⟨r, hr, hra⟩
  · rcases h a ha with ⟨r, hr, hra⟩ | hclosed
    · rcases List.mem_cons.mp hr with rfl | hr
      · refine Or.inr fun b hb => ?_
        obtain ⟨n, hn, hnb⟩ := hra ▸ hb
        exact hnb ▸ id_mem_seenAfter hn
      · exact Or.inl ⟨r, List.mem_append_left _ hr, hra⟩
    · exact Or.inr fun b hb => mem_seenAfter.mpr (Or.inl (hclosed b hb))
  · exact Or.inl ⟨r, List.mem_append_right _ hr, hra⟩

/-- A walk that has enough steps leaves nothing out: wherever a step leads from what was seen or
found, that was seen or found as well. -/
lemma walkFrom_closed {ids : List String} (hids : ∀ a, ∀ n ∈ next a, n.id ∈ ids)
    (hf : queue.length + unseen ids seen < fuel) (hc : Settled next seen queue) {a b : String}
    (ha : a ∈ seen ∨ ∃ e ∈ walkFrom (fun t => next t.id) fuel seen queue, e.id = a)
    (hab : Step next a b) :
    b ∈ seen ∨ ∃ e ∈ walkFrom (fun t => next t.id) fuel seen queue, e.id = b := by
  induction fuel generalizing seen queue with
  | zero => omega
  | succ fuel ih =>
    cases queue with
    | nil =>
      have hnone : walkFrom (fun t => next t.id) (fuel + 1) seen [] = [] := rfl
      rw [hnone] at ha
      have hmem : a ∈ seen := ha.resolve_right (by simp)
      exact Or.inl ((hc a hmem).resolve_left (by simp) b hab)
    | cons q queue =>
      have hle : unseen ids (seenAfter seen (next q.id)) + (fresh seen (next q.id)).length ≤
          unseen ids seen := unseen_seenAfter_le (hids q.id)
      rw [List.length_cons] at hf
      have hsplit (c : String) : (c ∈ seenAfter seen (next q.id) ∨
          ∃ e ∈ walkFrom (fun t => next t.id) fuel (seenAfter seen (next q.id))
            (queue ++ fresh seen (next q.id)), e.id = c) ↔
          c ∈ seen ∨ ∃ e ∈ walkFrom (fun t => next t.id) (fuel + 1) seen (q :: queue), e.id = c := by
        simp only [walkFrom_cons, mem_seenAfter, List.mem_append, or_and_right, exists_or, or_assoc]
      have hnext := ih (by rw [List.length_append]; omega) hc.visit ((hsplit a).mpr ha)
      exact (hsplit b).mp hnext

/-- A walk with enough steps reaches what the steps lead to, without its start. -/
theorem mem_walk_iff (ids : List String) (hids : ∀ a, ∀ n ∈ next a, n.id ∈ ids)
    (hf : ids.length + 1 < fuel) :
    (∃ e ∈ walk fuel (fun t => next t.id) start, e.id = id) ↔
      id ≠ start.id ∧ Relation.ReflTransGen (Step next) start.id id := by
  constructor
  · rintro ⟨e, he, rfl⟩
    obtain ⟨hs, q, hq, hpath⟩ := walkFrom_sound he
    rw [List.mem_singleton.mp hq] at hpath
    exact ⟨by simpa using hs, hpath⟩
  · rintro ⟨hne, hpath⟩
    have hle : unseen ids [start.id] ≤ ids.length := List.countP_le_length
    have hreach {b : String} (h : Relation.ReflTransGen (Step next) start.id b) :
        b ∈ [start.id] ∨ ∃ e ∈ walk fuel (fun t => next t.id) start, e.id = b := by
      induction h with
      | refl => exact Or.inl List.mem_cons_self
      | tail _ hstep ih =>
        refine walkFrom_closed hids ?_ ?_ ih hstep
        · simp only [List.length_singleton]
          omega
        · intro a ha
          exact Or.inl ⟨start, List.mem_cons_self, (List.mem_singleton.mp ha).symm⟩
    exact (hreach hpath).resolve_left (by simpa using hne)

end JavaAtlas.Hierarchy

namespace JavaAtlas.Index

open Binding Outline Hierarchy Relation

variable {outlines : List Outline} {a b : String}

/-- The declared inheritance between identifiers. -/
def Extends (index : Index) (sub super : String) : Prop :=
  ∃ ref ∈ index.superRefs sub, ref.id = super

lemma declared_of_extends (h : (ofOutlines outlines).Extends a b) :
    ∃ d ∈ (ofOutlines outlines).declarations, d.element.kind.isType = true ∧ d.id = a := by
  obtain ⟨ref, href, -⟩ := h
  rw [superRefs_eq] at href
  cases hlast : (typesNamed (ofOutlines outlines).declarations a).getLast? with
  | none => simp [hlast] at href
  | some d => exact ⟨d, mem_typesNamed.mp (List.mem_of_getLast? hlast)⟩

lemma extends_of_step {index : Index} (h : Step index.directSupertypes a b) : index.Extends a b := by
  obtain ⟨e, he, rfl⟩ := h
  rw [directSupertypes_eq] at he
  obtain ⟨ref, href, hre⟩ := List.mem_filterMap.mp he
  refine ⟨ref, href, ?_⟩
  cases ref with
  | unresolved name =>
    obtain rfl := Option.some.inj hre
    rfl
  | project id => exact (id_of_element? hre).symm
  | external id => exact (id_of_element? hre).symm

/-- Only a supertype that the project does not declare may be left out. -/
lemma step_of_extends (h : (ofOutlines outlines).Extends a b)
    (hb : ∃ d ∈ (ofOutlines outlines).declarations, d.id = b) :
    Step (ofOutlines outlines).directSupertypes a b := by
  obtain ⟨ref, href, rfl⟩ := h
  obtain ⟨d, hd, hid⟩ := hb
  obtain ⟨e, he, heid⟩ := element?_of_declared hd
  rw [hid] at he heid
  have hmem {e : Element} (hre : (ofOutlines outlines).superElement? ref = some e) :
      e ∈ (ofOutlines outlines).directSupertypes a := by
    rw [directSupertypes_eq]
    exact List.mem_filterMap.mpr ⟨ref, href, hre⟩
  cases ref with
  | unresolved name => exact ⟨.binaryType name, hmem rfl, rfl⟩
  | project id => exact ⟨e, hmem he, heid⟩
  | external id => exact ⟨e, hmem he, heid⟩

/-- The subtypes are found from the edges alone: a type with a supertype is declared, and the first
declaration of its identifier stands for it. -/
lemma step_directSubtypes_iff : Step (ofOutlines outlines).directSubtypes a b ↔
    (ofOutlines outlines).Extends b a := by
  constructor
  · rintro ⟨e, he, rfl⟩
    obtain ⟨i, hi, hie⟩ := List.mem_filterMap.mp he
    rw [List.mem_eraseDups, List.mem_mergeSort] at hi
    obtain ⟨d, hd, hfirst⟩ := List.mem_filterMap.mp hi
    obtain ⟨hlt, hid, -⟩ := List.findIdx?_eq_some_iff_getElem.mp hfirst
    rw [List.getElem?_eq_getElem hlt] at hie
    obtain rfl := Option.some.inj hie
    obtain ⟨-, hd⟩ := List.mem_filter.mp hd
    simp only [Bool.and_eq_true, List.any_eq_true, beq_iff_eq] at hd hid
    obtain ⟨-, ref, href, hra⟩ := hd
    rw [← hid] at href
    exact ⟨ref, href, hra⟩
  · intro h
    obtain ⟨d, hd, ht, rfl⟩ := declared_of_extends h
    obtain ⟨ref, href, hra⟩ := h
    obtain ⟨i, hi⟩ : ∃ i, (ofOutlines outlines).declarations.findIdx? (·.id == d.id) = some i := by
      rw [← Option.isSome_iff_exists, List.findIdx?_isSome]
      exact List.any_eq_true.mpr ⟨d, hd, beq_self_eq_true _⟩
    obtain ⟨hlt, hid, -⟩ := List.findIdx?_eq_some_iff_getElem.mp hi
    refine ⟨(ofOutlines outlines).declarations[i].element, ?_, beq_iff_eq.mp hid⟩
    refine List.mem_filterMap.mpr ⟨i, ?_, by rw [List.getElem?_eq_getElem hlt]; rfl⟩
    rw [List.mem_eraseDups, List.mem_mergeSort]
    refine List.mem_filterMap.mpr ⟨d, List.mem_filter.mpr ⟨hd, ?_⟩, hi⟩
    simp only [ht, Bool.true_and, List.any_eq_true, beq_iff_eq]
    exact ⟨ref, href, hra⟩

/-- A path of inheritance between declared types goes through declared types only. -/
lemma path_directSupertypes_iff (ha : ∃ d ∈ (ofOutlines outlines).declarations, d.id = a) :
    ReflTransGen (Step (ofOutlines outlines).directSupertypes) b a ↔
      ReflTransGen (ofOutlines outlines).Extends b a := by
  refine ⟨ReflTransGen.mono (fun _ _ => extends_of_step) b a, fun h => ?_⟩
  induction h using ReflTransGen.head_induction_on with
  | refl => exact .refl
  | head hstep hrest ih =>
    refine ih.head (step_of_extends hstep ?_)
    rcases ReflTransGen.cases_head hrest with rfl | ⟨_, hnext, -⟩
    · exact ha
    · obtain ⟨d, hd, -, hid⟩ := declared_of_extends hnext
      exact ⟨d, hd, hid⟩

lemma path_directSubtypes_iff : ReflTransGen (Step (ofOutlines outlines).directSubtypes) a b ↔
    ReflTransGen (ofOutlines outlines).Extends b a := by
  have hswap : Step (ofOutlines outlines).directSubtypes =
      Function.swap (ofOutlines outlines).Extends := by
    funext x y
    exact propext step_directSubtypes_iff
  rw [hswap, reflTransGen_swap]

lemma length_superRefs_le (supertypes : List (String × List TypeRef)) (n : Nat) :
    n + (supertypes.flatMap (·.2)).length ≤ supertypes.foldl (fun n t => n + t.2.length + 1) n := by
  induction supertypes generalizing n with
  | nil => simp
  | cons t rest ih =>
    have hh := ih (n + t.2.length + 1)
    rw [List.flatMap_cons, List.length_append, List.foldl_cons]
    omega

lemma mem_directSubtypes_declared {index : Index} {e : Element} (h : e ∈ index.directSubtypes a) :
    e.id ∈ index.declarations.map (·.id) := by
  obtain ⟨i, -, hi⟩ := List.mem_filterMap.mp h
  obtain ⟨d, hd, rfl⟩ := Option.map_eq_some_iff.mp hi
  exact List.mem_map.mpr ⟨d, List.mem_of_getElem? hd, rfl⟩

lemma mem_flatMap_of_mem_lookup {supertypes : List (String × List TypeRef)} {ref : TypeRef}
    (h : ref ∈ (supertypes.lookup a).getD []) : ref ∈ supertypes.flatMap (·.2) := by
  cases hl : supertypes.lookup a with
  | none => simp [hl] at h
  | some refs =>
    rw [hl, Option.getD_some] at h
    obtain ⟨before, after, hs, -⟩ := List.lookup_eq_some_iff.mp hl
    exact List.mem_flatMap.mpr ⟨(a, refs), by simp [hs], h⟩

lemma mem_directSupertypes_listed {index : Index} {e : Element} (h : e ∈ index.directSupertypes a) :
    e.id ∈ (index.supertypes.flatMap (·.2)).map (·.id) := by
  obtain ⟨ref, href, hid⟩ := extends_of_step ⟨e, h, rfl⟩
  exact List.mem_map.mpr ⟨ref, mem_flatMap_of_mem_lookup href, hid⟩

lemma declarations_lt_typeBound (index : Index) :
    (index.declarations.map (·.id)).length + 1 < index.typeBound := by
  have hle := length_superRefs_le index.supertypes 2
  rw [List.length_map, typeBound]
  omega

lemma superRefs_lt_typeBound (index : Index) :
    ((index.supertypes.flatMap (·.2)).map (·.id)).length + 1 < index.typeBound := by
  have hle := length_superRefs_le index.supertypes 2
  rw [List.length_map, typeBound]
  omega

lemma mem_allSubtypes_iff {e : Element} :
    (∃ t ∈ (ofOutlines outlines).allSubtypes e, t.id = b) ↔
      b ≠ e.id ∧ ReflTransGen (ofOutlines outlines).Extends b e.id := by
  rw [allSubtypes, ← path_directSubtypes_iff]
  exact mem_walk_iff _ (fun _ _ => mem_directSubtypes_declared) (declarations_lt_typeBound _)

lemma mem_walk_directSupertypes_iff {e : Element}
    (ha : ∃ d ∈ (ofOutlines outlines).declarations, d.id = a) :
    (∃ t ∈ walk (ofOutlines outlines).typeBound
        (fun t => (ofOutlines outlines).directSupertypes t.id) e, t.id = a) ↔
      a ≠ e.id ∧ ReflTransGen (ofOutlines outlines).Extends e.id a := by
  rw [← path_directSupertypes_iff ha]
  exact mem_walk_iff _ (fun _ _ => mem_directSupertypes_listed) (superRefs_lt_typeBound _)

/-- Putting the root of all types at the end changes nothing for the others. -/
lemma mem_allSupertypes_iff {index : Index} {root e : Element} (h : a ≠ root.id) :
    (∃ t ∈ index.allSupertypes root e, t.id = a) ↔
      ∃ t ∈ walk index.typeBound (fun t => index.directSupertypes t.id) e, t.id = a := by
  rw [allSupertypes]
  split
  · rfl
  · generalize walk index.typeBound (fun t => index.directSupertypes t.id) e = found
    constructor
    · rintro ⟨t, ht, rfl⟩
      rcases List.mem_append.mp ht with ht | ht
      · exact ⟨t, List.mem_of_mem_eraseP ht, rfl⟩
      · rw [List.mem_singleton.mp ht] at h
        exact absurd rfl h
    · rintro ⟨t, ht, rfl⟩
      refine ⟨t, List.mem_append_left _ ?_, rfl⟩
      exact (List.mem_eraseP_of_neg (by simpa using h)).mpr ht

/-- A declared type other than the root of all types is a supertype of another exactly when that one
is a subtype of it. -/
theorem mem_allSupertypes_iff_mem_allSubtypes (outlines : List Outline) {d : Declaration}
    (hd : d ∈ (ofOutlines outlines).declarations) (hroot : d.id ≠ rootType.id) (e : Element) :
    (∃ t ∈ (ofOutlines outlines).allSupertypes rootType e, t.id = d.id) ↔
      ∃ t ∈ (ofOutlines outlines).allSubtypes d.element, t.id = e.id := by
  rw [mem_allSupertypes_iff hroot, mem_walk_directSupertypes_iff ⟨d, hd, rfl⟩, mem_allSubtypes_iff]
  exact and_congr_left' ne_comm

/-- Two types that extend each other. -/
def mutualPair : List Outline :=
  [.ofSource ⟨"A.java"⟩ 0 "class A extends B {}", .ofSource ⟨"B.java"⟩ 1 "class B extends A {}"]

theorem mem_allSupertypes_iff_mem_allSubtypes_mutualPair : ∃ a b : Declaration,
    (ofOutlines mutualPair).declaration? "A" = some a ∧
      (ofOutlines mutualPair).declaration? "B" = some b ∧
      (∃ t ∈ (ofOutlines mutualPair).allSupertypes rootType b.element, t.id = "A") ∧
      ∃ t ∈ (ofOutlines mutualPair).allSubtypes a.element, t.id = "B" := by
  have hfound : ((ofOutlines mutualPair).declaration? "A").isSome = true ∧
      ((ofOutlines mutualPair).declaration? "B").isSome = true ∧
      (ofOutlines mutualPair).superRefs "B" = [.project "A"] := by
    decide +kernel
  obtain ⟨a, ha⟩ := Option.isSome_iff_exists.mp hfound.1
  obtain ⟨b, hb⟩ := Option.isSome_iff_exists.mp hfound.2.1
  have haid : a.id = "A" := id_of_declaration? ha
  have hbid : b.element.id = "B" := id_of_declaration? hb
  have hroot : a.id ≠ rootType.id := by
    rw [haid]
    decide
  have hmem := mem_of_declaration? ha
  have hstep : (ofOutlines mutualPair).Extends "B" "A" := ⟨.project "A", by simp [hfound.2.2], rfl⟩
  have hsuper : ∃ t ∈ (ofOutlines mutualPair).allSupertypes rootType b.element, t.id = "A" := by
    rw [mem_allSupertypes_iff (haid ▸ hroot), mem_walk_directSupertypes_iff ⟨a, hmem, haid⟩, hbid]
    exact ⟨by decide, .single hstep⟩
  have hiff := mem_allSupertypes_iff_mem_allSubtypes mutualPair hmem hroot b.element
  rw [haid] at hiff
  obtain ⟨t, ht, hid⟩ := hiff.mp hsuper
  exact ⟨a, b, ha, hb, hsuper, t, ht, hid.trans hbid⟩

end JavaAtlas.Index
