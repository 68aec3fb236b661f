import JavaAtlas.Proofs.BreadthFirst
import JavaAtlas.Proofs.OwnNames

/-! What a search for implementations finds: the declarations of all subtypes of a type, and for a
method the methods of its name and number of parameters that these subtypes declare. -/

namespace JavaAtlas.Hierarchy

variable {next : String → List Element} {seen : List String} {queue : List Element} {e : Element}

lemma exists_next_of_mem_walkFrom {fuel : Nat}
    (h : e ∈ walkFrom (fun t => next t.id) fuel seen queue) : ∃ t, e ∈ next t := by
  induction fuel generalizing seen queue with
  | zero => simp [walkFrom] at h
  | succ fuel ih =>
    cases queue with
    | nil => simp [walkFrom] at h
    | cons q queue =>
      rw [walkFrom_cons] at h
      rcases List.mem_append.mp h with h | h
      · exact ⟨q.id, (mem_of_mem_fresh h).1⟩
      · exact ih h

end JavaAtlas.Hierarchy

namespace JavaAtlas.Index

open Hierarchy Outline

variable {index : Index} {e t : Element} {d : Declaration} {files : List (String × String)}

lemma mem_allSubtypes_declared (h : t ∈ index.allSubtypes e) :
    ∃ d ∈ index.declarations, d.element = t := by
  obtain ⟨a, ha⟩ := exists_next_of_mem_walkFrom h
  obtain ⟨i, -, hi⟩ := List.mem_filterMap.mp ha
  obtain ⟨d, hd, rfl⟩ := Option.map_eq_some_iff.mp hi
  exact ⟨d, List.mem_of_getElem? hd, rfl⟩

lemma length_allSubtypes_le (index : Index) (e : Element) :
    (index.allSubtypes e).length ≤ index.declarations.length := by
  have hsub : (index.allSubtypes e).map (·.id) ⊆ index.declarations.map (·.id) := by
    intro id hid
    obtain ⟨t, ht, rfl⟩ := List.mem_map.mp hid
    obtain ⟨d, hd, rfl⟩ := mem_allSubtypes_declared ht
    exact List.mem_map.mpr ⟨d, hd, rfl⟩
  have hle := (List.subperm_of_subset walkFrom_ids_nodup hsub).length_le
  rwa [List.length_map, List.length_map] at hle

lemma fit_ofFiles (files : List (String × String)) :
    Fit False False (files.map fun f => ⟨⟨f.1⟩, f.2, Syntax.parse f.2.toList⟩) :=
  fun _ _ => ⟨False.elim, False.elim⟩

lemma element_place (hd : d ∈ (ofFiles files).declarations) :
    d.element.unit = some ((ofFiles files).unitRef d.unit) ∧
      d.element.nameOffset = some d.nameStart := by
  rw [ofFiles_eq_ofTrees] at hd ⊢
  obtain ⟨_, f, o, k, hat⟩ := exists_located_of_mem (fit_ofFiles files) hd
  obtain ⟨_, -, hin⟩ := hat.block.declaration_owned hat.declaration_eq
  rw [unitRef_eq hat.file_eq]
  exact ⟨hin.ref_eq, hin.nameOffset_eq⟩

/-- Every method of a project is declared in a type of the project. -/
lemma method_owner (hd : d ∈ (ofFiles files).declarations) (hk : d.element.kind = .method) :
    ∃ owner, d.element.declaringType.bind (ofFiles files).declaration? = some owner := by
  rw [ofFiles_eq_ofTrees] at hd ⊢
  obtain ⟨j, hj⟩ := List.mem_iff_getElem?.mp hd
  obtain ⟨f, o, k, hat⟩ := exists_located (fit_ofFiles files) hj
  obtain ⟨_, -, hin⟩ := hat.block.declaration_owned hat.declaration_eq
  have hchain : d.chain ≠ [] := hin.chain_ne (by rw [hk]; rfl)
  obtain ⟨i, e, -, he, -, -, hid⟩ :=
    chain_declared (fit_ofFiles files) hj (List.getLast_mem hchain)
  rw [hin.declaringType_eq, List.getLast?_eq_getLast_of_ne_nil hchain, Option.bind_some, ← hid]
  exact Option.isSome_iff_exists.mp
    (List.find?_isSome.mpr ⟨e, List.mem_of_getElem? he, beq_self_eq_true e.id⟩)

end JavaAtlas.Index

namespace JavaAtlas.Query

open Outline Index NamePattern

variable {files : List (String × String)} {paths : PathMap} {d : Declaration} {e : Element}

lemma forall₂_filterMap {α β : Type} {R : α → β → Prop} {f : α → Option β} {l : List α}
    (h : ∀ a ∈ l, ∃ b, f a = some b ∧ R a b) : List.Forall₂ R l (l.filterMap f) := by
  induction l with
  | nil => exact .nil
  | cons a l ih =>
    obtain ⟨b, hb, hR⟩ := h a List.mem_cons_self
    rw [List.filterMap_cons_some hb]
    exact .cons hR (ih fun a ha => h a (List.mem_cons_of_mem _ ha))

lemma declarationMatch?_eq (hd : d ∈ (Index.ofFiles files).declarations) :
    let q : Query := ⟨.ofFiles files, paths⟩
    q.declarationMatch? d.element = some (q.present (q.index.declarationHit d)) := by
  obtain ⟨hunit, hname⟩ := element_place hd
  simp only [declarationMatch?, hunit, Option.map_some, declarationHit, hname, Option.getD_some]

/-- The methods like `e` that the types declare. -/
def methodsLike (index : Index) (types : List Element) (e : Element) : List Declaration :=
  index.declarations.filter fun d =>
    d.element.kind = .method ∧ d.element.name = e.name ∧ arityOfId? d.id = arityOfId? e.id ∧
      ∃ t ∈ types, d.element.declaringType = some t.id

lemma mem_encloses {types : List Element} (hk : d.element.kind = .method) :
    SearchScope.encloses (.types (types.map (·.id))) d.owner? = true ↔
      ∃ t ∈ types, d.element.declaringType = some t.id := by
  rw [Declaration.owner?, hk, if_neg (by decide)]
  cases d.element.declaringType with
  | none => simp [SearchScope.encloses]
  | some id => simp [SearchScope.encloses, eq_comm]

/-- A pattern that is the name of a method finds it, whatever its case and its wild cards. -/
lemma matchesName_own (hd : d ∈ (Index.ofFiles files).declarations) {p : NamePattern}
    (hp : parse? d.element.name false = some p) (qualified : String) :
    p.matchesName d.element.name qualified = true := by
  have hparse := parse?_of_isWord (isWord_ofFiles hd) false
  rw [hp] at hparse
  split at hparse
  · obtain rfl := Option.some.inj hparse
    exact matchesName_self false qualified
  · cases hparse

lemma allImplementations_method {owner : Declaration} (hk : e.kind = .method)
    (howner : e.declaringType.bind (Index.ofFiles files).declaration? = some owner)
    (hname : (parse? e.name false).isSome) :
    let q : Query := ⟨.ofFiles files, paths⟩
    q.allImplementations e =
      (methodsLike q.index (q.index.allSubtypes owner.element) e).map fun d =>
        q.present (q.index.declarationHit d) := by
  intro q
  obtain ⟨p, hp⟩ := Option.isSome_iff_exists.mp hname
  have hpattern : q.index.searchPattern? .declarations (.name e.name (some .method)) =
      some ⟨.name e.name (some .method), .declarations, false⟩ := by
    rw [searchPattern?, admits, hp]
    rfl
  let subtypes := q.index.allSubtypes owner.element
  have hfound : (q.index.search ⟨.name e.name (some .method), .declarations, false⟩
      (.types (subtypes.map (·.id)))).filter (isLike e) =
      (methodsLike q.index subtypes e).map q.index.declarationHit := by
    simp only [search, declarationTest?, hp, Option.map_some, Option.all_some]
    rw [List.filter_map, List.filter_filter, methodsLike]
    refine congrArg _ (List.filter_congr fun d hd => Bool.eq_iff_iff.mpr ?_)
    simp only [Function.comp_apply, isLike, declarationHit, Bool.and_eq_true, beq_iff_eq,
      decide_eq_true_eq]
    constructor
    · rintro ⟨⟨⟨hkind, hsame⟩, harity⟩, hin, -⟩
      exact ⟨hkind, hsame, harity, (mem_encloses hkind).mp hin⟩
    · rintro ⟨hkind, hsame, harity, hin⟩
      refine ⟨⟨⟨hkind, hsame⟩, harity⟩, (mem_encloses hkind).mpr hin, hkind ▸ rfl, ?_⟩
      exact matchesName_own hd (hsame ▸ hp) _
  rw [allImplementations, hk, if_neg (by decide), if_neg (by decide)]
  simp only [q, howner, hpattern, request_eq, report_collectAll, List.nil_append]
  split
  · next h =>
    have hnone : subtypes = [] := List.map_eq_nil_iff.mp (List.isEmpty_iff.mp h)
    simp [methodsLike, show (Index.ofFiles files).allSubtypes owner.element = [] from hnone]
  · rw [hfound, List.map_map]
    rfl

/-- With a limit that leaves nothing out, a type has the declarations of all its subtypes, one for each
and nearest first. A method has the methods like it in the subtypes of its type, in the order of the
index, if its name can be read as a pattern. Nothing else has implementations. -/
theorem findImplementations_exact (files : List (String × String)) (paths : PathMap) (e : Element)
    {most : Nat} (hmost : (Index.ofFiles files).declarations.length < most) :
    let q : Query := ⟨.ofFiles files, paths⟩
    (e.kind.isType = true →
      List.Forall₂ (fun t found => ∃ d ∈ q.index.declarations, d.element = t ∧
          found = q.present (q.index.declarationHit d))
        (q.index.allSubtypes e) (q.findImplementations e most)) ∧
    (∀ owner, e.kind = .method → e.declaringType.bind q.index.declaration? = some owner →
      (parse? e.name false).isSome = true →
      q.findImplementations e most =
        (methodsLike q.index (q.index.allSubtypes owner.element) e).map fun d =>
          q.present (q.index.declarationHit d)) ∧
    (∀ d ∈ q.index.declarations, d.element.kind = .method →
      ∃ owner, d.element.declaringType.bind q.index.declaration? = some owner) ∧
    (e.kind.isType = false → e.kind ≠ .method → q.findImplementations e most = []) := by
  intro q
  have hall : q.findImplementations e most = (q.allImplementations e).take most :=
    findImplementations_eq_take e (Nat.zero_lt_of_lt hmost)
  refine ⟨fun ht => ?_, fun owner hk howner hname => ?_, fun d hd hk => method_owner hd hk,
    fun ht hk => ?_⟩
  · have hlength := length_allSubtypes_le q.index e
    rw [hall, allImplementations, if_pos ht, List.take_of_length_le
      ((List.length_filterMap_le _ _).trans (hlength.trans hmost.le))]
    refine forall₂_filterMap fun t htm => ?_
    obtain ⟨d, hd, rfl⟩ := mem_allSubtypes_declared htm
    exact ⟨_, declarationMatch?_eq hd, d, hd, rfl, rfl⟩
  · rw [hall, allImplementations_method hk howner hname, List.take_of_length_le]
    rw [List.length_map]
    exact (List.length_filter_le _ _).trans hmost.le
  · rw [findImplementations, if_neg (by rw [ht]; exact Bool.false_ne_true), if_pos (by simpa using hk)]

/-- The class has a method of the other case and one with a parameter. -/
def overloads : List (String × String) :=
  [("A.java", "interface A{void f();}class B implements A{void f(){}void F(){}int f(int i){}}")]

theorem findImplementations_exact_overloads :
    let q : Query := ⟨.ofFiles overloads, unmoved⟩
    ∃ d owner, q.index.declaration? "A#f()" = some d ∧ d.element.kind = .method ∧
      d.element.declaringType.bind q.index.declaration? = some owner ∧
      (parse? d.element.name false).isSome = true ∧ q.index.declarations.length < 7 ∧
      (q.findImplementations d.element 7).map (·.elementId) = ["B#f()"] := by
  intro q
  have hfacts : q.index.declarations.length < 7 ∧
      ∃ d ∈ q.index.declaration? "A#f()", d.element.kind = .method ∧
        (parse? d.element.name false).isSome = true ∧
        ∃ owner ∈ d.element.declaringType.bind q.index.declaration?,
          (methodsLike q.index (q.index.allSubtypes owner.element) d.element).map (·.id) =
            ["B#f()"] := by
    decide +kernel
  obtain ⟨hmost, d, hd, hk, hname, owner, howner, hids⟩ := hfacts
  refine ⟨d, owner, hd, hk, howner, hname, hmost, ?_⟩
  rw [(findImplementations_exact overloads unmoved d.element hmost).2.1 owner hk howner hname,
    List.map_map]
  exact hids

end JavaAtlas.Query
