import JavaAtlas.Proofs.IndexConsistency
import Mathlib.Data.List.TakeDrop
import Mathlib.Data.List.TakeWhile

/-! When the meaning of a type name says truly whether the project declares it. Every stage of the
lookup asks the project, except the last: a name that no stage claims is taken for a type of the
platform or for nothing, though the project may declare a type of just that identifier. -/

namespace JavaAtlas.Binding

open Outline Text

variable {isType : String → Bool} {scope : UnitScope} {chain : List String} {name : String}

def TypeRef.Exact (isType : String → Bool) (ref : TypeRef) : Prop :=
  ref.projectId?.isSome = isType ref.id

/-- No stage of the lookup before the names of the platform claims the name. -/
structure Unclaimed (isType : String → Bool) (scope : UnitScope) (chain : List String)
    (name : String) : Prop where
  enclosing : ∀ outer ∈ chain, afterLast '.' outer ≠ name ∧ isType (outer ++ "." ++ name) = false
  single : ∀ i ∈ scope.imports, i.onDemand = false → i.isStatic = false →
    endsIn ("." ++ name) i.path = false ∧ i.path ≠ name
  samePackage : isType (if scope.package.isEmpty then name else scope.package ++ "." ++ name) = false
  onDemand : ∀ i ∈ scope.imports, i.onDemand = true → i.isStatic = false →
    isType (i.path ++ "." ++ name) = false

lemma project_exact {id : String} (h : isType id = true) :
    (TypeRef.project id).Exact isType := h.symm

lemma ofQualified_exact (id : String) : (ofQualified isType id).Exact isType := by
  rw [ofQualified]
  split
  · next h => exact project_exact h
  · next h => simpa [TypeRef.Exact, TypeRef.projectId?, TypeRef.id] using h

lemma fromEnclosing_eq_none_iff {outer : String} : fromEnclosing isType name outer = none ↔
    afterLast '.' outer ≠ name ∧ isType (outer ++ "." ++ name) = false := by
  rw [fromEnclosing]
  split
  · next h => simp [h]
  · next h =>
    dsimp only
    split <;> simp_all

lemma fromEnclosing_eq_some {outer : String} {ref : TypeRef} (ho : isType outer = true)
    (h : fromEnclosing isType name outer = some ref) :
    ∃ id, ref = .project id ∧ isType id = true := by
  rw [fromEnclosing] at h
  split at h
  · exact ⟨outer, (Option.some.inj h).symm, ho⟩
  · dsimp only at h
    split at h
    · next hn => exact ⟨_, (Option.some.inj h).symm, hn⟩
    · cases h

lemma resolveSimple_cases (scope : UnitScope) (name : String)
    (hc : ∀ t ∈ chain, isType t = true) :
    (¬ Unclaimed isType scope chain name ∧ (resolveSimple isType scope chain name).Exact isType) ∨
    (Unclaimed isType scope chain name ∧ resolveSimple isType scope chain name =
      if platformNames.contains name then .external ("java.lang." ++ name)
      else .unresolved name) := by
  rw [resolveSimple]
  split
  · next ref _ henc =>
    obtain ⟨outer, ho, hfrom⟩ := List.exists_of_findSome?_eq_some henc
    have hm := List.mem_reverse.mp ho
    obtain ⟨id, rfl, hid⟩ := fromEnclosing_eq_some (hc outer hm) hfrom
    refine .inl ⟨fun hu => ?_, project_exact hid⟩
    rw [fromEnclosing_eq_none_iff.mpr (hu.enclosing outer hm)] at hfrom
    cases hfrom
  · next i _ hsingle =>
    refine .inl ⟨fun hu => ?_, ofQualified_exact i.path⟩
    have hi := List.find?_some hsingle
    have hm := List.mem_of_find?_eq_some hsingle
    have hs := hu.single i hm
    simp_all
  · next henc hsingle =>
    have henclosing : ∀ outer ∈ chain, fromEnclosing isType name outer = none := by
      intro outer ho
      exact List.findSome?_eq_none_iff.mp henc outer (List.mem_reverse.mpr ho)
    split
    · next id hfind =>
      have hid := List.find?_some hfind
      refine .inl ⟨fun hu => ?_, project_exact hid⟩
      rcases List.mem_cons.mp (List.mem_of_find?_eq_some hfind) with rfl | hm
      · rw [hu.samePackage] at hid
        cases hid
      · obtain ⟨i, hi, rfl⟩ := List.mem_map.mp hm
        obtain ⟨him, hik⟩ := List.mem_filter.mp hi
        rw [hu.onDemand i him (by simp_all) (by simp_all)] at hid
        cases hid
    · next hnone =>
      refine .inr ⟨?_, rfl⟩
      have hall := List.find?_eq_none.mp hnone
      constructor
      case enclosing => exact fun outer ho => fromEnclosing_eq_none_iff.mp (henclosing outer ho)
      case single =>
        intro i hi hd hs
        have hne := List.find?_eq_none.mp hsingle i hi
        simp_all
      case samePackage =>
        have hp := hall _ List.mem_cons_self
        simpa using hp
      case onDemand =>
        intro i hi hd hs
        have hmem : i.path ++ "." ++ name ∈ (scope.imports.filter fun i =>
            i.onDemand && !i.isStatic).map fun i => i.path ++ "." ++ name :=
          List.mem_map.mpr ⟨i, List.mem_filter.mpr ⟨hi, by simp [hd, hs]⟩, rfl⟩
        have hn := hall _ (List.mem_cons_of_mem _ hmem)
        simpa using hn

lemma cutFirst?_eq_none_iff {sep : Char} {s : String} :
    cutFirst? sep s = none ↔ sep ∉ s.toList := by
  rw [cutFirst?, List.span_eq_takeWhile_dropWhile]
  cases hd : s.toList.dropWhile (· != sep) with
  | nil =>
    have hall := List.dropWhile_eq_nil_iff.mp hd
    simp only [true_iff]
    exact fun hm => by simpa using hall sep hm
  | cons c cs =>
    have hne : s.toList.dropWhile (· != sep) ≠ [] := by simp [hd]
    have hc := List.head_dropWhile_not (· != sep) hne
    simp only [hd, List.head_cons] at hc
    have hm : c ∈ s.toList := (List.dropWhile_sublist _).subset (hd ▸ List.mem_cons_self)
    simp_all

lemma resolveType_exact_of_points {written : String} (h : '.' ∈ (eraseType written).toList) :
    (resolveType isType scope chain written).Exact isType := by
  rw [resolveType]
  split
  · next hcut => exact absurd h (cutFirst?_eq_none_iff.mp hcut)
  · split
    · next hname => exact project_exact hname
    · next hname =>
      split
      · exact ofQualified_exact _
      · simpa [TypeRef.Exact, TypeRef.projectId?, TypeRef.id] using hname

/-- Unclaimed, the name stands for an identifier that the project declares. -/
def Misread (isType : String → Bool) (scope : UnitScope) (chain : List String) (name : String) :
    Prop :=
  '.' ∉ name.toList ∧ Unclaimed isType scope chain name ∧
    isType (if platformNames.contains name then "java.lang." ++ name else name) = true

lemma TypeRef.Exact.isType_of_project {ref : TypeRef} {id : String} (h : ref.Exact isType)
    (hr : ref = .project id) : isType id = true := by
  subst hr
  exact h.symm

lemma TypeRef.Exact.not_misread {ref : TypeRef} (h : ref.Exact isType) :
    ¬ (ref.projectId? = none ∧ isType ref.id = true) := by
  rintro ⟨hnone, hid⟩
  rw [TypeRef.Exact, hnone, hid] at h
  cases h

lemma resolveType_misread (scope : UnitScope) (written : String)
    (hc : ∀ t ∈ chain, isType t = true) :
    (∀ id, resolveType isType scope chain written = .project id → isType id = true) ∧
    ((resolveType isType scope chain written).projectId? = none ∧
      isType (resolveType isType scope chain written).id = true ↔
      Misread isType scope chain (eraseType written)) := by
  by_cases hp : '.' ∈ (eraseType written).toList
  · have he : (resolveType isType scope chain written).Exact isType :=
      resolveType_exact_of_points hp
    exact ⟨fun id => he.isType_of_project, iff_of_false he.not_misread fun hm => hm.1 hp⟩
  · have hr : resolveType isType scope chain written =
        resolveSimple isType scope chain (eraseType written) := by
      rw [resolveType, cutFirst?_eq_none_iff.mpr hp]
    rw [hr]
    rcases resolveSimple_cases scope (eraseType written) hc with ⟨hu, he⟩ | ⟨hu, hs⟩
    · exact ⟨fun id => he.isType_of_project, iff_of_false he.not_misread fun hm => hu hm.2.1⟩
    · rw [hs, Misread]
      split
      · simp [TypeRef.projectId?, TypeRef.id, hp, hu]
      · simp [TypeRef.projectId?, TypeRef.id, hp, hu]

end JavaAtlas.Binding

namespace JavaAtlas.Index

open Binding Outline Text

variable {files : List ParsedFile} {o : Outline} {chain : List String} {unit : Nat}

def recordedChains (o : Outline) : List (List String) :=
  o.declarations.map (·.chain) ++ o.mentions.map (·.chain)

lemma nested_of_recorded (ho : (outlinesOf files)[unit]? = some o)
    (hc : chain ∈ recordedChains o) : Nested o.declarations o.declarations.length chain := by
  have hf : Fit False False files := fun _ _ => ⟨False.elim, False.elim⟩
  obtain ⟨f, -, -, hb⟩ := outline_block hf ho
  rcases List.mem_append.mp hc with h | h
  · obtain ⟨d, hd, rfl⟩ := List.mem_map.mp h
    obtain ⟨k, hk⟩ := List.mem_iff_getElem?.mp hd
    exact (hb.inner_nested hk).1.mono (List.getElem?_eq_some_iff.mp hk).1.le
  · obtain ⟨m, hm, rfl⟩ := List.mem_map.mp h
    exact hb.mention_nested hm

lemma declaresType_of_recorded (ho : (outlinesOf files)[unit]? = some o)
    (hc : chain ∈ recordedChains o) :
    ∀ t ∈ chain, Lexicon.declaresType (lexiconOf (outlinesOf files)).declarations t = true := by
  intro t ht
  obtain ⟨j, e, -, he, hkind, hid⟩ := (nested_of_recorded ho hc).declared t ht
  have hmem : e ∈ (outlinesOf files).flatMap (·.declarations) :=
    List.mem_flatMap.mpr ⟨o, List.mem_of_getElem? ho, List.mem_of_getElem? he⟩
  exact List.any_eq_true.mpr ⟨e, hmem, by simp [hkind, hid]⟩

lemma scope_eq (ho : (outlinesOf files)[unit]? = some o) :
    ((lexiconOf (outlinesOf files)).scopes[unit]?).getD default = ⟨o.package, o.imports⟩ := by
  simp [lexiconOf, Lexicon.ofDeclarations, ho]

/-- A type of the project is always declared. What is not taken for a type of the project has a
declared identifier exactly when the name was misread. -/
theorem resolve_exact_unless_misread (files : List ParsedFile) (unit : Nat) (o : Outline)
    (ho : (outlinesOf files)[unit]? = some o) (chain : List String)
    (hc : chain ∈ recordedChains o) (written : String) :
    let lex := lexiconOf (outlinesOf files)
    let isType := Lexicon.declaresType lex.declarations
    let ref := lex.resolve written unit chain
    (∀ id, ref = .project id → isType id = true) ∧
      (ref.projectId? = none ∧ isType ref.id = true ↔
        Misread isType ⟨o.package, o.imports⟩ chain (eraseType written)) := by
  intro lex isType ref
  have hr : ref = resolveType isType ⟨o.package, o.imports⟩ chain written := by
    rw [← scope_eq ho]
    rfl
  rw [hr]
  exact resolveType_misread _ written (declaresType_of_recorded ho hc)

/-- The files `package java.lang; class String {}` and `package p; class A { String s; }`. -/
def ownString : List ParsedFile := [
  ⟨⟨"String.java"⟩, "package java.lang; class String {}", .mk .program none 0 34 [
    .mk .packageDeclaration none 0 18 [.mk .mark none 0 7 [], .mk .scopedIdentifier none 8 17 [
      .mk .identifier none 8 12 [], .mk .mark none 12 13 [], .mk .identifier (some .name) 13 17 []],
      .mk .mark none 17 18 []],
    .mk .classDeclaration none 19 34 [.mk .mark none 19 24 [],
      .mk .identifier (some .name) 25 31 [],
      .mk .classBody none 32 34 [.mk .mark none 32 33 [], .mk .mark none 33 34 []]]]⟩,
  ⟨⟨"A.java"⟩, "package p; class A { String s; }", .mk .program none 0 32 [
    .mk .packageDeclaration none 0 10 [.mk .mark none 0 7 [], .mk .identifier none 8 9 [],
      .mk .mark none 9 10 []],
    .mk .classDeclaration none 11 32 [.mk .mark none 11 16 [],
      .mk .identifier (some .name) 17 18 [],
      .mk .classBody none 19 32 [.mk .mark none 19 20 [],
        .mk .fieldDeclaration none 21 30 [.mk .typeIdentifier (some .type) 21 27 [],
          .mk .variableDeclarator none 28 29 [.mk .identifier (some .name) 28 29 []],
          .mk .mark none 29 30 []],
        .mk .mark none 31 32 []]]]⟩]

theorem resolve_exact_unless_misread_ownString :
    let lex := lexiconOf (outlinesOf ownString)
    let isType := Lexicon.declaresType lex.declarations
    lex.resolve "String" 1 ["p.A"] = .external "java.lang.String" ∧
      isType "java.lang.String" = true ∧ Misread isType ⟨"p", []⟩ ["p.A"] "String" := by
  intro lex isType
  have hr : lex.resolve "String" 1 ["p.A"] = .external "java.lang.String" := by decide +kernel
  have hd : isType "java.lang.String" = true := by decide +kernel
  obtain ⟨o, ho⟩ : ∃ o, (outlinesOf ownString)[1]? = some o := ⟨_, rfl⟩
  have hof : (outlinesOf ownString)[1]?.any (fun o =>
      decide (["p.A"] ∈ recordedChains o ∧ o.package = "p" ∧ o.imports = [])) = true := by
    decide +kernel
  rw [ho, Option.any_some, decide_eq_true_eq] at hof
  obtain ⟨hc, hpackage, himports⟩ := hof
  have herase : eraseType "String" = "String" := by decide +kernel
  have hm := (resolve_exact_unless_misread ownString 1 o ho ["p.A"] hc "String").2.mp
    ⟨congrArg TypeRef.projectId? hr, (congrArg (fun ref => isType ref.id) hr).trans hd⟩
  rw [hpackage, himports, herase] at hm
  exact ⟨hr, hd, hm⟩

end JavaAtlas.Index
