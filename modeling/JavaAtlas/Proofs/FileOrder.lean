import JavaAtlas.Proofs.ArrangedFiles
import JavaAtlas.Proofs.SearchSelection
import Mathlib.Data.String.Basic

/-! The order of the files of a project does not matter, as long as no type is declared in two of them.
Both indexes have the same lexicon up to the positions of the files, so that a mention means the same. -/

namespace JavaAtlas.Index

open Binding Outline

variable {files files' : List (String × String)} {x y : String × String}
variable {d e : Declaration} {u : Use}

section Lexicons

variable (hp : files.Perm files') (hn : files.Nodup)
include hp hn

lemma scope_shift {i : Nat} (hi : i < (scopesOf (outlinesAt files)).length) :
    (scopesOf (outlinesAt files'))[shift files files' i]? = (scopesOf (outlinesAt files))[i]? := by
  have hlt : i < files.length := by simpa [scopesOf, outlinesAt] using hi
  have hx : files[i] ∈ files := List.getElem_mem hlt
  have hidx : files.idxOf files[i] = i := hn.idxOf_getElem i hlt
  generalize files[i] = x at hx hidx
  subst hidx
  have hscope := scope_outlineAt (files.idxOf x) (files'.idxOf x) x
  rw [shift_idxOf hx, scopesOf, scopesOf, List.getElem?_map, List.getElem?_map,
    getElem?_outlinesAt hn hx, getElem?_outlinesAt (hp.nodup_iff.mp hn) (hp.mem_iff.mp hx),
    Option.map_some, Option.map_some, hscope.1, hscope.2]

omit hp in
lemma unit_lt_of_mem (hd : d ∈ (ofFiles files).declarations) :
    d.unit < (scopesOf (outlinesAt files)).length := by
  rw [declarations_eq hn] at hd
  obtain ⟨x, hx, hd⟩ := List.mem_flatMap.mp hd
  rw [unit_of_mem hd]
  simpa [scopesOf, outlinesAt] using List.idxOf_lt_length_of_mem hx

lemma ownSupers_moved (hd : d ∈ (ofFiles files).declarations) :
    ownSupers (outlinesAt files') (d.moved (shift files files')) = ownSupers (outlinesAt files) d := by
  have hdeclares : Lexicon.declaresType ((outlinesAt files').flatMap (·.declarations)) =
      Lexicon.declaresType ((outlinesAt files).flatMap (·.declarations)) :=
    Lexicon.declaresType_moved (declarations_perm hp hn)
  rw [ownSupers, ownSupers, Lexicon.supertypesIn, Lexicon.supertypesIn, hdeclares,
    Declaration.moved_unit, scope_shift hp hn (unit_lt_of_mem hn hd)]
  rfl

lemma lineageFuel_eq : (lexiconOf (outlinesAt files')).lineageFuel =
    (lexiconOf (outlinesAt files)).lineageFuel := by
  have hperm : (lexiconOf (outlinesAt files')).supertypes.Perm
      (lexiconOf (outlinesAt files)).supertypes := by
    refine (List.reverse_perm _).trans (.trans ?_ (List.reverse_perm _).symm)
    have htypes := ((declarations_perm hp hn).filter (·.element.kind.isType)).map fun d =>
      (d.id, ownSupers (outlinesAt files') d)
    rw [List.filter_map, List.map_map] at htypes
    refine htypes.trans (List.Perm.of_eq (List.map_congr_left fun d hd => ?_))
    exact congrArg (Prod.mk d.id) (ownSupers_moved hp hn (List.mem_filter.mp hd).1)
  refine hperm.foldl_eq' ?_ 2
  intro t _ t' _ n
  omega

end Lexicons

section Apart

variable (hp : files.Perm files') (hn : files.Nodup) (ht : (ofFiles files).TypesApart)
include hp hn ht

lemma typesNamed_moved (id : String) : typesNamed (ofFiles files').declarations id =
    (typesNamed (ofFiles files).declarations id).map (·.moved (shift files files')) := by
  refine filter_declarations_eq hp hn (fun _ => rfl) fun x hx y hy d hd e he hdid heid => ?_
  simp only [Bool.and_eq_true, beq_iff_eq] at hdid heid
  exact file_eq_of_type hn ht hx hy hd he hdid.1 heid.1 (hdid.2.trans heid.2.symm)

lemma superRefs_moved (id : String) : (ofFiles files').superRefs id = (ofFiles files).superRefs id := by
  have hrefs (files : List (String × String)) : (ofFiles files).superRefs id =
      ((typesNamed (ofFiles files).declarations id).getLast?.map
        (ownSupers (outlinesAt files))).getD [] := superRefs_eq _ id
  rw [hrefs, hrefs, typesNamed_moved hp hn ht, List.getLast?_map]
  cases hlast : (typesNamed (ofFiles files).declarations id).getLast? with
  | none => rw [Option.map_none, Option.map_none, Option.map_none]
  | some d =>
    have hd := (mem_typesNamed.mp (List.mem_of_getLast? hlast)).1
    rw [Option.map_some, Option.map_some, Option.map_some, Option.getD_some, Option.getD_some]
    exact ownSupers_moved hp hn hd

lemma declaration?_moved (id : String) : (ofFiles files').declaration? id =
    ((ofFiles files).declaration? id).map (·.moved (shift files files')) := by
  rw [declaration?, declaration?, ← List.head?_filter, ← List.head?_filter, ← List.head?_map]
  congr 1
  refine filter_declarations_eq hp hn (fun _ => rfl) fun x hx y hy d hd e he hdid heid => ?_
  simp only [beq_iff_eq] at hdid heid
  exact file_eq_of_id hn ht hx hy hd he (hdid.trans heid.symm)

lemma lexicon_moved : Lexicon.Moved (shift files files') (lexiconOf (outlinesAt files))
    (lexiconOf (outlinesAt files')) where
  perm := declarations_perm hp hn
  unit_lt _ hd := unit_lt_of_mem hn hd
  scope_eq _ hu := scope_shift hp hn hu
  members_eq id := by
    refine filter_declarations_eq hp hn (fun _ => rfl) fun x hx y hy d hd e he hdm hem => ?_
    simp only [Bool.and_eq_true, beq_iff_eq] at hdm hem
    exact file_eq_of_owner hn ht hx hy hd he hdm.2 hem.2
  supertypes_eq := superRefs_moved hp hn ht
  fuel_eq := lineageFuel_eq hp hn

lemma usedIn_moved (hx : x ∈ files) : usedIn files' x =
    (usedIn files x).map (Use.moved (shift files files') (startIn files x) (startIn files' x)) := by
  have hlt : files.idxOf x < (lexiconOf (outlinesAt files)).scopes.length := by
    simpa [lexiconOf, Lexicon.ofDeclarations, outlinesAt] using List.idxOf_lt_length_of_mem hx
  rw [usedIn, usedIn, List.map_filterMap, mentions_outlineAt (files.idxOf x)]
  congr 1
  funext m
  rw [← (lexicon_moved hp hn ht).bind?_eq m hlt, shift_idxOf hx]

end Apart

section Units

/-- No two files have the same path. -/
def PathsApart (files : List (String × String)) : Prop :=
  files.Pairwise fun x y => Path.same x.1 y.1 = false

instance : DecidablePred PathsApart := fun _ => inferInstanceAs (Decidable (List.Pairwise _ _))

lemma PathsApart.nodup (h : PathsApart files) : files.Nodup := by
  refine h.imp ?_
  rintro x y hxy rfl
  simp [Path.same] at hxy

lemma PathsApart.of_perm (hp : files.Perm files') (h : PathsApart files) : PathsApart files' := by
  refine hp.pairwise h fun {x y} hxy => ?_
  rw [Path.same, beq_eq_false_iff_ne] at hxy ⊢
  exact hxy.symm

lemma unitAt?_congr {index : Index} {p q : String} (h : Path.same p q = true) :
    index.unitAt? p = index.unitAt? q := by
  rw [Path.same, beq_iff_eq] at h
  simp [unitAt?, Path.same, h]

lemma unitAt?_ofFiles_iff (h : PathsApart files) {path : String} {i : Nat} :
    (ofFiles files).unitAt? path = some i ↔
      ∃ x ∈ files, files.idxOf x = i ∧ Path.same x.1 path = true := by
  have hn := h.nodup
  have hdistinct : DistinctPaths
      (files.map fun f => (⟨⟨f.1⟩, f.2, Syntax.parse f.2.toList⟩ : ParsedFile)) :=
    List.pairwise_map.mpr h
  constructor
  · intro hi
    have hlt := unitAt?_lt hi
    have hlen : (ofFiles files).units.length = files.length := by
      rw [ofFiles_eq_ofTrees, units_length, List.length_map]
    rw [hlen] at hlt
    have hsame := same_of_unitAt? hi
    have hidx : files.idxOf files[i] = i := hn.idxOf_getElem i hlt
    have hx : files[i] ∈ files := List.getElem_mem hlt
    generalize files[i] = x at hx hidx
    subst hidx
    rw [unitRef_idxOf hn hx] at hsame
    exact ⟨x, hx, rfl, hsame⟩
  · rintro ⟨x, hx, rfl, hsame⟩
    rw [← unitAt?_congr hsame, ofFiles_eq_ofTrees]
    refine unitAt?_eq (f := ⟨⟨x.1⟩, x.2, Syntax.parse x.2.toList⟩) hdistinct ?_
    rw [List.getElem?_map, List.getElem?_idxOf hx]
    rfl

lemma unitAt?_shift (hp : files.Perm files') (h : PathsApart files) (path : String) :
    (ofFiles files').unitAt? path = ((ofFiles files).unitAt? path).map (shift files files') := by
  cases hi : (ofFiles files).unitAt? path with
  | some i =>
    obtain ⟨x, hx, rfl, hsame⟩ := (unitAt?_ofFiles_iff h).mp hi
    rw [Option.map_some, shift_idxOf hx]
    exact (unitAt?_ofFiles_iff (h.of_perm hp)).mpr ⟨x, hp.mem_iff.mp hx, rfl, hsame⟩
  | none =>
    refine Option.eq_none_iff_forall_ne_some.mpr fun j hj => ?_
    obtain ⟨x, hx, -, hsame⟩ := (unitAt?_ofFiles_iff (h.of_perm hp)).mp hj
    have hfound := (unitAt?_ofFiles_iff h).mpr ⟨x, hp.mem_iff.mpr hx, rfl, hsame⟩
    rw [hi] at hfound
    cases hfound

/-- What an index holds of one file. -/
lemma filter_of_unit {α : Type} (hn : files.Nodup) (hx : x ∈ files) {g : String × String → List α}
    (unit : α → Nat) (hg : ∀ y, ∀ a ∈ g y, unit a = files.idxOf y) (test : α → Bool) :
    (files.flatMap g).filter (fun a => unit a == files.idxOf x && test a) = (g x).filter test := by
  rw [List.filter_flatMap, flatMap_eq_of_only hn hx]
  · refine List.filter_congr fun a ha => ?_
    simp [hg x a ha]
  · intro y hy hne
    refine List.filter_eq_nil_iff.mpr fun a ha => ?_
    have hidx : files.idxOf y ≠ files.idxOf x := fun h => hne ((List.idxOf_inj hy).mp h)
    simp [hg y a ha, hidx]

lemma unit_of_used (hu : u ∈ usedIn files x) : u.unit = files.idxOf x := by
  obtain ⟨m, -, hm⟩ := List.mem_filterMap.mp hu
  exact ((lexiconOf (outlinesAt files)).bind?_boundFrom hm).unit_eq

lemma filter_declarations_of_unit (hn : files.Nodup) (hx : x ∈ files) (test : Declaration → Bool) :
    (ofFiles files).declarations.filter (fun d => d.unit == files.idxOf x && test d) =
      (declaredIn files x).filter test := by
  rw [declarations_eq hn]
  exact filter_of_unit hn hx Declaration.unit (fun _ _ hd => unit_of_mem hd) test

lemma usesAround_idxOf (hn : files.Nodup) (hx : x ∈ files) (offset length : Nat) :
    (ofFiles files).usesAround (files.idxOf x) offset length =
      (usedIn files x).filter fun u => u.offset ≤ offset && offset + length ≤ u.offset + u.length := by
  rw [usesAround, uses_eq hn, ← filter_of_unit hn hx Use.unit fun _ _ hu => unit_of_used hu]
  simp only [Bool.and_assoc]

lemma shortest?_moved (f : Nat → Nat) (ds : List Declaration) :
    shortest? (ds.map (·.moved f)) = (shortest? ds).map (·.moved f) := by
  induction ds with
  | nil => rfl
  | cons d ds ih =>
    rw [List.map_cons, shortest?, shortest?, ih]
    cases shortest? ds with
    | none => rfl
    | some e =>
      simp only [Option.map_some, Declaration.moved_start, Declaration.moved_stop]
      rw [apply_ite (Option.map _)]
      rfl

end Units

/-! ### Answers -/

/-- The two indexes answer alike, except that they may list subtypes and results in another order. -/
structure SameAnswers (index index' : Index) : Prop where
  declaration_eq : ∀ id,
    (index'.declaration? id).map (·.element) = (index.declaration? id).map (·.element)
  directSupertypes_eq : ∀ id, index'.directSupertypes id = index.directSupertypes id
  mem_directSubtypes : ∀ id e, e ∈ index'.directSubtypes id ↔ e ∈ index.directSubtypes id
  packages_eq : index'.packages = index.packages
  select_eq : ∀ path offset length,
    index'.select path offset length = index.select path offset length
  containing_eq : ∀ path offset, index'.containing? path offset = index.containing? path offset
  search_perm : ∀ pattern scope, (index'.search pattern scope).Perm (index.search pattern scope)

lemma element?_eq (index : Index) (id : String) : index.element? id =
    ((index.declaration? id).map (·.element)).or
      (if !Text.hasChar '#' id && Text.hasChar '.' id then some (.binaryType id) else none) := by
  rw [element?]
  cases index.declaration? id <;> rfl

lemma mem_directSubtypes_iff {index : Index} {id : String} {e : Element} :
    e ∈ index.directSubtypes id ↔ ∃ d ∈ index.declarations, d.element.kind.isType = true ∧
      (index.superRefs d.id).any (·.id == id) = true ∧
      (index.declaration? d.id).map (·.element) = some e := by
  have hfound (d : Declaration) : (index.declarations.findIdx? (·.id == d.id)).bind
      (fun i => (index.declarations[i]?).map (·.element)) =
      (index.declaration? d.id).map (·.element) := by
    rw [declaration?, List.find?_eq_bind_findIdx?_getElem?, Option.map_bind]
    rfl
  simp only [directSubtypes, List.mem_filterMap, List.mem_eraseDups, List.mem_mergeSort,
    List.mem_filter, Bool.and_eq_true]
  constructor
  · rintro ⟨i, ⟨d, ⟨hd, ht, hs⟩, hi⟩, he⟩
    refine ⟨d, hd, ht, hs, ?_⟩
    rw [← hfound, hi]
    exact he
  · rintro ⟨d, hd, ht, hs, he⟩
    rw [← hfound] at he
    obtain ⟨i, hi, he⟩ := Option.bind_eq_some_iff.mp he
    exact ⟨i, ⟨d, ⟨hd, ht, hs⟩, hi⟩, he⟩

lemma sortedOnce_eq_of_perm {l l' : List String} (h : l.Perm l') : sortedOnce l = sortedOnce l' := by
  have hsorted (l : List String) :
      (l.mergeSort fun a b => decide (a ≤ b)).Pairwise (fun a b => decide (a ≤ b) = true) :=
    List.pairwise_mergeSort (fun a b c => by simpa using le_trans)
      (fun a b => by simpa using le_total a b) l
  have hperm := (List.mergeSort_perm l fun a b => decide (a ≤ b)).trans
    (h.trans (List.mergeSort_perm l' fun a b => decide (a ≤ b)).symm)
  rw [sortedOnce, sortedOnce]
  congr 1
  refine hperm.eq_of_pairwise ?_ (hsorted l) (hsorted l')
  intro a b _ _ hab hba
  simp only [decide_eq_true_eq] at hab hba
  exact le_antisymm hab hba

lemma reports_declared_moved (f : Nat → Nat) (pattern : SearchPattern) (scope : SearchScope)
    (d : Declaration) :
    reports pattern scope (.declared (d.moved f)) = reports pattern scope (.declared d) := by
  obtain ⟨target, category, caseSensitive⟩ := pattern
  cases target with
  | element e => rfl
  | name text family =>
    simp only [reports, declarationTest?, Option.any_map]
    rfl

lemma reports_used_moved (f : Nat → Nat) (start start' : Nat) (pattern : SearchPattern)
    (scope : SearchScope) (u : Use) :
    reports pattern scope (.used (u.moved f start start')) = reports pattern scope (.used u) := by
  obtain ⟨target, category, caseSensitive⟩ := pattern
  cases target with
  | element e => rfl
  | name text family =>
    simp only [reports, useTest?, Option.any_map]
    rfl

section Answers

variable (hp : files.Perm files') (hn : files.Nodup) (ht : (ofFiles files).TypesApart)
include hp hn

lemma declarationHit_moved (hd : d ∈ (ofFiles files).declarations) :
    (ofFiles files').declarationHit (d.moved (shift files files')) =
      (ofFiles files).declarationHit d := by
  rw [declarations_eq hn] at hd
  obtain ⟨x, hx, hd⟩ := List.mem_flatMap.mp hd
  have hunit := unit_of_mem hd
  simp [declarationHit, hunit, shift_idxOf hx, unitRef_idxOf hn hx,
    unitRef_idxOf (hp.nodup_iff.mp hn) (hp.mem_iff.mp hx)]

lemma useHit?_moved (hx : x ∈ files) (hu : u ∈ usedIn files x) :
    (ofFiles files').useHit? (u.moved (shift files files') (startIn files x) (startIn files' x)) =
      (ofFiles files).useHit? u := by
  obtain ⟨m, hm, hbound⟩ := List.mem_filterMap.mp hu
  have hfrom := (lexiconOf (outlinesAt files)).bind?_boundFrom hbound
  cases henclosing : m.enclosing with
  | none => simp [useHit?, Use.moved, hfrom.enclosing_eq, henclosing]
  | some k =>
    have hk : k < (declaredIn files x).length := enclosing_lt hm henclosing
    have hat : (declaredIn files x)[k]? = some (declaredIn files x)[k] :=
      List.getElem?_eq_getElem hk
    have hat' : (declaredIn files' x)[k]? =
        some ((declaredIn files x)[k].moved (shift files files')) := by
      rw [declaredIn_eq hx, List.getElem?_map, hat]
      rfl
    have hfound := declarations_startIn hn hx hat
    have hfound' := declarations_startIn (hp.nodup_iff.mp hn) (hp.mem_iff.mp hx) hat'
    rw [Nat.add_comm] at hfound hfound'
    simp [useHit?, Use.moved, hfrom.enclosing_eq, hfrom.unit_eq, henclosing, hfound, hfound',
      shift_idxOf hx, unitRef_idxOf hn hx,
      unitRef_idxOf (hp.nodup_iff.mp hn) (hp.mem_iff.mp hx)]

lemma packages_moved : (ofFiles files').packages = (ofFiles files).packages := by
  have hpackages : ((outlinesAt files').map (·.package)).Perm ((outlinesAt files).map (·.package)) := by
    rw [outlinesAt_eq hn, outlinesAt_eq (hp.nodup_iff.mp hn), List.map_map, List.map_map]
    refine (hp.symm.map _).trans (List.Perm.of_eq (List.map_congr_left fun x _ => ?_))
    exact (scope_outlineAt (files.idxOf x) (files'.idxOf x) x).1
  exact sortedOnce_eq_of_perm (hpackages.filter _)

lemma search_declarations_moved (pattern : SearchPattern) (scope : SearchScope) :
    ((((ofFiles files').declarations.map Entry.declared).filter (reports pattern scope)).filterMap
      (Entry.hit? (ofFiles files'))).Perm
    ((((ofFiles files).declarations.map Entry.declared).filter (reports pattern scope)).filterMap
      (Entry.hit? (ofFiles files))) := by
  simp only [List.filterMap_filter, List.filterMap_map]
  refine ((declarations_perm hp hn).filterMap _).trans (List.Perm.of_eq ?_)
  rw [List.filterMap_map]
  refine List.filterMap_congr fun d hd => ?_
  simp only [Function.comp_apply, reports_declared_moved, Entry.hit?,
    declarationHit_moved hp hn hd]

include ht

lemma search_uses_moved (pattern : SearchPattern) (scope : SearchScope) :
    ((((ofFiles files').uses.map Entry.used).filter (reports pattern scope)).filterMap
      (Entry.hit? (ofFiles files'))).Perm
    ((((ofFiles files).uses.map Entry.used).filter (reports pattern scope)).filterMap
      (Entry.hit? (ofFiles files))) := by
  simp only [List.filterMap_filter, List.filterMap_map]
  rw [uses_eq hn, uses_eq (hp.nodup_iff.mp hn), List.filterMap_flatMap, List.filterMap_flatMap]
  refine (hp.symm.flatMap_right _).trans (List.Perm.of_eq (List.flatMap_congr fun x hx => ?_))
  rw [usedIn_moved hp hn ht hx, List.filterMap_map]
  refine List.filterMap_congr fun u hu => ?_
  simp only [Function.comp_apply, reports_used_moved, Entry.hit?, useHit?_moved hp hn hx hu]

lemma element?_moved (id : String) : (ofFiles files').element? id = (ofFiles files).element? id := by
  rw [element?_eq, element?_eq, declaration?_moved hp hn ht, Option.map_map]
  rfl

lemma referenced_moved (hx : x ∈ files) (offset length : Nat) :
    ((ofFiles files').usesAround (files'.idxOf x) offset length).flatMap
        (fun u => u.targets.filterMap (ofFiles files').element?) =
      ((ofFiles files).usesAround (files.idxOf x) offset length).flatMap
        fun u => u.targets.filterMap (ofFiles files).element? := by
  rw [usesAround_idxOf hn hx, usesAround_idxOf (hp.nodup_iff.mp hn) (hp.mem_iff.mp hx),
    usedIn_moved hp hn ht hx, List.filter_map, List.flatMap_map,
    funext (element?_moved hp hn ht)]
  rfl

omit ht in
lemma filter_of_unit_moved (hx : x ∈ files) (test : Declaration → Bool)
    (htest : ∀ d, test (d.moved (shift files files')) = test d) :
    (ofFiles files').declarations.filter (fun d => d.unit == files'.idxOf x && test d) =
      ((ofFiles files).declarations.filter fun d => d.unit == files.idxOf x && test d).map
        (·.moved (shift files files')) := by
  rw [filter_declarations_of_unit hn hx,
    filter_declarations_of_unit (hp.nodup_iff.mp hn) (hp.mem_iff.mp hx), declaredIn_eq hx,
    List.filter_map]
  congr 2
  exact funext htest

end Answers

/-- The order of the files does not matter, if each type is declared in one of them. -/
theorem sameAnswers_of_perm (files files' : List (String × String)) (hp : files.Perm files')
    (hpaths : PathsApart files) (ht : (ofFiles files).TypesApart) :
    SameAnswers (ofFiles files) (ofFiles files') := by
  have hn := hpaths.nodup
  have hpaths' := hpaths.of_perm hp
  have hn' := hpaths'.nodup
  have helement : (ofFiles files').element? = (ofFiles files).element? :=
    funext (element?_moved hp hn ht)
  constructor
  case declaration_eq =>
    intro id
    rw [declaration?_moved hp hn ht, Option.map_map]
    rfl
  case directSupertypes_eq =>
    intro id
    rw [directSupertypes_eq, directSupertypes_eq, superRefs_moved hp hn ht]
    congr 1
    funext ref
    cases ref <;> simp only [superElement?, helement]
  case mem_directSubtypes =>
    intro id e
    rw [mem_directSubtypes_iff, mem_directSubtypes_iff]
    simp only [superRefs_moved hp hn ht, declaration?_moved hp hn ht, (declarations_perm hp hn).mem_iff,
      Option.map_map, List.mem_map, exists_exists_and_eq_and]
    rfl
  case packages_eq => exact packages_moved hp hn
  case select_eq =>
    intro path offset length
    cases hunit : (ofFiles files).unitAt? path with
    | none => simp [select, unitAt?_shift hp hpaths, hunit]
    | some i =>
      obtain ⟨x, hx, rfl, hsame⟩ := (unitAt?_ofFiles_iff hpaths).mp hunit
      have hx' := hp.mem_iff.mp hx
      have hunit' := (unitAt?_ofFiles_iff hpaths').mpr ⟨x, hx', rfl, hsame⟩
      have hnamed := filter_of_unit_moved hp hn hx (fun d =>
        d.element.nameOffset.any fun start =>
          start ≤ offset && offset + length ≤ start + d.element.nameLength) fun _ => rfl
      rw [select_eq hunit, select_eq hunit', referenced_moved hp hn ht hx, ← List.head?_filter,
        ← List.head?_filter, hnamed, List.head?_map, Option.map_map]
      rfl
  case containing_eq =>
    intro path offset
    cases hunit : (ofFiles files).unitAt? path with
    | none => simp [containing?, unitAt?_shift hp hpaths, hunit]
    | some i =>
      obtain ⟨x, hx, rfl, hsame⟩ := (unitAt?_ofFiles_iff hpaths).mp hunit
      have hx' := hp.mem_iff.mp hx
      have hunit' := (unitAt?_ofFiles_iff hpaths').mpr ⟨x, hx', rfl, hsame⟩
      have haround := filter_of_unit_moved hp hn hx (fun d =>
        d.start ≤ offset && offset < d.stop) fun _ => rfl
      simp only [← Bool.and_assoc] at haround
      simp only [containing?, hunit, hunit', Option.bind_eq_bind, Option.bind_some, haround,
        shortest?_moved]
      cases shortest? ((ofFiles files).declarations.filter fun d =>
        d.unit == files.idxOf x && d.start ≤ offset && offset < d.stop) <;> rfl
  case search_perm =>
    intro pattern scope
    rw [search_eq, search_eq]
    by_cases hc : pattern.category = .declarations
    · rw [hc]
      exact search_declarations_moved hp hn pattern scope
    · rw [entries_eq _ hc, entries_eq _ hc]
      exact search_uses_moved hp hn ht pattern scope

/-- A class and a subclass of it in another package. -/
def twoPackages : List (String × String) :=
  [("p/A.java", "package p; class A { int n; }"),
    ("q/B.java", "package q; class B extends p.A { int m = n; }")]

/-- The order of the results is all that changes. -/
theorem sameAnswers_of_perm_twoPackages :
    SameAnswers (ofFiles twoPackages) (ofFiles twoPackages.reverse) ∧
      (ofFiles twoPackages).search ⟨.name "*" (some .type), .declarations, true⟩ .project ≠
        (ofFiles twoPackages.reverse).search ⟨.name "*" (some .type), .declarations, true⟩ .project :=
  ⟨sameAnswers_of_perm _ _ (List.reverse_perm _).symm (by decide +kernel) (by decide +kernel),
    by decide +kernel⟩

end JavaAtlas.Index
