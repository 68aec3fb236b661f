import JavaAtlas.Proofs.IndexConsistency

/-! Search goes by identifiers and selection by bytes; on the index of files with distinct paths and
grammatical trees they agree. -/

namespace JavaAtlas.Index

open Binding Outline

variable {files : List ParsedFile} {f : ParsedFile} {o : Outline} {d e : Declaration} {u : Use}
variable {index : Index} {tidy strict : Prop} {i k : Nat}

def DistinctPaths (files : List ParsedFile) : Prop :=
  files.Pairwise fun a b => Path.same a.ref.path b.ref.path = false

instance : DecidablePred DistinctPaths := fun _ => inferInstanceAs (Decidable (List.Pairwise _ _))

def Covers (start size offset length : Nat) : Prop :=
  start ≤ offset ∧ offset + length ≤ start + size

lemma Covers.mem_Ico {start size offset length : Nat} (h : Covers start size offset length)
    (hl : 0 < length) : offset ∈ Set.Ico start (start + size) := by
  obtain ⟨h₁, h₂⟩ := h
  exact ⟨h₁, by omega⟩

/-- What a search for an element finds is selected at its place, and the other way round. -/
structure Agrees (index : Index) : Prop where
  selected_of_found : ∀ d ∈ index.declarations, ∀ category scope caseSensitive,
    category ≠ .declarations →
    ∀ hit ∈ index.search ⟨.element d.element, category, caseSensitive⟩ scope,
      ∃ e ∈ index.select hit.unit.path hit.offset hit.length, e.id = d.id
  name_found : ∀ d ∈ index.declarations, ∃ ref start,
    d.element.unit = some ref ∧ d.element.nameOffset = some start ∧
    (∀ scope caseSensitive, scope.encloses d.owner? = true →
      ⟨d.element, ref, start, d.element.nameLength, .declaration, true⟩ ∈
        index.search ⟨.element d.element, .declarations, caseSensitive⟩ scope) ∧
    ∀ offset length, 0 < length → Covers start d.element.nameLength offset length →
      index.select ref.path offset length = [d.element]
  found_of_selected : ∀ path offset length, ∀ e ∈ index.select path offset length,
    (∃ d ∈ index.declarations, d.id = e.id) →
    (∃ d ∈ index.declarations, d.element = e ∧ index.unitAt? path = some d.unit ∧
      ∃ start, e.nameOffset = some start ∧ Covers start e.nameLength offset length) ∨
    ∃ u ∈ index.uses, e.id ∈ u.targets ∧ index.unitAt? path = some u.unit ∧
      Covers u.offset u.length offset length ∧
      ((∃ d ∈ index.declarations, d.unit = u.unit ∧ d.start ≤ u.offset ∧
          u.offset + u.length ≤ d.stop) →
        ∀ caseSensitive, ∃ hit ∈ index.search ⟨.element e, .references, caseSensitive⟩ .project,
          Path.same hit.unit.path path = true ∧ hit.offset = u.offset ∧ hit.length = u.length)

section Entries

/-- One of the things that a search goes through. -/
inductive Entry where
  | declared (d : Declaration)
  | used (u : Use)
  deriving DecidableEq

variable (index)

/-- What a search of a category goes through, in the order of the index. -/
def entries : Category → List Entry
  | .declarations => index.declarations.map .declared
  | _ => index.uses.map .used

def Entry.hit? : Entry → Option Hit
  | declared d => some (index.declarationHit d)
  | used u => index.useHit? u

/-- Whether a search reports an entry, if it lies in a declaration. -/
def reports (pattern : SearchPattern) (scope : SearchScope) : Entry → Bool
  | .declared d => scope.encloses d.owner? &&
    (declarationTest? pattern.caseSensitive pattern.target).any (· d)
  | .used u => pattern.category.accepts u.role && scope.encloses u.enclosingType &&
    (useTest? pattern.caseSensitive pattern.target).any (· u)

lemma search_eq (pattern : SearchPattern) (scope : SearchScope) :
    index.search pattern scope =
      ((index.entries pattern.category).filter (reports pattern scope)).filterMap
        (Entry.hit? index) := by
  obtain ⟨target, category, caseSensitive⟩ := pattern
  cases category with
  | declarations =>
    simp only [search, entries, List.filter_map, List.filterMap_map]
    cases ht : declarationTest? caseSensitive target with
    | none => simp [reports, ht]
    | some test => simp [reports, ht, Function.comp_def, Entry.hit?]
  | _ =>
    simp only [search, entries, List.filter_map, List.filterMap_map]
    cases ht : useTest? caseSensitive target with
    | none => simp [reports, ht]
    | some test => simp [reports, ht, Function.comp_def, Entry.hit?]

lemma entries_eq {category : Category} (hc : category ≠ .declarations) :
    index.entries category = index.uses.map .used := by
  cases category <;> first | rfl | exact absurd rfl hc

end Entries

lemma mem_search_uses {category : Category} {caseSensitive : Bool} {scope : SearchScope}
    (hc : category ≠ .declarations) {e : Element} {hit : Hit} :
    hit ∈ index.search ⟨.element e, category, caseSensitive⟩ scope ↔
      ∃ u ∈ index.uses, category.accepts u.role = true ∧ scope.encloses u.enclosingType = true ∧
        e.id ∈ u.targets ∧ index.useHit? u = some hit := by
  have hs : index.search ⟨.element e, category, caseSensitive⟩ scope =
      (index.uses.filter fun u => category.accepts u.role && scope.encloses u.enclosingType &&
        u.targets.contains e.id).filterMap index.useHit? := by
    cases category with
    | declarations => exact absurd rfl hc
    | _ => rfl
  rw [hs, List.mem_filterMap]
  simp only [List.mem_filter, Bool.and_eq_true, List.contains_iff_mem, and_assoc]

lemma mem_search_declarations {caseSensitive : Bool} {scope : SearchScope} {e : Element}
    {hit : Hit} :
    hit ∈ index.search ⟨.element e, .declarations, caseSensitive⟩ scope ↔
      ∃ d ∈ index.declarations, scope.encloses d.owner? = true ∧ d.id = e.id ∧
        index.declarationHit d = hit := by
  simp only [search, declarationTest?, List.mem_map, List.mem_filter, Bool.and_eq_true, beq_iff_eq,
    and_assoc]

lemma useHit?_eq_some {hit : Hit} (h : index.useHit? u = some hit) :
    hit.unit = index.unitRef u.unit ∧ hit.offset = u.offset ∧ hit.length = u.length := by
  simp only [useHit?, Option.bind_eq_bind, Option.bind_eq_some_iff] at h
  obtain ⟨_, -, _, -, h⟩ := h
  obtain rfl := Option.some.inj h
  exact ⟨rfl, rfl, rfl⟩

def usesAround (index : Index) (unit offset length : Nat) : List Use :=
  index.uses.filter fun u =>
    u.unit == unit && u.offset ≤ offset && offset + length ≤ u.offset + u.length

lemma mem_usesAround {unit offset length : Nat} : u ∈ index.usesAround unit offset length ↔
    u ∈ index.uses ∧ u.unit = unit ∧ Covers u.offset u.length offset length := by
  simp [usesAround, Covers, and_assoc]

lemma select_eq {path : String} {unit : Nat} (h : index.unitAt? path = some unit)
    (offset length : Nat) :
    index.select path offset length =
      let referenced := (index.usesAround unit offset length).flatMap fun u =>
        u.targets.filterMap index.element?
      if !referenced.isEmpty then referenced
      else ((index.declarations.find? fun d =>
        d.unit == unit && d.element.nameOffset.any fun start =>
          start ≤ offset && offset + length ≤ start + d.element.nameLength).map
            (·.element)).toList := by
  rw [select, h]
  rfl

lemma element?_of_declared (hd : d ∈ index.declarations) :
    ∃ e, index.element? d.id = some e ∧ e.id = d.id := by
  cases hf : index.declaration? d.id with
  | none =>
    have hne := List.find?_eq_none.mp hf d hd
    simp at hne
  | some first =>
    have hid := List.find?_some hf
    exact ⟨first.element, by simp [element?, hf], beq_iff_eq.mp hid⟩

lemma id_of_element? {id : String} {e : Element} (h : index.element? id = some e) : e.id = id := by
  rw [element?] at h
  split at h
  · next first hfirst =>
    obtain rfl := Option.some.inj h
    have hid := List.find?_some hfirst
    exact beq_iff_eq.mp hid
  · split at h
    · obtain rfl := Option.some.inj h
      rfl
    · cases h

lemma mem_select_of_use {path : String} {unit offset length : Nat}
    (hp : index.unitAt? path = some unit) (hu : u ∈ index.usesAround unit offset length)
    (hd : d ∈ index.declarations) (ht : d.id ∈ u.targets) :
    ∃ e ∈ index.select path offset length, e.id = d.id := by
  obtain ⟨e, he, hid⟩ := element?_of_declared hd
  have hm : e ∈ (index.usesAround unit offset length).flatMap fun u =>
      u.targets.filterMap index.element? :=
    List.mem_flatMap.mpr ⟨u, hu, List.mem_filterMap.mpr ⟨d.id, ht, he⟩⟩
  refine ⟨e, ?_, hid⟩
  rw [select_eq hp]
  dsimp only
  rw [if_pos (by simpa using List.ne_nil_of_mem hm)]
  exact hm

lemma unit_getElem? (h : files[i]? = some f) :
    ∃ unit, (ofTrees files).units[i]? = some unit ∧ unit.ref = f.ref := by
  have ho := getElem?_outlinesOf.mpr ⟨f, h, rfl⟩
  refine ⟨⟨f.ref, f.source, (Outline.ofTree f.ref i f.source f.tree).package⟩, ?_, rfl⟩
  simp only [ofTrees, ofOutlines, List.getElem?_map, ho]
  rfl

lemma unitRef_eq (h : files[i]? = some f) : (ofTrees files).unitRef i = f.ref := by
  obtain ⟨unit, hu, href⟩ := unit_getElem? h
  rw [unitRef, hu, Option.map_some, Option.getD_some, href]

lemma same_of_unitAt? {path : String} (h : index.unitAt? path = some i) :
    Path.same (index.unitRef i).path path = true := by
  obtain ⟨⟨unit, j⟩, hfound, rfl⟩ := Option.map_eq_some_iff.mp h
  have hm := List.mem_reverse.mp (List.mem_of_find?_eq_some hfound)
  have hu : index.units[j]? = some unit := List.mem_zipIdx_iff_getElem?.mp hm
  have hs := List.find?_some hfound
  simpa [unitRef, hu] using hs

lemma index_eq_of_same (hpaths : DistinctPaths files) {j : Nat} {f' : ParsedFile}
    (hi : files[i]? = some f) (hj : files[j]? = some f')
    (hs : Path.same f.ref.path f'.ref.path = true) : i = j := by
  obtain ⟨hi', rfl⟩ := List.getElem?_eq_some_iff.mp hi
  obtain ⟨hj', rfl⟩ := List.getElem?_eq_some_iff.mp hj
  have hpw := List.pairwise_iff_getElem.mp hpaths
  rcases Nat.lt_trichotomy i j with hlt | heq | hgt
  · exact absurd hs (by simp [hpw i j hi' hj' hlt])
  · exact heq
  · have hne := hpw j i hj' hi' hgt
    rw [Path.same, beq_iff_eq] at hs
    simp [Path.same, hs] at hne

lemma unitAt?_eq (hpaths : DistinctPaths files) (h : files[i]? = some f) :
    (ofTrees files).unitAt? f.ref.path = some i := by
  obtain ⟨unit, hu, href⟩ := unit_getElem? h
  cases hf : (ofTrees files).unitAt? f.ref.path with
  | none =>
    have hnone := List.find?_eq_none.mp (Option.map_eq_none_iff.mp hf) (unit, i)
      (List.mem_reverse.mpr (List.mem_zipIdx_iff_getElem?.mpr hu))
    simp [href, Path.same] at hnone
  | some j =>
    have hj := unitAt?_lt hf
    rw [units_length] at hj
    have hfj : files[j]? = some files[j] := List.getElem?_eq_getElem hj
    have hs := same_of_unitAt? hf
    rw [unitRef_eq hfj] at hs
    rw [index_eq_of_same hpaths hfj h hs]

section

variable (hf : Fit True True files)
include hf

lemma usesAround_name (hd : d ∈ (ofTrees files).declarations) {offset length : Nat}
    (hl : 0 < length) (hc : Covers d.nameStart d.element.nameLength offset length) :
    (ofTrees files).usesAround d.unit offset length = [] := by
  obtain ⟨_, f, o, k, hat⟩ := exists_located_of_mem hf hd
  refine List.eq_nil_iff_forall_not_mem.mpr fun u hu => ?_
  obtain ⟨hu, hunit, hcu⟩ := mem_usesAround.mp hu
  obtain ⟨_, o', m, hm⟩ := exists_boundAt hf hu
  obtain rfl : o = o' := Option.some.inj (hat.outline_eq.symm.trans (hunit ▸ hm.outline_eq))
  have hdis := hat.block.name_mention_apart trivial trivial d
    (List.mem_of_getElem? hat.declaration_eq) m hm.mem
  rw [hm.boundFrom.offset_eq, hm.boundFrom.length_eq] at hcu
  exact Set.disjoint_left.mp hdis (hc.mem_Ico hl) (hcu.mem_Ico hl)

lemma eq_of_names_overlap (hd : d ∈ (ofTrees files).declarations)
    (he : e ∈ (ofTrees files).declarations) (hunit : e.unit = d.unit) {b : Nat}
    (hbd : b ∈ d.nameBytes) (hbe : b ∈ e.nameBytes) : e = d := by
  obtain ⟨_, _, o, _, hat⟩ := exists_located_of_mem hf hd
  obtain ⟨_, _, o', _, hat'⟩ := exists_located_of_mem hf he
  obtain rfl : o' = o := Option.some.inj (hat'.outline_eq.symm.trans (hunit ▸ hat.outline_eq))
  by_contra hne
  have hdis := (hat.block.names_apart trivial trivial).forall
    (List.mem_of_getElem? hat.declaration_eq) (List.mem_of_getElem? hat'.declaration_eq)
    (fun h => hne h.symm)
  exact Set.disjoint_left.mp hdis hbd hbe

lemma nameOffset_eq (hd : d ∈ (ofTrees files).declarations) :
    d.element.nameOffset = some d.nameStart ∧ ∃ f, files[d.unit]? = some f ∧
      d.element.unit = some f.ref := by
  obtain ⟨_, f, o, k, hat⟩ := exists_located_of_mem hf hd
  obtain ⟨_, -, hin⟩ := hat.block.declaration_owned hat.declaration_eq
  exact ⟨hin.nameOffset_eq, f, hat.file_eq, hin.ref_eq⟩

lemma select_name (hpaths : DistinctPaths files) (hfile : files[d.unit]? = some f)
    (hd : d ∈ (ofTrees files).declarations) {offset length : Nat} (hl : 0 < length)
    (hc : Covers d.nameStart d.element.nameLength offset length) :
    (ofTrees files).select f.ref.path offset length = [d.element] := by
  rw [select_eq (unitAt?_eq hpaths hfile), usesAround_name hf hd hl hc]
  have hname (e : Declaration) (he : e ∈ (ofTrees files).declarations) :
      ((e.unit == d.unit && e.element.nameOffset.any fun start =>
        start ≤ offset && offset + length ≤ start + e.element.nameLength) = true) ↔
      e.unit = d.unit ∧ Covers e.nameStart e.element.nameLength offset length := by
    simp [(nameOffset_eq hf he).1, Covers]
  cases hfind : (ofTrees files).declarations.find? fun e => e.unit == d.unit &&
      e.element.nameOffset.any fun start =>
        start ≤ offset && offset + length ≤ start + e.element.nameLength with
  | none => exact absurd ((hname d hd).mpr ⟨rfl, hc⟩) (List.find?_eq_none.mp hfind d hd)
  | some e =>
    have he := List.mem_of_find?_eq_some hfind
    have hfits := List.find?_some hfind
    obtain ⟨hunit, hce⟩ := (hname e he).mp hfits
    obtain rfl := eq_of_names_overlap hf hd he hunit (hc.mem_Ico hl) (hce.mem_Ico hl)
    rfl

lemma length_pos (hu : u ∈ (ofTrees files).uses) : 0 < u.length := by
  obtain ⟨_, o, m, hm⟩ := exists_boundAt hf hu
  obtain ⟨_, -, hin⟩ := hm.block.mention_owned hm.mem
  exact hm.boundFrom.length_eq ▸ hin.nonempty trivial

lemma enclosing_of_inside (hu : u ∈ (ofTrees files).uses) (hd : d ∈ (ofTrees files).declarations)
    (hunit : d.unit = u.unit) (hin : u.offset ∈ d.range) : u.enclosing ≠ none := by
  have hpos := length_pos hf hu
  obtain ⟨_, o, m, hm⟩ := exists_boundAt hf hu
  obtain ⟨_, _, o', _, hat⟩ := exists_located_of_mem hf hd
  obtain rfl : o' = o := Option.some.inj (hat.outline_eq.symm.trans (hunit ▸ hm.outline_eq))
  intro hnone
  rw [hm.boundFrom.enclosing_eq, Option.map_eq_none_iff] at hnone
  rw [hm.boundFrom.length_eq] at hpos
  rw [hm.boundFrom.offset_eq] at hin
  have hdis := hm.block.mention_outside trivial (by simp) hm.mem hnone d
    (List.mem_of_getElem? hat.declaration_eq)
  exact Set.disjoint_left.mp hdis ⟨Nat.le_refl _, by omega⟩ hin

lemma role_ne_declaration (hu : u ∈ (ofTrees files).uses) : u.role ≠ .declaration := by
  obtain ⟨_, _, m, hm⟩ := exists_boundAt hf hu
  obtain ⟨_, -, hin⟩ := hm.block.mention_owned hm.mem
  rcases hm.boundFrom.role_eq with h | h
  · exact h ▸ hin.role_ne
  · exact h ▸ by decide

lemma reference_found (hu : u ∈ (ofTrees files).uses) (hd : d ∈ (ofTrees files).declarations)
    (hunit : d.unit = u.unit) (hstart : d.start ≤ u.offset) (hstop : u.offset + u.length ≤ d.stop)
    {e : Element} (he : e.id ∈ u.targets) (caseSensitive : Bool) :
    ∃ hit ∈ (ofTrees files).search ⟨.element e, .references, caseSensitive⟩ .project,
      (ofTrees files).useHit? u = some hit := by
  have hpos := length_pos hf hu
  obtain ⟨j, hj⟩ := Option.ne_none_iff_exists'.mp
    (enclosing_of_inside hf hu hd hunit ⟨hstart, by omega⟩)
  obtain ⟨d', hd', -⟩ := enclosing_valid hf trivial hu hj
  obtain ⟨hit, hhit⟩ : ∃ hit, (ofTrees files).useHit? u = some hit := by simp [useHit?, hj, hd']
  refine ⟨hit, (mem_search_uses (by decide)).mpr ⟨u, hu, ?_, rfl, he, hhit⟩, hhit⟩
  simpa [Category.accepts] using role_ne_declaration hf hu

end

theorem search_agrees_with_select (files : List ParsedFile) (hpaths : DistinctPaths files)
    (hg : ∀ f ∈ files, f.tree.Grammatical) : (ofTrees files).Agrees := by
  have hf := fit_of_grammatical hg
  constructor
  case selected_of_found =>
    intro d hd category scope caseSensitive hc hit hhit
    obtain ⟨u, hu, -, -, ht, hh⟩ := (mem_search_uses hc).mp hhit
    obtain ⟨hunit, hoffset, hlength⟩ := useHit?_eq_some hh
    obtain ⟨f, _, _, hm⟩ := exists_boundAt hf hu
    rw [hunit, hoffset, hlength, unitRef_eq hm.file_eq]
    refine mem_select_of_use (unitAt?_eq hpaths hm.file_eq) ?_ hd ht
    exact mem_usesAround.mpr ⟨hu, rfl, Nat.le_refl _, Nat.le_refl _⟩
  case name_found =>
    intro d hd
    obtain ⟨hname, f, hfile, href⟩ := nameOffset_eq hf hd
    refine ⟨f.ref, d.nameStart, href, hname, fun scope caseSensitive hs => ?_,
      fun offset length hl hc => select_name hf hpaths hfile hd hl hc⟩
    refine mem_search_declarations.mpr ⟨d, hd, hs, rfl, ?_⟩
    simp [declarationHit, hname, unitRef_eq hfile]
  case found_of_selected =>
    intro path offset length e he hdecl
    cases hunit : (ofTrees files).unitAt? path with
    | none => simp [select, hunit] at he
    | some unit =>
      rw [select_eq hunit] at he
      dsimp only at he
      split at he
      · right
        obtain ⟨u, hu, het⟩ := List.mem_flatMap.mp he
        obtain ⟨t, ht, hte⟩ := List.mem_filterMap.mp het
        obtain ⟨huses, rfl, hc⟩ := mem_usesAround.mp hu
        obtain rfl := id_of_element? hte
        refine ⟨u, huses, ht, rfl, hc, ?_⟩
        rintro ⟨d, hd, hdu, hstart, hstop⟩ caseSensitive
        obtain ⟨hit, hmem, hhit⟩ := reference_found hf huses hd hdu hstart hstop ht caseSensitive
        obtain ⟨hunit', hoffset, hlength⟩ := useHit?_eq_some hhit
        exact ⟨hit, hmem, hunit' ▸ same_of_unitAt? hunit, hoffset, hlength⟩
      · left
        obtain ⟨d, hfind, rfl⟩ := Option.map_eq_some_iff.mp (Option.mem_toList.mp he)
        have hfits := List.find?_some hfind
        have hd := List.mem_of_find?_eq_some hfind
        have hname := (nameOffset_eq hf hd).1
        simp only [hname, Option.any_some, Bool.and_eq_true, beq_iff_eq, decide_eq_true_eq] at hfits
        exact ⟨d, hd, rfl, congrArg some hfits.1.symm, d.nameStart, hname, hfits.2⟩

theorem search_agrees_with_select_twoFields : (ofTrees [twoFields]).Agrees ∧
    ((ofTrees [twoFields]).select "A.java" 25 1).map (·.id) = ["A#x"] :=
  ⟨search_agrees_with_select [twoFields] (by decide) (by decide), by decide +kernel⟩

end JavaAtlas.Index
