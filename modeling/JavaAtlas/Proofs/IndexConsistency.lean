import JavaAtlas.Proofs.IndexUses
import JavaAtlas.Proofs.OutlineNesting

/-! The index of files whose trees are well formed is consistent: chains name types that were declared
before, and whatever a use or a declaration points to is there. -/

namespace JavaAtlas.Index

open Binding Outline

structure ParsedFile where
  ref : UnitRef
  source : String
  tree : Syntax.Node

def outlinesOf (files : List ParsedFile) : List Outline :=
  files.zipIdx.map fun (f, unit) => Outline.ofTree f.ref unit f.source f.tree

def ofTrees (files : List ParsedFile) : Index := ofOutlines (outlinesOf files)

lemma ofFiles_eq_ofTrees (files : List (String × String)) :
    ofFiles files = ofTrees (files.map fun f => ⟨⟨f.1⟩, f.2, Syntax.parse f.2.toList⟩) := by
  rw [ofFiles, ofTrees, outlinesOf, List.zipIdx_map, List.map_map]
  rfl

variable {files : List ParsedFile} {f : ParsedFile} {o : Outline} {d : Declaration} {u : Use}
variable {tidy strict : Prop} {i k : Nat}

lemma getElem?_outlinesOf : (outlinesOf files)[i]? = some o ↔
    ∃ f, files[i]? = some f ∧ Outline.ofTree f.ref i f.source f.tree = o := by
  simp [outlinesOf]

def Fit (tidy strict : Prop) (files : List ParsedFile) : Prop :=
  ∀ f ∈ files, Fits tidy strict f.tree

lemma fit_of_grammatical (hg : ∀ f ∈ files, f.tree.Grammatical) : Fit True True files :=
  fun f hm => .of_grammatical (hg f hm)

lemma outline_block (hf : Fit tidy strict files) (h : (outlinesOf files)[i]? = some o) :
    ∃ f, files[i]? = some f ∧ o.unit = f.ref ∧
      Block tidy strict f.ref i none f.tree.bytes 0 o.declarations o.mentions := by
  obtain ⟨f, hi, rfl⟩ := getElem?_outlinesOf.mp h
  exact ⟨f, hi, rfl, ofTree_block (hf f (List.mem_of_getElem? hi)) f.ref i f.source⟩

structure Located (tidy strict : Prop) (files : List ParsedFile) (j : Nat) (d : Declaration)
    (f : ParsedFile) (o : Outline) (k : Nat) : Prop where
  file_eq : files[d.unit]? = some f
  outline_eq : (outlinesOf files)[d.unit]? = some o
  block : Block tidy strict f.ref d.unit none f.tree.bytes 0 o.declarations o.mentions
  declaration_eq : o.declarations[k]? = some d
  position_eq : j = startOf (outlinesOf files) d.unit + k

lemma exists_located (hf : Fit tidy strict files) {j : Nat}
    (h : (ofTrees files).declarations[j]? = some d) :
    ∃ f o k, Located tidy strict files j d f o k := by
  obtain ⟨i, o, k, ho, hk, hj⟩ := exists_of_getElem? h
  obtain ⟨f, hi, -, hb⟩ := outline_block hf ho
  obtain ⟨_, -, hd⟩ := hb.declaration_owned hk
  obtain rfl := hd.unit_eq
  exact ⟨f, o, k, hi, ho, hb, hk, hj⟩

lemma exists_located_of_mem (hf : Fit tidy strict files) (h : d ∈ (ofTrees files).declarations) :
    ∃ j f o k, Located tidy strict files j d f o k := by
  obtain ⟨j, hj⟩ := List.mem_iff_getElem?.mp h
  exact ⟨j, exists_located hf hj⟩

lemma declarations_getElem? (ho : (outlinesOf files)[i]? = some o)
    (hk : o.declarations[k]? = some d) :
    (ofTrees files).declarations[startOf (outlinesOf files) i + k]? = some d :=
  getElem?_startOf ho hk

structure BoundAt (tidy strict : Prop) (files : List ParsedFile) (u : Use) (f : ParsedFile)
    (o : Outline) (m : Mention) : Prop where
  file_eq : files[u.unit]? = some f
  outline_eq : (outlinesOf files)[u.unit]? = some o
  block : Block tidy strict f.ref u.unit none f.tree.bytes 0 o.declarations o.mentions
  mem : m ∈ o.mentions
  boundFrom : (lexiconOf (outlinesOf files)).BoundFrom m u.unit
    (startOf (outlinesOf files) u.unit) u

lemma exists_boundAt (hf : Fit tidy strict files) (h : u ∈ (ofTrees files).uses) :
    ∃ f o m, BoundAt tidy strict files u f o m := by
  obtain ⟨i, o, m, ho, hm, hb⟩ := mem_uses_iff.mp h
  have hu := Lexicon.bind?_boundFrom _ hb
  obtain rfl := hu.unit_eq
  obtain ⟨f, hi, -, hblock⟩ := outline_block hf ho
  exact ⟨f, o, m, hi, ho, hblock, hm, hu⟩

/-- What holds of every index: positions point to declarations and to files that are there, and the
chains of a file come from that file. -/
structure Consistent (index : Index) : Prop where
  chain_declared : ∀ (j : Nat) (d : Declaration), index.declarations[j]? = some d →
    ∀ t ∈ d.chain, ∃ (i : Nat) (e : Declaration), i < j ∧ index.declarations[i]? = some e ∧
      e.unit = d.unit ∧ e.element.kind.isType = true ∧ e.id = t
  chain_linked : ∀ d ∈ index.declarations,
    d.chain.IsChain fun outer t => ∃ name, t = outer ++ "." ++ name
  declaringType_eq : ∀ d ∈ index.declarations, d.element.declaringType = d.chain.getLast?
  enclosing_valid : ∀ u ∈ index.uses, ∀ j, u.enclosing = some j → ∃ d,
    index.declarations[j]? = some d ∧ d.unit = u.unit ∧ d.start ≤ u.offset ∧
      u.offset + u.length ≤ d.stop ∧
      u.enclosingType = if d.element.kind.isType then some d.id else d.element.declaringType
  enclosingType_none : ∀ u ∈ index.uses, u.enclosingType = none ↔ u.enclosing = none
  targets_declared : ∀ u ∈ index.uses, u.family ≠ .type → ∀ t ∈ u.targets,
    ∃ d ∈ index.declarations, d.id = t ∧ u.family.accepts d.element.kind = true
  declaration_unit : ∀ d ∈ index.declarations, d.unit < index.units.length
  use_unit : ∀ u ∈ index.uses, u.unit < index.units.length
  useHit_isSome : ∀ u ∈ index.uses, (index.useHit? u).isSome = u.enclosing.isSome
  path_unit : ∀ path unit, index.unitAt? path = some unit → unit < index.units.length
  first_position : ∀ id j, index.declarations.findIdx? (·.id == id) = some j →
    j < index.declarations.length

section

variable (hf : Fit tidy strict files)
include hf

lemma chain_declared {j : Nat} (h : (ofTrees files).declarations[j]? = some d) {t : String}
    (ht : t ∈ d.chain) : ∃ (i : Nat) (e : Declaration), i < j ∧
      (ofTrees files).declarations[i]? = some e ∧ e.unit = d.unit ∧
      e.element.kind.isType = true ∧ e.id = t := by
  obtain ⟨f, o, k, hd⟩ := exists_located hf h
  obtain ⟨k', e, hk', he, hkind, hid⟩ := (hd.block.inner_nested hd.declaration_eq).1.declared t ht
  obtain ⟨_, -, hin⟩ := hd.block.declaration_owned he
  have hj := hd.position_eq
  exact ⟨_, e, by omega, declarations_getElem? hd.outline_eq he, hin.unit_eq, hkind, hid⟩

lemma enclosing_valid (ht : tidy) (hu : u ∈ (ofTrees files).uses) {j : Nat}
    (hj : u.enclosing = some j) : ∃ d, (ofTrees files).declarations[j]? = some d ∧
      d.unit = u.unit ∧ d.start ≤ u.offset ∧ u.offset + u.length ≤ d.stop ∧
      u.enclosingType = if d.element.kind.isType then some d.id else d.element.declaringType := by
  obtain ⟨f, o, m, hm⟩ := exists_boundAt hf hu
  obtain ⟨owner, ho, hin⟩ := hm.block.mention_owned hm.mem
  have henc := hm.boundFrom.enclosing_eq
  rw [hj, hin.enclosing_eq] at henc
  rcases ho with rfl | ⟨k, e, -, he, rfl⟩
  · simp at henc
  · obtain ⟨_, -, hd⟩ := hm.block.declaration_owned he
    obtain rfl : j = startOf (outlinesOf files) u.unit + k := by
      simp at henc
      omega
    have hw := hin.within ht _ rfl
    rw [hm.boundFrom.offset_eq, hm.boundFrom.length_eq, hm.boundFrom.enclosingType_eq,
      hin.chain_eq]
    refine ⟨e, declarations_getElem? hm.outline_eq he, hd.unit_eq, hw.1, hw.2, ?_⟩
    rw [hd.declaringType_eq, innerChain, Declaration.inner]
    split
    · exact List.getLast?_concat
    · rfl

lemma enclosingType_none_iff (hu : u ∈ (ofTrees files).uses) :
    u.enclosingType = none ↔ u.enclosing = none := by
  obtain ⟨f, o, m, hm⟩ := exists_boundAt hf hu
  obtain ⟨owner, ho, hin⟩ := hm.block.mention_owned hm.mem
  rw [hm.boundFrom.enclosingType_eq, hm.boundFrom.enclosing_eq, hin.chain_eq, hin.enclosing_eq]
  rcases ho with rfl | ⟨k, e, -, he, rfl⟩
  · simp [innerChain]
  · obtain ⟨_, -, hd⟩ := hm.block.declaration_owned he
    simp only [innerChain, Declaration.inner, Option.map_some, reduceCtorEq, iff_false]
    split
    · simp
    · next hk => simpa using hd.chain_ne (by simpa using hk)

end

lemma units_length (files : List ParsedFile) : (ofTrees files).units.length = files.length := by
  simp [ofTrees, ofOutlines, outlinesOf]

lemma unitAt?_lt {index : Index} {path : String} {unit : Nat} (h : index.unitAt? path = some unit) :
    unit < index.units.length := by
  obtain ⟨⟨u, i⟩, hu, rfl⟩ := Option.map_eq_some_iff.mp h
  have hm := List.mem_reverse.mp (List.mem_of_find?_eq_some hu)
  exact (List.getElem?_eq_some_iff.mp (List.mem_zipIdx_iff_getElem?.mp hm)).1

theorem ofTrees_consistent (files : List ParsedFile) (h : ∀ f ∈ files, f.tree.WellFormed) :
    (ofTrees files).Consistent := by
  have hf : Fit True False files := fun f hm => ⟨fun _ => h f hm, False.elim⟩
  have henc {u : Use} (hu : u ∈ (ofTrees files).uses) {j : Nat} (hj : u.enclosing = some j) :=
    enclosing_valid hf trivial hu hj
  constructor
  case chain_declared =>
    intro j d hj t ht
    exact chain_declared hf hj ht
  case chain_linked =>
    intro d hd
    obtain ⟨_, _, _, _, hd⟩ := exists_located_of_mem hf hd
    exact (hd.block.inner_nested hd.declaration_eq).1.linked
  case declaringType_eq =>
    intro d hd
    obtain ⟨_, _, _, _, hd⟩ := exists_located_of_mem hf hd
    obtain ⟨_, -, hin⟩ := hd.block.declaration_owned hd.declaration_eq
    exact hin.declaringType_eq
  case enclosing_valid =>
    intro u hu j hj
    exact henc hu hj
  case enclosingType_none =>
    intro u hu
    exact enclosingType_none_iff hf hu
  case targets_declared =>
    intro u hu hne
    obtain ⟨_, _, _, hm⟩ := exists_boundAt hf hu
    exact hm.boundFrom.targets_declared hne
  case declaration_unit =>
    intro d hd
    obtain ⟨_, _, _, _, hd⟩ := exists_located_of_mem hf hd
    rw [units_length]
    exact (List.getElem?_eq_some_iff.mp hd.file_eq).1
  case use_unit =>
    intro u hu
    obtain ⟨_, _, _, hm⟩ := exists_boundAt hf hu
    rw [units_length]
    exact (List.getElem?_eq_some_iff.mp hm.file_eq).1
  case useHit_isSome =>
    intro u hu
    cases hj : u.enclosing with
    | none => simp [useHit?, hj]
    | some j =>
      obtain ⟨d, hd, -⟩ := henc hu hj
      simp [useHit?, hj, hd]
  case path_unit =>
    intro path unit hu
    exact unitAt?_lt hu
  case first_position =>
    intro id j hj
    exact (List.findIdx?_eq_some_iff_getElem.mp hj).1

/-- The file `class A { int x; int y = x; }`. -/
def twoFields : ParsedFile where
  ref := ⟨"A.java"⟩
  source := "class A { int x; int y = x; }"
  tree := .mk .program none 0 29 [.mk .classDeclaration none 0 29 [
    .mk .mark none 0 5 [], .mk .identifier (some .name) 6 7 [],
    .mk .classBody none 8 29 [.mk .mark none 8 9 [],
      .mk .fieldDeclaration none 10 16 [.mk .primitiveType (some .type) 10 13 [],
        .mk .variableDeclarator none 14 15 [.mk .identifier (some .name) 14 15 []],
        .mk .mark none 15 16 []],
      .mk .fieldDeclaration none 17 27 [.mk .primitiveType (some .type) 17 20 [],
        .mk .variableDeclarator none 21 26 [.mk .identifier (some .name) 21 22 [],
          .mk .mark none 23 24 [], .mk .identifier (some .value) 25 26 []],
        .mk .mark none 26 27 []],
      .mk .mark none 28 29 []]]]

theorem ofTrees_consistent_twoFields : (ofTrees [twoFields]).Consistent ∧
    (ofTrees [twoFields]).uses.map (·.enclosing) = [some 2] :=
  ⟨ofTrees_consistent [twoFields] (by decide), by decide +kernel⟩

end JavaAtlas.Index
