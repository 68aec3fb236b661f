import JavaAtlas.Proofs.IndexConsistency
import JavaAtlas.Proofs.MovedLexicons
import JavaAtlas.Proofs.SupertypeSources
import Mathlib.Data.List.Nodup

/-! The files of a project in two orders. Each file declares and mentions the same wherever it stands,
so both indexes hold the same files' worth of declarations and uses, and what all comes from one file
they hold in the same order. -/

namespace JavaAtlas

section Lists

variable {α β : Type} {l l' : List α} {g : α → List β}

lemma zipIdx_eq_map_idxOf [BEq α] [LawfulBEq α] (h : l.Nodup) :
    l.zipIdx = l.map fun x => (x, l.idxOf x) := by
  refine List.ext_getElem (by simp) fun i hi hi' => ?_
  have hlt : i < l.length := by simpa using hi
  simp [h.idxOf_getElem i hlt]

/-- When one member at most contributes anything, the order does not matter. -/
lemma flatMap_eq_of_perm (hp : l.Perm l') (hn : l.Nodup)
    (hone : ∀ x ∈ l, ∀ y ∈ l, g x ≠ [] → g y ≠ [] → x = y) : l'.flatMap g = l.flatMap g := by
  have hfilter (l : List α) : l.flatMap g = (l.filter fun x => !(g x).isEmpty).flatMap g := by
    induction l with
    | nil => rfl
    | cons x l ih =>
      rw [List.flatMap_cons, ih]
      cases hx : g x with
      | nil => simp [hx]
      | cons b bs => simp [hx]
  have hmem {x : α} (hx : x ∈ l.filter fun x => !(g x).isEmpty) : x ∈ l ∧ g x ≠ [] := by
    simpa using hx
  rw [hfilter l, hfilter l']
  have hperm := hp.filter fun x => !(g x).isEmpty
  have hnodup := hn.filter fun x => !(g x).isEmpty
  generalize hl : l.filter (fun x => !(g x).isEmpty) = ones at *
  generalize l'.filter (fun x => !(g x).isEmpty) = ones' at *
  rcases ones with _ | ⟨x, _ | ⟨y, rest⟩⟩
  · rw [hperm.symm.eq_nil]
  · rw [List.perm_singleton.mp hperm.symm]
  · obtain ⟨hx, hgx⟩ := hmem (x := x) (by simp)
    obtain ⟨hy, hgy⟩ := hmem (x := y) (by simp)
    simp [hone x hx y hy hgx hgy] at hnodup

/-- When only one member contributes anything, that is all there is. -/
lemma flatMap_eq_of_only {x : α} (hn : l.Nodup) (hx : x ∈ l)
    (honly : ∀ y ∈ l, y ≠ x → g y = []) : l.flatMap g = g x := by
  obtain ⟨before, after, rfl⟩ := List.append_of_mem hx
  have hne : ∀ y ∈ before ++ after, y ≠ x := by
    rintro y hy rfl
    have hdup := (List.nodup_middle.mp hn)
    exact (List.nodup_cons.mp hdup).1 hy
  have hnone {ys : List α} (hys : ∀ y ∈ ys, y ∈ before ++ after) : ys.flatMap g = [] := by
    refine List.flatMap_eq_nil_iff.mpr fun y hy => honly y ?_ (hne y (hys y hy))
    rcases List.mem_append.mp (hys y hy) with h | h <;> simp [h]
  rw [List.flatMap_append, List.flatMap_cons, hnone fun y hy => List.mem_append_left _ hy,
    hnone fun y hy => List.mem_append_right _ hy, List.nil_append, List.append_nil]

end Lists

namespace Index

open Binding Outline

/-- The outline of a file at a position of the project. -/
def outlineAt (i : Nat) (file : String × String) : Outline := .ofSource ⟨file.1⟩ i file.2

def outlinesAt (files : List (String × String)) : List Outline :=
  files.zipIdx.map fun (file, i) => outlineAt i file

variable {files files' : List (String × String)} {x y : String × String} {i k : Nat}
variable {d e : Declaration}

lemma ofFiles_eq (files : List (String × String)) : ofFiles files = ofOutlines (outlinesAt files) := rfl

section OneFile

lemma outlineAt_block (i : Nat) (x : String × String) : Block False False ⟨x.1⟩ i none
    (Syntax.parse x.2.toList).bytes 0 (outlineAt i x).declarations (outlineAt i x).mentions :=
  ofTree_block ⟨False.elim, False.elim⟩ _ _ _

lemma unit_of_mem (h : d ∈ (outlineAt i x).declarations) : d.unit = i := by
  obtain ⟨k, hk⟩ := List.mem_iff_getElem?.mp h
  obtain ⟨o, -, hd⟩ := (outlineAt_block i x).declaration_owned hk
  exact hd.unit_eq

lemma type_of_member (h : d ∈ (outlineAt i x).declarations) {type : String}
    (htype : d.element.declaringType = some type) :
    ∃ e ∈ (outlineAt i x).declarations, e.element.kind.isType = true ∧ e.id = type := by
  obtain ⟨k, hk⟩ := List.mem_iff_getElem?.mp h
  obtain ⟨o, -, hd⟩ := (outlineAt_block i x).declaration_owned hk
  rw [hd.declaringType_eq] at htype
  obtain ⟨j, e, -, he, hkind, hid⟩ :=
    ((outlineAt_block i x).inner_nested hk).1.declared type (List.mem_of_getLast? htype)
  exact ⟨e, List.mem_of_getElem? he, hkind, hid⟩

lemma enclosing_lt {m : Mention} (h : m ∈ (outlineAt i x).mentions) {j : Nat}
    (hj : m.enclosing = some j) : j < (outlineAt i x).declarations.length := by
  obtain ⟨o, ho, hin⟩ := (outlineAt_block i x).mention_owned h
  rw [hin.enclosing_eq] at hj
  rcases ho with rfl | ⟨k, e, hk, -, rfl⟩
  · cases hj
  · obtain rfl : k = j := by simpa using hj
    exact hk

lemma mentions_outlineAt (i k : Nat) (x : String × String) :
    (outlineAt k x).mentions = (outlineAt i x).mentions := mentions_ofSource ⟨x.1⟩ i k x.2

lemma scope_outlineAt (i k : Nat) (x : String × String) :
    (outlineAt k x).package = (outlineAt i x).package ∧
      (outlineAt k x).imports = (outlineAt i x).imports := by
  have h := ofSource_alike ⟨x.1⟩ i k x.2
  exact ⟨h.package_eq.symm, (h.imports_eq (renumbering_whole ⟨x.1⟩ i k x.2).noGap).symm⟩

lemma declarations_outlineAt (i k : Nat) (x : String × String) :
    (outlineAt k x).declarations = (outlineAt i x).declarations.map (·.inUnit k) :=
  declarations_ofSource ⟨x.1⟩ i k x.2

end OneFile

section Nodup

variable (hn : files.Nodup)
include hn

lemma outlinesAt_eq : outlinesAt files = files.map fun x => outlineAt (files.idxOf x) x := by
  rw [outlinesAt, zipIdx_eq_map_idxOf hn, List.map_map]
  rfl

lemma declarations_eq : (ofFiles files).declarations =
    files.flatMap fun x => (outlineAt (files.idxOf x) x).declarations := by
  rw [ofFiles_eq, ofOutlines, outlinesAt_eq hn, List.flatMap_map]

lemma zipIdx_outlinesAt : (outlinesAt files).zipIdx =
    files.map fun x => (outlineAt (files.idxOf x) x, files.idxOf x) := by
  rw [outlinesAt_eq hn, List.zipIdx_map, zipIdx_eq_map_idxOf hn, List.map_map]
  rfl

end Nodup

/-- What a file of the project declares. -/
def declaredIn (files : List (String × String)) (x : String × String) : List Declaration :=
  (outlineAt (files.idxOf x) x).declarations

/-- The position of the first declaration of a file. -/
def startIn (files : List (String × String)) (x : String × String) : Nat :=
  startOf (outlinesAt files) (files.idxOf x)

/-- What a file of the project uses. -/
def usedIn (files : List (String × String)) (x : String × String) : List Use :=
  (outlineAt (files.idxOf x) x).mentions.filterMap
    ((lexiconOf (outlinesAt files)).bind? · (files.idxOf x) (startIn files x))

section Nodup

variable (hn : files.Nodup)
include hn

lemma uses_eq : (ofFiles files).uses = files.flatMap (usedIn files) := by
  rw [ofFiles_eq, uses_ofOutlines, zipIdx_outlinesAt hn, List.flatMap_map]
  rfl

lemma getElem?_outlinesAt (hx : x ∈ files) :
    (outlinesAt files)[files.idxOf x]? = some (outlineAt (files.idxOf x) x) := by
  rw [outlinesAt_eq hn, List.getElem?_map, List.getElem?_idxOf hx]
  rfl

lemma declarations_startIn (hx : x ∈ files) (hk : (declaredIn files x)[k]? = some d) :
    (ofFiles files).declarations[startIn files x + k]? = some d :=
  getElem?_startOf (getElem?_outlinesAt hn hx) hk

lemma unitRef_idxOf (hx : x ∈ files) : (ofFiles files).unitRef (files.idxOf x) = ⟨x.1⟩ := by
  have hunit : (ofFiles files).units[files.idxOf x]? =
      some ⟨⟨x.1⟩, x.2, (outlineAt (files.idxOf x) x).package⟩ := by
    rw [ofFiles_eq, ofOutlines, List.getElem?_map, getElem?_outlinesAt hn hx]
    rfl
  rw [unitRef, hunit]
  rfl

end Nodup

/-- No type is declared in two files. -/
def TypesApart (index : Index) : Prop :=
  ∀ d ∈ index.declarations, ∀ e ∈ index.declarations, d.element.kind.isType = true →
    e.element.kind.isType = true → d.id = e.id → d.unit = e.unit

instance (index : Index) : Decidable index.TypesApart :=
  inferInstanceAs (Decidable (∀ _ ∈ index.declarations, _))

section Apart

variable (hn : files.Nodup) (ht : (ofFiles files).TypesApart)
include hn ht

lemma file_eq_of_type (hx : x ∈ files) (hy : y ∈ files) (hd : d ∈ declaredIn files x)
    (he : e ∈ declaredIn files y) (hk : d.element.kind.isType = true)
    (hk' : e.element.kind.isType = true) (hid : d.id = e.id) : x = y := by
  have hmem {x : String × String} {d : Declaration} (hx : x ∈ files)
      (hd : d ∈ declaredIn files x) : d ∈ (ofFiles files).declarations := by
    rw [declarations_eq hn]
    exact List.mem_flatMap.mpr ⟨x, hx, hd⟩
  have hunit := ht d (hmem hx hd) e (hmem hy he) hk hk' hid
  rw [unit_of_mem hd, unit_of_mem he] at hunit
  exact (List.idxOf_inj hx).mp hunit

/-- The members of a type are declared where the type is. -/
lemma file_eq_of_owner (hx : x ∈ files) (hy : y ∈ files) (hd : d ∈ declaredIn files x)
    (he : e ∈ declaredIn files y) {type : String}
    (htype : d.element.declaringType = some type)
    (htype' : e.element.declaringType = some type) : x = y := by
  obtain ⟨d', hd', hkind, rfl⟩ := type_of_member hd htype
  obtain ⟨e', he', hkind', hid⟩ := type_of_member he htype'
  exact file_eq_of_type hn ht hx hy hd' he' hkind hkind' hid.symm

lemma file_eq_of_id (hx : x ∈ files) (hy : y ∈ files) (hd : d ∈ declaredIn files x)
    (he : e ∈ declaredIn files y) (hid : d.id = e.id) : x = y := by
  have hmarked := marked_of_mem hd
  rcases hmarked.same_type (marked_of_mem he) hid with ⟨hk, hk'⟩ | ⟨hk, hk', htype⟩
  · exact file_eq_of_type hn ht hx hy hd he hk hk' hid
  · obtain ⟨type, tail, hdeclaring, -⟩ := hmarked.member hk
    exact file_eq_of_owner hn ht hx hy hd he hdeclaring (htype ▸ hdeclaring)

end Apart

/-- Where a file of the one project stands in the other. -/
def shift (files files' : List (String × String)) (i : Nat) : Nat :=
  ((files[i]?).map files'.idxOf).getD i

lemma shift_idxOf (hx : x ∈ files) : shift files files' (files.idxOf x) = files'.idxOf x := by
  rw [shift, List.getElem?_idxOf hx]
  rfl

section Perm

variable (hp : files.Perm files') (hn : files.Nodup)

lemma declaredIn_eq (hx : x ∈ files) :
    declaredIn files' x = (declaredIn files x).map (·.moved (shift files files')) := by
  rw [declaredIn, declaredIn, declarations_outlineAt (files.idxOf x)]
  refine List.map_congr_left fun d hd => ?_
  rw [Declaration.moved, unit_of_mem hd, shift_idxOf hx]

include hp hn

lemma declarations_perm : (ofFiles files').declarations.Perm
    ((ofFiles files).declarations.map (·.moved (shift files files'))) := by
  rw [declarations_eq hn, declarations_eq (hp.nodup_iff.mp hn), List.map_flatMap]
  have hcongr : files.flatMap (declaredIn files') =
      files.flatMap fun x => (declaredIn files x).map (·.moved (shift files files')) :=
    List.flatMap_congr fun x hx => declaredIn_eq hx
  exact (hp.symm.flatMap_right (declaredIn files')).trans (by rw [hcongr]; rfl)

/-- Declarations that come from one file keep their order. -/
lemma filter_declarations_eq {test : Declaration → Bool}
    (htest : ∀ d, test (d.moved (shift files files')) = test d)
    (hone : ∀ x ∈ files, ∀ y ∈ files, ∀ d ∈ declaredIn files x, ∀ e ∈ declaredIn files y,
      test d = true → test e = true → x = y) :
    (ofFiles files').declarations.filter test =
      ((ofFiles files).declarations.filter test).map (·.moved (shift files files')) := by
  have hfile (x : String × String) (hx : x ∈ files) : (declaredIn files' x).filter test =
      ((declaredIn files x).filter test).map (·.moved (shift files files')) := by
    rw [declaredIn_eq hx, List.filter_map]
    congr 2
    exact funext htest
  rw [declarations_eq hn, declarations_eq (hp.nodup_iff.mp hn), List.filter_flatMap,
    List.filter_flatMap, List.map_flatMap]
  change files'.flatMap (fun x => (declaredIn files' x).filter test) = _
  rw [flatMap_eq_of_perm hp hn]
  · exact List.flatMap_congr hfile
  · intro x hx y hy hgx hgy
    rw [hfile x hx] at hgx
    rw [hfile y hy] at hgy
    obtain ⟨d, hd⟩ := List.exists_mem_of_ne_nil ((declaredIn files x).filter test)
      fun h => hgx (by rw [h]; rfl)
    obtain ⟨e, he⟩ := List.exists_mem_of_ne_nil ((declaredIn files y).filter test)
      fun h => hgy (by rw [h]; rfl)
    obtain ⟨hd, htd⟩ := List.mem_filter.mp hd
    obtain ⟨he, hte⟩ := List.mem_filter.mp he
    exact hone x hx y hy d hd e he htd hte

end Perm

end Index

end JavaAtlas
