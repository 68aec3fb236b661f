import JavaAtlas.Proofs.IndexUses
import Mathlib.Data.List.Induction

/-! Which declaration the supertypes of a type come from. A type may be declared more than once: the
first declaration is the one that is found by its identifier, and the last one gives the supertypes. -/

namespace JavaAtlas.Index

open Binding Outline

variable {outlines : List Outline} {d : Declaration} {id : String}

def scopesOf (outlines : List Outline) : List UnitScope :=
  outlines.map fun o => ⟨o.package, o.imports⟩

def typesNamed (declarations : List Declaration) (id : String) : List Declaration :=
  declarations.filter fun d => d.element.kind.isType && d.id == id

/-- The supertypes of a declared type as its own file means them. -/
def ownSupers (outlines : List Outline) (d : Declaration) : List TypeRef :=
  Lexicon.supertypesIn (scopesOf outlines) (outlines.flatMap (·.declarations)) d

/-- The element that is shown for a supertype. -/
def superElement? (index : Index) : TypeRef → Option Element
  | .unresolved name => some (.binaryType name)
  | .project id | .external id => index.element? id

lemma mem_typesNamed {ds : List Declaration} :
    d ∈ typesNamed ds id ↔ d ∈ ds ∧ d.element.kind.isType = true ∧ d.id = id := by
  simp [typesNamed]

lemma lookup_reverse {β : Type} (v : Declaration → β) (ds : List Declaration) (id : String) :
    ((ds.map fun d => (d.id, v d)).reverse).lookup id =
      (ds.filter (·.id == id)).getLast?.map v := by
  induction ds using List.reverseRecOn with
  | nil => rfl
  | append_singleton ds d ih =>
    rw [List.map_append, List.reverse_append, List.filter_append]
    by_cases h : d.id = id
    · simp [h]
    · have hb : (id == d.id) = false := by simpa using Ne.symm h
      simp [List.lookup_cons, ih, h, hb]

lemma superRefs_eq (outlines : List Outline) (id : String) :
    (ofOutlines outlines).superRefs id =
      ((typesNamed (ofOutlines outlines).declarations id).getLast?.map
        (ownSupers outlines)).getD [] := by
  change (List.lookup id (List.map (fun d => (d.id, ownSupers outlines d)) _).reverse).getD [] = _
  rw [lookup_reverse, List.filter_filter, typesNamed]
  simp only [Bool.and_comm]
  rfl

lemma directSupertypes_eq (index : Index) (id : String) :
    index.directSupertypes id = (index.superRefs id).filterMap index.superElement? := by
  rw [directSupertypes]
  congr 1
  funext ref
  cases ref <;> rfl

lemma id_of_declaration? {index : Index} (h : index.declaration? id = some d) : d.id = id := by
  have hid := List.find?_some h
  exact beq_iff_eq.mp hid

lemma mem_of_declaration? {index : Index} (h : index.declaration? id = some d) :
    d ∈ index.declarations := List.mem_of_find?_eq_some h

/-- What is found by an identifier is the first of the types that have it. -/
lemma head?_typesNamed {index : Index} (hd : index.declaration? id = some d)
    (ht : d.element.kind.isType = true) : (typesNamed index.declarations id).head? = some d := by
  obtain ⟨hid, before, after, hs, hbefore⟩ := List.find?_eq_some_iff_append.mp hd
  have hnone : typesNamed before id = [] := by
    apply List.filter_eq_nil_iff.mpr
    intro e he
    simpa using fun _ => by simpa using hbefore e he
  have hself : typesNamed (d :: after) id = d :: typesNamed after id := by
    apply List.filter_cons_of_pos
    simpa [ht] using hid
  rw [hs, typesNamed, List.filter_append, ← typesNamed, ← typesNamed, hnone, hself]
  rfl

/-- A type may be declared more than once. The declaration that is found by its identifier is the
first one, and the supertypes are those of the last one, as the file of that declaration means them:
they belong together when the type is declared once. -/
theorem directSupertypes_of_last_declaration (outlines : List Outline)
    (hd : (ofOutlines outlines).declaration? id = some d) (ht : d.element.kind.isType = true) :
    (typesNamed (ofOutlines outlines).declarations id).head? = some d ∧
    ∃ last, (typesNamed (ofOutlines outlines).declarations id).getLast? = some last ∧
      (ofOutlines outlines).superRefs id = ownSupers outlines last ∧
      (ofOutlines outlines).directSupertypes id =
        (ownSupers outlines last).filterMap (ofOutlines outlines).superElement? ∧
      ((typesNamed (ofOutlines outlines).declarations id).length = 1 →
        (ofOutlines outlines).superRefs id = ownSupers outlines d) := by
  have hhead := head?_typesNamed hd ht
  generalize hds : typesNamed (ofOutlines outlines).declarations id = ds at hhead
  obtain ⟨others, rfl⟩ := List.head?_eq_some_iff.mp hhead
  have hrefs : (ofOutlines outlines).superRefs id =
      ownSupers outlines ((d :: others).getLast (by simp)) := by
    rw [superRefs_eq, hds, List.getLast?_eq_some_getLast (by simp)]
    rfl
  refine ⟨rfl, _, List.getLast?_eq_some_getLast (by simp), hrefs, ?_, fun hone => ?_⟩
  · rw [directSupertypes_eq, hrefs]
  · obtain rfl : others = [] := by simpa using hone
    exact hrefs

/-- Three files, two of which declare the same type. -/
def twiceDeclared : List Outline :=
  [.ofSource ⟨"1/A.java"⟩ 0 "class A {}", .ofSource ⟨"2/A.java"⟩ 1 "class A extends B {}",
    .ofSource ⟨"B.java"⟩ 2 "class B {}"]

theorem directSupertypes_of_last_declaration_twiceDeclared : ∃ first last,
    (ofOutlines twiceDeclared).declaration? "A" = some first ∧
      (typesNamed (ofOutlines twiceDeclared).declarations "A").getLast? = some last ∧
      (ofOutlines twiceDeclared).superRefs "A" = ownSupers twiceDeclared last ∧
      ownSupers twiceDeclared first = [.external "java.lang.Object"] ∧
      ownSupers twiceDeclared last = [.project "B"] := by
  have hfound : ((ofOutlines twiceDeclared).declaration? "A").any (fun d =>
      d.element.kind.isType &&
        ownSupers twiceDeclared d == [.external "java.lang.Object"]) = true := by
    decide +kernel
  have hrefs : (ofOutlines twiceDeclared).superRefs "A" = [.project "B"] := by decide +kernel
  cases hd : (ofOutlines twiceDeclared).declaration? "A" with
  | none => rw [hd] at hfound; cases hfound
  | some d =>
    rw [hd, Option.any_some, Bool.and_eq_true] at hfound
    obtain ⟨-, last, hlast, hsupers, -⟩ :=
      directSupertypes_of_last_declaration twiceDeclared hd hfound.1
    exact ⟨d, last, rfl, hlast, hsupers, eq_of_beq hfound.2, hsupers ▸ hrefs⟩

end JavaAtlas.Index
