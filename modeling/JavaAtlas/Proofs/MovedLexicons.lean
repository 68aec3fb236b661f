import JavaAtlas.Proofs.IndexUses
import JavaAtlas.Proofs.Renumbering
import Mathlib.Data.List.Perm.Basic

/-! What a mention means when the files of a project change places. If each file keeps its scope, each
type its members in their order and its supertypes, then every mention means what it meant before. -/

namespace JavaAtlas.Outline.Declaration

/-- The declaration once its file has moved. -/
def moved (f : Nat → Nat) (d : Declaration) : Declaration := d.inUnit (f d.unit)

variable (f : Nat → Nat) (d : Declaration)

@[simp] lemma moved_element : (d.moved f).element = d.element := rfl

@[simp] lemma moved_id : (d.moved f).id = d.id := rfl

@[simp] lemma moved_unit : (d.moved f).unit = f d.unit := rfl

@[simp] lemma moved_chain : (d.moved f).chain = d.chain := rfl

@[simp] lemma moved_typeText : (d.moved f).typeText = d.typeText := rfl

@[simp] lemma moved_superTexts : (d.moved f).superTexts = d.superTexts := rfl

@[simp] lemma moved_start : (d.moved f).start = d.start := rfl

@[simp] lemma moved_stop : (d.moved f).stop = d.stop := rfl

@[simp] lemma moved_acceptsArity : (d.moved f).acceptsArity = d.acceptsArity := rfl

@[simp] lemma moved_owner? : (d.moved f).owner? = d.owner? := rfl

end JavaAtlas.Outline.Declaration

namespace JavaAtlas.Binding

/-- The use once its file has moved, with declarations that began at `start` and begin at `start'`. -/
def Use.moved (f : Nat → Nat) (start start' : Nat) (u : Use) : Use :=
  { u with unit := f u.unit, enclosing := u.enclosing.map fun i => i - start + start' }

namespace Lexicon

open Outline Text

/-- The second lexicon is the first one with its files moved. -/
structure Moved (f : Nat → Nat) (lex lex' : Lexicon) : Prop where
  perm : lex'.declarations.Perm (lex.declarations.map (·.moved f))
  unit_lt : ∀ d ∈ lex.declarations, d.unit < lex.scopes.length
  scope_eq : ∀ u < lex.scopes.length, lex'.scopes[f u]? = lex.scopes[u]?
  members_eq : ∀ id, lex'.membersOf id = (lex.membersOf id).map (·.moved f)
  supertypes_eq : ∀ id, lex'.supertypesOf id = lex.supertypesOf id
  fuel_eq : lex'.lineageFuel = lex.lineageFuel

lemma isField_moved (f : Nat → Nat) (name : String) (d : Declaration) :
    isField name (d.moved f) = isField name d := rfl

lemma isMethod_moved (f : Nat → Nat) (name : String) (arity : Option Nat) (d : Declaration) :
    isMethod name arity (d.moved f) = isMethod name arity d := rfl

lemma isConstructor_moved (f : Nat → Nat) (arity : Option Nat) (d : Declaration) :
    isConstructor arity (d.moved f) = isConstructor arity d := rfl

lemma any_moved {f : Nat → Nat} {ds ds' : List Declaration} (h : ds'.Perm (ds.map (·.moved f)))
    {test : Declaration → Bool} (ht : ∀ d, test (d.moved f) = test d) : ds'.any test = ds.any test := by
  rw [h.any_eq, List.any_map]
  exact congrArg ds.any (funext ht)

lemma declaresType_moved {f : Nat → Nat} {ds ds' : List Declaration}
    (h : ds'.Perm (ds.map (·.moved f))) : declaresType ds' = declaresType ds := by
  funext id
  exact any_moved h fun _ => rfl

lemma firstNonempty?_map {α β γ : Type} (g : α → List β) (k : β → γ) (xs : List α) :
    firstNonempty? (fun x => (g x).map k) xs = (firstNonempty? g xs).map (List.map k) := by
  induction xs with
  | nil => rfl
  | cons x xs ih =>
    rw [firstNonempty?_cons, firstNonempty?_cons, ih]
    cases g x <;> simp

def Meaning.moved (f : Nat → Nat) : Meaning → Meaning
  | .type ref => .type ref
  | .members family ds accurate => .members family (ds.map (·.moved f)) accurate

namespace Moved

variable {f : Nat → Nat} {lex lex' : Lexicon} (h : Moved f lex lex')
include h

lemma resolve_eq (written : String) {u : Nat} (hu : u < lex.scopes.length) (chain : List String) :
    lex'.resolve written (f u) chain = lex.resolve written u chain := by
  rw [resolve, resolve, declaresType_moved h.perm, h.scope_eq u hu]

lemma projectSupertypes_eq : lex'.projectSupertypes = lex.projectSupertypes := by
  funext id
  rw [projectSupertypes, projectSupertypes, h.supertypes_eq]

lemma lineage_eq (id : String) : lex'.lineage id = lex.lineage id := by
  have hfrom (fuel : Nat) (seen queue : List String) :
      lex'.lineageFrom fuel seen queue = lex.lineageFrom fuel seen queue := by
    induction fuel generalizing seen queue with
    | zero => rfl
    | succ fuel ih =>
      cases queue with
      | nil => rfl
      | cons id queue => simp only [lineageFrom, ih, h.projectSupertypes_eq]
  rw [lineage, lineage, h.fuel_eq, hfrom]

lemma membersWhere_eq {test : Declaration → Bool} (ht : ∀ d, test (d.moved f) = test d) (id : String) :
    lex'.membersWhere test id = (lex.membersWhere test id).map (·.moved f) := by
  rw [membersWhere, membersWhere, h.members_eq, List.filter_map]
  congr 2
  exact funext ht

lemma findField?_eq (id name : String) :
    lex'.findField? id name = (lex.findField? id name).map (·.moved f) := by
  rw [findField?, findField?, h.lineage_eq, List.map_findSome?]
  congr 1
  funext type
  rw [h.members_eq, List.find?_map]
  rfl

lemma findSome?_findField?_eq (types : List String) (name : String) :
    types.findSome? (lex'.findField? · name) =
      (types.findSome? (lex.findField? · name)).map (·.moved f) := by
  rw [List.map_findSome?]
  congr 1
  funext id
  exact h.findField?_eq id name

lemma fieldInChain?_eq (name : String) (chain : List String) :
    lex'.fieldInChain? name chain = (lex.fieldInChain? name chain).map (·.moved f) :=
  h.findSome?_findField?_eq chain.reverse name

lemma findMethods_eq (name : String) (arity : Option Nat) (id : String) :
    lex'.findMethods name arity id = (lex.findMethods name arity id).map (·.moved f) := by
  have hm := funext (h.membersWhere_eq (isMethod_moved f name arity))
  rw [findMethods, findMethods, h.lineage_eq, hm, firstNonempty?_map]
  cases firstNonempty? (lex.membersWhere (isMethod name arity)) (lex.lineage id) <;> rfl

lemma fieldType?_eq {d : Declaration} (hd : d ∈ lex.declarations) :
    lex'.fieldType? (d.moved f) = lex.fieldType? d := by
  rw [fieldType?, fieldType?]
  simp [h.resolve_eq _ (h.unit_lt d hd)]

lemma receiverTypes?_eq (receiver : Receiver) {u : Nat} (hu : u < lex.scopes.length)
    (chain : List String) :
    lex'.receiverTypes? receiver (f u) chain = lex.receiverTypes? receiver u chain := by
  cases receiver with
  | implicit | this | unknown => rfl
  | super => simp only [receiverTypes?, h.supertypes_eq]
  | type written => simp only [receiverTypes?, h.resolve_eq _ hu]
  | name name =>
    simp only [receiverTypes?, h.fieldInChain?_eq, h.resolve_eq _ hu]
    cases hf : lex.fieldInChain? name chain with
    | none => rfl
    | some d => simp only [Option.map_some, h.fieldType?_eq (lex.mem_of_fieldInChain? hf).1]

lemma unique?_eq {test : Declaration → Bool} (ht : ∀ d, test (d.moved f) = test d) :
    lex'.unique? test = (lex.unique? test).map (·.moved f) := by
  have hp : (lex'.declarations.filter test).Perm ((lex.declarations.filter test).map (·.moved f)) := by
    have hcomp : (test ∘ fun d => d.moved f) = test := funext ht
    have hp := h.perm.filter test
    rwa [List.filter_map, hcomp] at hp
  rw [unique?, unique?]
  rcases hds : lex.declarations.filter test with _ | ⟨d, _ | ⟨e, ds⟩⟩
  · rw [hds] at hp
    rw [hp.eq_nil]
    rfl
  · rw [hds] at hp
    rw [List.perm_singleton.mp hp]
    rfl
  · rw [hds] at hp
    have hlen := hp.length_eq
    rcases hds' : lex'.declarations.filter test with _ | ⟨d', _ | ⟨e', ds'⟩⟩
    · simp [hds'] at hlen
    · simp [hds'] at hlen
    · rfl

lemma methodMeaning?_eq (types : Option (List String)) {candidates candidates' : String → List Declaration}
    (hc : ∀ id, candidates' id = (candidates id).map (·.moved f)) {anywhere : Declaration → Bool}
    (ha : ∀ d, anywhere (d.moved f) = anywhere d) :
    lex'.methodMeaning? types candidates' anywhere =
      (lex.methodMeaning? types candidates anywhere).map (·.moved f) := by
  cases types with
  | none =>
    simp only [methodMeaning?, h.unique?_eq ha, Option.map_map]
    rfl
  | some types =>
    simp only [methodMeaning?, funext hc, firstNonempty?_map, Option.map_map]
    congr 1
    funext found
    simp [Meaning.methods, Meaning.moved]

lemma meaning?_eq (t : Target) {u : Nat} (hu : u < lex.scopes.length) (chain : List String) :
    lex'.meaning? (f u) chain t = (lex.meaning? u chain t).map (·.moved f) := by
  cases t with
  | type name =>
    simp only [meaning?, h.resolve_eq _ hu]
    rfl
  | name name =>
    simp only [meaning?, h.fieldInChain?_eq, h.resolve_eq _ hu]
    cases lex.fieldInChain? name chain with
    | some d => rfl
    | none => cases lex.resolve name u chain <;> rfl
  | field name receiver =>
    simp only [meaning?, h.receiverTypes?_eq _ hu]
    cases lex.receiverTypes? receiver u chain with
    | none =>
      simp only [h.unique?_eq (isField_moved f name), Option.map_map]
      rfl
    | some types =>
      simp only [h.findSome?_findField?_eq, Option.map_map]
      rfl
  | method name arity receiver =>
    simp only [meaning?, h.receiverTypes?_eq _ hu]
    exact h.methodMeaning?_eq _ (h.findMethods_eq name _) (isMethod_moved f name _)
  | constructor typeName arity =>
    simp only [meaning?, h.resolve_eq _ hu]
    cases lex.resolve typeName u chain with
    | unresolved | external => rfl
    | project id =>
      simp only [h.membersWhere_eq (isConstructor_moved f _)]
      cases hm : lex.membersWhere (isConstructor (some arity)) id with
      | nil => rfl
      | cons d ds => simp [Meaning.methods, Meaning.moved]
  | methodRef name receiver =>
    simp only [meaning?, h.receiverTypes?_eq _ hu]
    refine h.methodMeaning?_eq _ (fun id => ?_) (isMethod_moved f name _)
    split
    · exact h.membersWhere_eq (isConstructor_moved f _) id
    · exact h.findMethods_eq name _ id

/-- Moving the files of a project moves its uses. -/
lemma bind?_eq (m : Mention) {u : Nat} (hu : u < lex.scopes.length) (start start' : Nat) :
    lex'.bind? m (f u) start' = (lex.bind? m u start).map (·.moved f start start') := by
  have henclosing : (m.enclosing.map (· + start)).map (fun i => i - start + start') =
      m.enclosing.map (· + start') := by
    rw [Option.map_map]
    congr 1
    funext i
    simp
  rw [bind?, bind?, h.meaning?_eq _ hu, Option.map_map, Option.map_map]
  congr 1
  funext meaning
  cases meaning with
  | type ref => simp [Meaning.moved, Use.moved, henclosing]
  | members family members accurate =>
    cases members <;> simp [Meaning.moved, Use.moved, henclosing]

end Moved

end Lexicon

end JavaAtlas.Binding
