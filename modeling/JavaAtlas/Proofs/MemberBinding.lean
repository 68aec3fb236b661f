import JavaAtlas.Proofs.Lineage

/-! What a mention of a member is bound to. When the type of the receiver is known, the types that
it may mean and their supertypes are searched in order, and the first that declares a fitting member
gives all its fitting members. Otherwise the only fitting member of the project is taken. -/

namespace JavaAtlas.Binding.Lexicon

open Outline Text

/-- What a mention of a member asks for. `fits` is the test for the members of a type, `anywhere` the
test when no type is known; `inherited` says whether supertypes are searched. -/
structure Sought where
  receiver : Receiver
  family : ElementFamily
  fits : Declaration → Bool
  anywhere : Declaration → Bool
  inherited : Bool

/-- A constructor is not inherited, and a reference to it is written with the name `new`. -/
def sought? : Target → Option Sought
  | .field name receiver => some ⟨receiver, .field, isField name, isField name, true⟩
  | .method name arity receiver =>
    some ⟨receiver, .method, isMethod name (some arity), isMethod name (some arity), true⟩
  | .methodRef name receiver =>
    if name = "new" then some ⟨receiver, .method, isConstructor none, isMethod name none, false⟩
    else some ⟨receiver, .method, isMethod name none, isMethod name none, true⟩
  | _ => none

namespace Sought

variable (q : Sought) (lex : Lexicon)

def searched (type : String) : List String := if q.inherited then lex.lineage type else [type]

def declaredIn (type : String) : List Declaration :=
  lex.declarations.filter fun d => d.element.declaringType == some type && q.fits d

def taken (found : List Declaration) : List Declaration :=
  if q.family = .field then found.take 1 else found

end Sought

variable (lex : Lexicon)

section FirstNonempty

variable {α β γ : Type}

lemma firstNonempty?_cons (f : α → List β) (x : α) (xs : List α) :
    firstNonempty? f (x :: xs) = if f x = [] then firstNonempty? f xs else some (f x) := by
  cases h : f x <;> simp [firstNonempty?, h]

lemma firstNonempty?_append (f : α → List β) (xs ys : List α) :
    firstNonempty? f (xs ++ ys) = (firstNonempty? f xs).or (firstNonempty? f ys) := by
  simp [firstNonempty?, List.find?_append]

lemma firstNonempty?_ne_nil {f : α → List β} {xs : List α} {found : List β}
    (h : firstNonempty? f xs = some found) : found ≠ [] := by
  have hh := List.find?_some h
  simpa using hh

lemma firstNonempty?_flatMap (f : α → List β) (types : γ → List α) (cs : List γ) :
    firstNonempty? (fun c => (firstNonempty? f (types c)).getD []) cs =
      firstNonempty? f (cs.flatMap types) := by
  induction cs with
  | nil => rfl
  | cons c cs ih =>
    rw [firstNonempty?_cons, List.flatMap_cons, firstNonempty?_append, ih]
    cases h : firstNonempty? f (types c) with
    | none => simp
    | some found => simp [firstNonempty?_ne_nil h]

lemma findSome?_head? (f : α → List β) (xs : List α) :
    xs.findSome? (fun x => (f x).head?) = (firstNonempty? f xs).bind List.head? := by
  induction xs with
  | nil => rfl
  | cons x xs ih =>
    rw [List.findSome?_cons, firstNonempty?_cons, ih]
    cases h : f x <;> simp

lemma findSome?_flatMap (f : α → Option β) (types : γ → List α) (cs : List γ) :
    cs.findSome? (fun c => (types c).findSome? f) = (cs.flatMap types).findSome? f := by
  induction cs with
  | nil => rfl
  | cons c cs ih =>
    rw [List.findSome?_cons, List.flatMap_cons, List.findSome?_append, ih]
    cases (types c).findSome? f <;> rfl

lemma firstNonempty?_isSome_iff (f : α → List β) (xs : List α) :
    (firstNonempty? f xs).isSome ↔ ∃ x ∈ xs, ∃ y, y ∈ f x := by
  simp only [firstNonempty?, List.find?_isSome, List.mem_map, exists_exists_and_eq_and]
  refine exists_congr fun x => and_congr_right fun _ => ?_
  cases f x with
  | nil => simp
  | cons y ys => simp

lemma firstNonempty?_eq_some {f : α → List β} {xs : List α} {found : List β}
    (h : firstNonempty? f xs = some found) :
    ∃ before x after, xs = before ++ x :: after ∧ (∀ b ∈ before, f b = []) ∧ f x = found := by
  induction xs with
  | nil => simp [firstNonempty?] at h
  | cons x xs ih =>
    rw [firstNonempty?_cons] at h
    by_cases hx : f x = []
    · rw [if_pos hx] at h
      obtain ⟨before, y, after, rfl, hb, hy⟩ := ih h
      refine ⟨x :: before, y, after, rfl, ?_, hy⟩
      rintro b hb'
      rcases List.mem_cons.mp hb' with rfl | hb'
      · exact hx
      · exact hb b hb'
    · rw [if_neg hx] at h
      exact ⟨[], x, xs, rfl, by simp, Option.some.inj h⟩

end FirstNonempty

lemma isType_eq_false_of_sought {t : Target} {q : Sought} (h : sought? t = some q)
    {d : Declaration} (hd : q.fits d = true) : d.element.kind.isType = false := by
  cases t with
  | type | name | constructor => simp [sought?] at h
  | field name receiver =>
    obtain rfl := Option.some.inj h
    cases hk : d.element.kind <;> simp_all [isField, ElementKind.isField, ElementKind.isType]
  | method name arity receiver =>
    obtain rfl := Option.some.inj h
    cases hk : d.element.kind <;> simp_all [isMethod, ElementKind.isType]
  | methodRef name receiver =>
    simp only [sought?] at h
    split at h <;> obtain rfl := Option.some.inj h <;>
      cases hk : d.element.kind <;> simp_all [isMethod, isConstructor, ElementKind.isType]

lemma membersWhere_eq_declaredIn {t : Target} {q : Sought} (h : sought? t = some q)
    (type : String) : lex.membersWhere q.fits type = q.declaredIn lex type := by
  rw [membersWhere, membersOf, List.filter_filter, Sought.declaredIn]
  apply List.filter_congr
  intro d _
  cases hd : q.fits d with
  | false => simp
  | true => simp [isType_eq_false_of_sought h hd]

lemma unique?_isSome_iff (test : Declaration → Bool) :
    (lex.unique? test).isSome ↔ (lex.declarations.filter test).length = 1 := by
  rw [unique?]
  rcases lex.declarations.filter test with _ | ⟨d, _ | ⟨e, ds⟩⟩ <;> simp

lemma unique?_eq_some {test : Declaration → Bool} {d : Declaration}
    (h : lex.unique? test = some d) : lex.declarations.filter test = [d] := by
  rw [unique?] at h
  split at h
  · next hd => rw [hd, Option.some.inj h]
  · cases h

lemma findSome?_findField? (name : String) (candidates : List String) :
    candidates.findSome? (lex.findField? · name) =
      (firstNonempty? (lex.membersWhere (isField name)) (candidates.flatMap lex.lineage)).bind
        List.head? := by
  rw [← findSome?_head?, ← findSome?_flatMap]
  simp only [findField?, membersWhere, List.head?_filter]

/-- A field is looked for type by type and a method overload by overload; both come to the first of
the searched types that declares anything fitting. -/
lemma meaning?_sought {t : Target} {q : Sought} (h : sought? t = some q) (unit : Nat)
    (chain : List String) :
    lex.meaning? unit chain t =
      match lex.receiverTypes? q.receiver unit chain with
      | some candidates =>
        (firstNonempty? (q.declaredIn lex) (candidates.flatMap (q.searched lex))).map fun found =>
          .members q.family (q.taken found) ((q.taken found).length == 1)
      | none => (lex.unique? q.anywhere).map fun d => .members q.family [d] false := by
  rw [← funext (lex.membersWhere_eq_declaredIn h)]
  cases t with
  | type | name | constructor => simp [sought?] at h
  | field name receiver =>
    obtain rfl := Option.some.inj h
    simp only [meaning?, findSome?_findField?]
    cases lex.receiverTypes? receiver unit chain with
    | none => rfl
    | some candidates =>
      change Option.map _ ((firstNonempty? _ (candidates.flatMap lex.lineage)).bind _) =
        Option.map _ (firstNonempty? _ (candidates.flatMap lex.lineage))
      cases hn : firstNonempty? (lex.membersWhere (isField name))
        (candidates.flatMap lex.lineage) with
      | none => rfl
      | some found =>
        obtain ⟨d, ds, rfl⟩ := List.exists_cons_of_ne_nil (firstNonempty?_ne_nil hn)
        rfl
  | method name arity receiver =>
    obtain rfl := Option.some.inj h
    simp only [meaning?, methodMeaning?]
    cases lex.receiverTypes? receiver unit chain with
    | none => rfl
    | some candidates =>
      exact congrArg (Option.map Meaning.methods) (firstNonempty?_flatMap _ _ candidates)
  | methodRef name receiver =>
    simp only [meaning?, methodMeaning?]
    simp only [sought?] at h
    by_cases hn : name = "new"
    · rw [if_pos hn] at h ⊢
      obtain rfl := Option.some.inj h
      cases lex.receiverTypes? receiver unit chain with
      | none => rfl
      | some candidates =>
        have hs : candidates.flatMap (fun type => [type]) = candidates := List.flatMap_singleton' _
        exact congrArg (fun types => Option.map Meaning.methods (firstNonempty? _ types)) hs.symm
    · rw [if_neg hn] at h ⊢
      obtain rfl := Option.some.inj h
      cases lex.receiverTypes? receiver unit chain with
      | none => rfl
      | some candidates =>
        exact congrArg (Option.map Meaning.methods) (firstNonempty?_flatMap _ _ candidates)

lemma bind?_sought {m : Mention} {q : Sought} (h : sought? m.target = some q) (unit offset : Nat) :
    (∀ candidates, lex.receiverTypes? q.receiver unit m.chain = some candidates →
      ((lex.bind? m unit offset).isSome ↔
        (firstNonempty? (q.declaredIn lex) (candidates.flatMap (q.searched lex))).isSome) ∧
      ∀ u, lex.bind? m unit offset = some u → ∃ found,
        firstNonempty? (q.declaredIn lex) (candidates.flatMap (q.searched lex)) = some found ∧
        u.targets = (q.taken found).map (·.id) ∧ u.family = q.family ∧
        u.accurate = (u.targets.length == 1)) ∧
    (lex.receiverTypes? q.receiver unit m.chain = none →
      ((lex.bind? m unit offset).isSome ↔ (lex.unique? q.anywhere).isSome) ∧
      ∀ u, lex.bind? m unit offset = some u → ∃ d, lex.unique? q.anywhere = some d ∧
        u.targets = [d.id] ∧ u.family = q.family ∧ u.accurate = false) := by
  have hm := lex.meaning?_sought h unit m.chain
  constructor
  · intro candidates hr
    simp only [hr] at hm
    constructor
    · simp [bind?, hm]
    · intro u hu
      rw [bind?, hm, Option.map_map, Option.map_eq_some_iff] at hu
      obtain ⟨found, hf, rfl⟩ := hu
      exact ⟨found, hf, rfl, rfl, by simp⟩
  · intro hr
    simp only [hr] at hm
    constructor
    · simp [bind?, hm]
    · intro u hu
      rw [bind?, hm, Option.map_map, Option.map_eq_some_iff] at hu
      obtain ⟨d, hd, rfl⟩ := hu
      exact ⟨d, hd, rfl, rfl, rfl⟩

lemma mem_searched_iff {q : Sought} {type t : String} :
    t ∈ q.searched lex type ↔ if q.inherited then lex.Inherits type t else t = type := by
  rw [Sought.searched]
  split
  · exact lex.mem_lineage_iff
  · exact List.mem_singleton

/-- Which members a mention is bound to, for every kind of member and of receiver. The receiver's
types are tried in order and each type's lineage in its order; a use comes out exactly when one of
these types declares a fitting member. -/
theorem bind?_nearest_members (lex : Lexicon) (m : Mention) (unit offset : Nat) (q : Sought)
    (hq : sought? m.target = some q) :
    (∀ candidates, lex.receiverTypes? q.receiver unit m.chain = some candidates →
      ((lex.bind? m unit offset).isSome ↔ ∃ c ∈ candidates, ∃ type,
        (if q.inherited then lex.Inherits c type else type = c) ∧
        ∃ d ∈ lex.declarations, d.element.declaringType = some type ∧ q.fits d = true) ∧
      ∀ u, lex.bind? m unit offset = some u → ∃ before type after,
        candidates.flatMap (q.searched lex) = before ++ type :: after ∧
        (∀ b ∈ before, q.declaredIn lex b = []) ∧ q.declaredIn lex type ≠ [] ∧
        u.targets = (q.taken (q.declaredIn lex type)).map (·.id) ∧ u.family = q.family ∧
        u.accurate = (u.targets.length == 1)) ∧
    (lex.receiverTypes? q.receiver unit m.chain = none →
      ((lex.bind? m unit offset).isSome ↔ (lex.declarations.filter q.anywhere).length = 1) ∧
      ∀ u, lex.bind? m unit offset = some u → ∃ d, lex.declarations.filter q.anywhere = [d] ∧
        u.targets = [d.id] ∧ u.family = q.family ∧ u.accurate = false) := by
  obtain ⟨hk, hu⟩ := lex.bind?_sought hq unit offset
  constructor
  · intro candidates hr
    obtain ⟨hiff, htargets⟩ := hk candidates hr
    constructor
    · rw [hiff, firstNonempty?_isSome_iff]
      simp only [List.mem_flatMap, mem_searched_iff, Sought.declaredIn, List.mem_filter,
        Bool.and_eq_true, beq_iff_eq]
      constructor
      · rintro ⟨type, ⟨c, hc, ht⟩, d, hd, hfits⟩
        exact ⟨c, hc, type, ht, d, hd, hfits⟩
      · rintro ⟨c, hc, type, ht, d, hd, hfits⟩
        exact ⟨type, ⟨c, hc, ht⟩, d, hd, hfits⟩
    · intro u hb
      obtain ⟨found, hf, ht, hfam, hacc⟩ := htargets u hb
      obtain ⟨before, type, after, hsplit, hbefore, rfl⟩ := firstNonempty?_eq_some hf
      exact ⟨before, type, after, hsplit, hbefore, firstNonempty?_ne_nil hf, ht, hfam, hacc⟩
  · intro hr
    obtain ⟨hiff, htargets⟩ := hu hr
    rw [hiff, unique?_isSome_iff]
    refine ⟨Iff.rfl, fun u hb => ?_⟩
    obtain ⟨d, hd, ht⟩ := htargets u hb
    exact ⟨d, lex.unique?_eq_some hd, ht⟩

def inPackageP (id name : String) (kind : ElementKind) (supers chain : List String) :
    Declaration where
  element := ⟨id, name, kind, chain.getLast?, some ⟨"P.java"⟩, some 0, 1, false⟩
  start := 0
  stop := 1
  arity := 0
  varargs := false
  typeText := none
  superTexts := supers
  chain
  unit := 0

/-- Two types that extend each other; only the first has a field `x`. -/
def mutualPair : Lexicon := ofDeclarations [⟨"p", []⟩]
  [inPackageP "p.A" "A" .classType ["B"] [], inPackageP "p.A#x" "x" .field [] ["p.A"],
   inPackageP "p.B" "B" .classType ["A"] []]

def inheritedX : Mention := ⟨0, 1, .read, .field "x" .this, some 2, ["p.B"]⟩

theorem bind?_nearest_members_mutualPair :
    mutualPair.receiverTypes? .this 0 ["p.B"] = some ["p.B"] ∧
      mutualPair.Inherits "p.B" "p.A" ∧ (mutualPair.bind? inheritedX 0 0).isSome := by
  have hr : mutualPair.receiverTypes? .this 0 ["p.B"] = some ["p.B"] := rfl
  have hi : mutualPair.Inherits "p.B" "p.A" := .single (by decide +kernel)
  refine ⟨hr, hi, ?_⟩
  have hx : inPackageP "p.A#x" "x" .field [] ["p.A"] ∈ mutualPair.declarations :=
    List.mem_cons_of_mem _ List.mem_cons_self
  exact ((bind?_nearest_members mutualPair inheritedX 0 0 _ rfl).1 _ hr).1.mpr
    ⟨"p.B", List.mem_singleton_self _, "p.A", hi, _, hx, rfl, by decide⟩

end JavaAtlas.Binding.Lexicon
