import JavaAtlas.Proofs.QualifiedSearch

/-! What mentions mean. A mention is bound to a type, by a name that it gives, or to members: to ones of
the name that it says, or to the constructors of the type that it asks for. -/

namespace JavaAtlas.Binding.Lexicon

open Outline Text

variable {lex : Lexicon} {μ : Mention} {unit start : Nat} {chain : List String} {u : Use} {t : Target}
variable {family : ElementFamily} {members : List Declaration} {accurate : Bool}

/-- The name by which a mention asks for members. -/
def said? : Target → Option String
  | .type _ | .constructor _ _ => none
  | .name name | .field name _ | .method name _ _ | .methodRef name _ => some name

/-- What a mention asks for: members of the name that it says, or constructors of a type. -/
inductive Answers (lex : Lexicon) (unit : Nat) (chain : List String) (t : Target)
    (members : List Declaration) : ElementFamily → Prop
  | field {name : String} : said? t = some name → (∀ d ∈ members, d.element.name = name) →
      Answers lex unit chain t members .field
  | method {name : String} : said? t = some name →
      (∀ d ∈ members, d.element.name = name ∧ d.element.kind = .method) →
      Answers lex unit chain t members .method
  | constructor {owner : String} : (∃ receiver, t = .methodRef "new" receiver) ∨
        (∃ typeName arity, t = .constructor typeName arity ∧
          owner = (lex.resolve typeName unit chain).id) →
      (∀ d ∈ members, d.element.kind = .constructor ∧ d.element.declaringType = some owner) →
      Answers lex unit chain t members .method

lemma name_of_isField {name : String} {d : Declaration} (h : isField name d = true) :
    d.element.name = name := by
  simp only [isField, Bool.and_eq_true, beq_iff_eq] at h
  exact h.2

lemma name_of_isMethod {name : String} {arity : Option Nat} {d : Declaration}
    (h : isMethod name arity d = true) : d.element.name = name ∧ d.element.kind = .method := by
  simp only [isMethod, Bool.and_eq_true, beq_iff_eq] at h
  exact ⟨h.1.2, h.1.1⟩

lemma kind_of_isConstructor {arity : Option Nat} {d : Declaration}
    (h : isConstructor arity d = true) : d.element.kind = .constructor := by
  simp only [isConstructor, Bool.and_eq_true, beq_iff_eq] at h
  exact h.1

lemma answers_of_sought {q : Sought} (hq : sought? t = some q)
    (h : lex.meaning? unit chain t = some (.members family members accurate)) :
    members ≠ [] ∧ members ⊆ lex.declarations ∧ Answers lex unit chain t members family := by
  obtain ⟨rfl, hne, hfound⟩ := lex.members_of_sought hq h
  have hfits : members ⊆ lex.declarations ∧ ((∃ type, ∀ d ∈ members,
      d.element.declaringType = some type ∧ q.fits d = true) ∨ ∀ d ∈ members, q.anywhere d = true) := by
    rcases hfound with ⟨type, hsub⟩ | ⟨d, rfl, hd, hany⟩
    · refine ⟨fun d hd => (List.mem_filter.mp (hsub hd)).1, .inl ⟨type, fun d hd => ?_⟩⟩
      simpa using (List.mem_filter.mp (hsub hd)).2
    · exact ⟨by simpa using hd, .inr (by simpa using hany)⟩
  obtain ⟨hin, hfits⟩ := hfits
  refine ⟨hne, hin, ?_⟩
  cases t with
  | type | name | constructor => simp [sought?] at hq
  | field name receiver =>
    obtain rfl := Option.some.inj hq
    refine .field rfl fun d hd => ?_
    rcases hfits with ⟨type, hfits⟩ | hany
    · exact name_of_isField (hfits d hd).2
    · exact name_of_isField (hany d hd)
  | method name arity receiver =>
    obtain rfl := Option.some.inj hq
    refine .method rfl fun d hd => ?_
    rcases hfits with ⟨type, hfits⟩ | hany
    · exact name_of_isMethod (hfits d hd).2
    · exact name_of_isMethod (hany d hd)
  | methodRef name receiver =>
    simp only [sought?] at hq
    split at hq
    · next hnew =>
      subst hnew
      obtain rfl := Option.some.inj hq
      rcases hfits with ⟨type, hfits⟩ | hany
      · exact .constructor (.inl ⟨receiver, rfl⟩) fun d hd =>
          ⟨kind_of_isConstructor (hfits d hd).2, (hfits d hd).1⟩
      · exact .method rfl fun d hd => name_of_isMethod (hany d hd)
    · obtain rfl := Option.some.inj hq
      refine .method rfl fun d hd => ?_
      rcases hfits with ⟨type, hfits⟩ | hany
      · exact name_of_isMethod (hfits d hd).2
      · exact name_of_isMethod (hany d hd)

lemma findField?_eq_some {id name : String} {d : Declaration} (h : lex.findField? id name = some d) :
    d ∈ lex.declarations ∧ d.element.name = name := by
  obtain ⟨type, -, hd⟩ := List.exists_of_findSome?_eq_some h
  have hmem := List.mem_of_find?_eq_some hd
  exact ⟨(List.mem_filter.mp hmem).1, name_of_isField (List.find?_some hd)⟩

/-- Whatever members a mention means, they are of the name it says, or constructors of its type. -/
lemma meaning?_answers (h : lex.meaning? unit chain t = some (.members family members accurate)) :
    members ≠ [] ∧ members ⊆ lex.declarations ∧ Answers lex unit chain t members family := by
  cases hq : sought? t with
  | some q => exact answers_of_sought hq h
  | none =>
    cases t with
    | type name => simp [meaning?] at h
    | name name =>
      simp only [meaning?] at h
      split at h
      · next field hfield =>
        obtain ⟨rfl, rfl, -⟩ : .field = family ∧ [field] = members ∧ _ := by simpa using h
        obtain ⟨id, -, hd⟩ := List.exists_of_findSome?_eq_some hfield
        obtain ⟨hin, hname⟩ := findField?_eq_some hd
        exact ⟨by simp, by simpa using hin, .field rfl (by simpa using hname)⟩
      · split at h <;> simp at h
    | constructor typeName arity =>
      simp only [meaning?] at h
      split at h
      · next id hid =>
        split at h
        · simp at h
        · next hne =>
          obtain ⟨rfl, rfl, -⟩ : .method = family ∧
              lex.membersWhere (isConstructor (some arity)) id = members ∧ _ := by
            simpa [Meaning.methods] using h
          have hmem {d : Declaration} (hd : d ∈ lex.membersWhere (isConstructor (some arity)) id) :
              d ∈ lex.declarations ∧ d.element.kind = .constructor ∧
                d.element.declaringType = some id := by
            simp only [membersWhere, membersOf, isConstructor, List.mem_filter, Bool.and_eq_true,
              beq_iff_eq] at hd
            obtain ⟨⟨hin, -, htype⟩, hk, -⟩ := hd
            exact ⟨hin, hk, htype⟩
          exact ⟨hne, fun d hd => (hmem hd).1,
            .constructor (.inr ⟨typeName, arity, rfl, by rw [hid]; rfl⟩) fun d hd => (hmem hd).2⟩
      · simp at h
    | field | method => simp [sought?] at hq
    | methodRef name receiver =>
      simp only [sought?] at hq
      split at hq <;> simp at hq

/-- A use of members is bound to what its mention asks for, and called after the first of it. -/
lemma bind?_answers (h : lex.bind? μ unit start = some u) (hf : u.family ≠ .type) :
    ∃ members, u.targets = members.map (·.id) ∧ u.targetName = (members.head?.map (·.element.name)).getD "" ∧
      members ≠ [] ∧ members ⊆ lex.declarations ∧ Answers lex unit μ.chain μ.target members u.family := by
  obtain ⟨meaning, hm, rfl⟩ := Option.map_eq_some_iff.mp h
  cases meaning with
  | type ref => exact absurd rfl hf
  | members family members accurate => exact ⟨members, rfl, rfl, meaning?_answers hm⟩

/-- Only a name of a type, or a plain name, means a type. -/
lemma meaning?_type {ref : TypeRef} (h : lex.meaning? unit chain t = some (.type ref)) :
    ∃ name, ref = lex.resolve name unit chain ∧ (t = .type name ∨ t = .name name) := by
  cases hq : sought? t with
  | some q =>
    rw [lex.meaning?_sought hq] at h
    split at h <;> simp at h
  | none =>
    cases t with
    | type name => exact ⟨name, by simpa [meaning?] using h.symm, .inl rfl⟩
    | name name =>
      simp only [meaning?] at h
      split at h
      · simp at h
      · split at h
        · cases h
        · exact ⟨name, by simpa using h.symm, .inr rfl⟩
    | constructor typeName arity =>
      simp only [meaning?] at h
      split at h
      · split at h <;> simp [Meaning.methods] at h
      · cases h
    | field | method => simp [sought?] at hq
    | methodRef name receiver =>
      simp only [sought?] at hq
      split at hq <;> cases hq

lemma bind?_role_of_type {name : String} (h : lex.bind? μ unit start = some u)
    (ht : μ.target = .type name) : u.role = μ.role := by
  obtain ⟨meaning, hm, rfl⟩ := Option.map_eq_some_iff.mp h
  rw [ht] at hm
  obtain rfl := Option.some.inj hm
  simp only [ht]

/-- A use of a type is a mention of a type, or a plain name that turned out to be one. -/
lemma bind?_family_type (h : lex.bind? μ unit start = some u) (hf : u.family = .type) :
    ∃ name, u.targetName = afterLast '.' (lex.resolve name unit μ.chain).id ∧
      (μ.target = .type name ∧ u.role = μ.role ∨ μ.target = .name name ∧ u.role = .reference) := by
  obtain ⟨meaning, hm, rfl⟩ := Option.map_eq_some_iff.mp h
  cases meaning with
  | type ref =>
    obtain ⟨name, rfl, ht⟩ := meaning?_type hm
    refine ⟨name, rfl, ht.imp (fun ht => ⟨ht, ?_⟩) fun ht => ⟨ht, ?_⟩⟩
    · simp only [ht]
    · simp only [ht]
  | members family members accurate =>
    obtain ⟨-, -, hanswers⟩ := meaning?_answers hm
    obtain rfl : family = .type := hf
    cases hanswers

end JavaAtlas.Binding.Lexicon
