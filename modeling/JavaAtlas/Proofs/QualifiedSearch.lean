import JavaAtlas.Proofs.QualifiedNames
import JavaAtlas.Proofs.SearchSelection

/-! Searching by a qualified name and searching for the elements of that name. All targets of a use are
members of one type and of one name, so both searches find the same, but for types whose name was read
with a hash in it. -/

namespace JavaAtlas.Binding.Lexicon

open Outline

/-- Constructors have the name of their type. -/
def ConstructorsNamed (declarations : List Declaration) : Prop :=
  ∀ d ∈ declarations, d.element.kind = .constructor →
    ∀ type ∈ d.element.declaringType, d.element.name = Text.afterLast '.' type

instance (declarations : List Declaration) : Decidable (ConstructorsNamed declarations) :=
  inferInstanceAs (Decidable (∀ _ ∈ declarations, _))

/-- Members of one type and of one name. -/
def Namesakes (members : List Declaration) : Prop :=
  ∀ d ∈ members, ∀ e ∈ members,
    d.element.declaringType = e.element.declaringType ∧ d.element.name = e.element.name

lemma namesakes_singleton (d : Declaration) : Namesakes [d] := by
  intro e he e' he'
  rw [List.mem_singleton.mp he, List.mem_singleton.mp he']
  exact ⟨rfl, rfl⟩

variable (lex : Lexicon)

lemma namesakes_declaredIn {t : Target} {q : Sought} (h : sought? t = some q)
    (hc : ConstructorsNamed lex.declarations) (type : String) :
    Namesakes (q.declaredIn lex type) := by
  have hmem {d : Declaration} (hd : d ∈ q.declaredIn lex type) : d ∈ lex.declarations ∧
      d.element.declaringType = some type ∧ q.fits d = true := by
    simpa [Sought.declaredIn] using hd
  obtain ⟨name, hname⟩ : ∃ name, ∀ d ∈ q.declaredIn lex type, d.element.name = name := by
    cases t with
    | type | name | constructor => simp [sought?] at h
    | field name receiver =>
      obtain rfl := Option.some.inj h
      refine ⟨name, fun d hd => ?_⟩
      simpa using (Bool.and_eq_true_iff.mp (hmem hd).2.2).2
    | method name arity receiver =>
      obtain rfl := Option.some.inj h
      refine ⟨name, fun d hd => ?_⟩
      have hfits := (hmem hd).2.2
      simp only [isMethod, Bool.and_eq_true, beq_iff_eq] at hfits
      exact hfits.1.2
    | methodRef name receiver =>
      simp only [sought?] at h
      split at h
      · obtain rfl := Option.some.inj h
        refine ⟨Text.afterLast '.' type, fun d hd => ?_⟩
        obtain ⟨hin, htype, hfits⟩ := hmem hd
        simp only [isConstructor, Bool.and_eq_true, beq_iff_eq] at hfits
        exact hc d hin hfits.1 type htype
      · obtain rfl := Option.some.inj h
        refine ⟨name, fun d hd => ?_⟩
        have hfits := (hmem hd).2.2
        simp only [isMethod, Bool.and_eq_true, beq_iff_eq] at hfits
        exact hfits.1.2
  intro d hd e he
  exact ⟨(hmem hd).2.1.trans (hmem he).2.1.symm, (hname d hd).trans (hname e he).symm⟩

lemma family_of_sought {t : Target} {q : Sought} (h : sought? t = some q) : q.family ≠ .type := by
  cases t with
  | type | name | constructor => simp [sought?] at h
  | field | method =>
    obtain rfl := Option.some.inj h
    simp
  | methodRef name receiver =>
    simp only [sought?] at h
    split at h <;> obtain rfl := Option.some.inj h <;> simp

/-- The members that a mention asks for are found in one type, or are the only ones of the project. -/
lemma members_of_sought {t : Target} {q : Sought} {unit : Nat} {chain : List String}
    {family : ElementFamily} {members : List Declaration} {accurate : Bool} (hq : sought? t = some q)
    (h : lex.meaning? unit chain t = some (.members family members accurate)) :
    q.family = family ∧ members ≠ [] ∧ ((∃ type, members ⊆ q.declaredIn lex type) ∨
      ∃ d, members = [d] ∧ d ∈ lex.declarations ∧ q.anywhere d = true) := by
  rw [lex.meaning?_sought hq] at h
  split at h
  · obtain ⟨found, hf, hm⟩ := Option.map_eq_some_iff.mp h
    obtain ⟨rfl, rfl, -⟩ : q.family = family ∧ q.taken found = members ∧ _ := by simpa using hm
    have hne := firstNonempty?_ne_nil hf
    obtain ⟨before, type, after, -, -, rfl⟩ := firstNonempty?_eq_some hf
    rw [Sought.taken]
    split
    · exact ⟨rfl, by simpa using hne, .inl ⟨type, List.take_subset _ _⟩⟩
    · exact ⟨rfl, hne, .inl ⟨type, List.Subset.refl _⟩⟩
  · obtain ⟨d, hd, hm⟩ := Option.map_eq_some_iff.mp h
    obtain ⟨rfl, rfl, -⟩ : q.family = family ∧ [d] = members ∧ _ := by simpa using hm
    have hmem : d ∈ lex.declarations.filter q.anywhere := by
      rw [lex.unique?_eq_some hd]
      exact List.mem_singleton_self d
    obtain ⟨hin, hany⟩ := List.mem_filter.mp hmem
    exact ⟨rfl, by simp, .inr ⟨d, rfl, hin, hany⟩⟩

/-- Whatever a mention of members means has one type and one name. -/
lemma meaning?_namesakes {t : Target} {unit : Nat} {chain : List String} {family : ElementFamily}
    {members : List Declaration} {accurate : Bool} (hc : ConstructorsNamed lex.declarations)
    (h : lex.meaning? unit chain t = some (.members family members accurate)) :
    family ≠ .type ∧ members ≠ [] ∧ Namesakes members := by
  cases hq : sought? t with
  | some q =>
    obtain ⟨rfl, hne, ⟨type, hsub⟩ | ⟨d, rfl, -⟩⟩ := lex.members_of_sought hq h
    · exact ⟨family_of_sought hq, hne, fun d hd e he =>
        lex.namesakes_declaredIn hq hc type d (hsub hd) e (hsub he)⟩
    · exact ⟨family_of_sought hq, hne, namesakes_singleton d⟩
  | none =>
    cases t with
    | type name => simp [meaning?] at h
    | name name =>
      simp only [meaning?] at h
      split at h
      · next field _ =>
        obtain ⟨rfl, rfl, -⟩ : .field = family ∧ [field] = members ∧ _ := by simpa using h
        exact ⟨by simp, by simp, namesakes_singleton field⟩
      · split at h <;> simp at h
    | constructor typeName arity =>
      simp only [meaning?] at h
      split at h
      · next id _ =>
        split at h
        · simp at h
        · next hne =>
          obtain ⟨rfl, rfl, -⟩ : .method = family ∧
              lex.membersWhere (isConstructor (some arity)) id = members ∧ _ := by
            simpa [Meaning.methods] using h
          refine ⟨by simp, hne, ?_⟩
          have hmem {d : Declaration} (hd : d ∈ lex.membersWhere (isConstructor (some arity)) id) :
              d.element.declaringType = some id ∧ d.element.name = Text.afterLast '.' id := by
            simp only [membersWhere, membersOf, isConstructor, List.mem_filter, Bool.and_eq_true,
              beq_iff_eq] at hd
            obtain ⟨⟨hin, -, htype⟩, hk, -⟩ := hd
            exact ⟨htype, hc d hin hk id htype⟩
          intro d hd e he
          exact ⟨(hmem hd).1.trans (hmem he).1.symm, (hmem hd).2.trans (hmem he).2.symm⟩
      · simp at h
    | field | method => simp [sought?] at hq
    | methodRef name receiver =>
      simp only [sought?] at hq
      split at hq <;> simp at hq

lemma Namesakes.qualifiedName_eq {members : List Declaration} (h : Namesakes members)
    (hm : ∀ d ∈ members, Marked d ∧ d.element.kind.isType = false) {d e : Declaration}
    (hd : d ∈ members) (he : e ∈ members) : qualifiedName d.id = qualifiedName e.id := by
  obtain ⟨type, tail, htype, -, -, hid, htail⟩ := (hm d hd).1.member (hm d hd).2
  obtain ⟨type', tail', htype', -, -, hid', htail'⟩ := (hm e he).1.member (hm e he).2
  obtain ⟨hdeclaring, hname⟩ := h d hd e he
  obtain rfl : type = type' := by simpa [htype, htype'] using hdeclaring
  rw [hid, hid', qualifiedName_tail htail, qualifiedName_tail htail', hname]

end JavaAtlas.Binding.Lexicon

namespace JavaAtlas.Index

open Binding Outline

variable (index : Index)

/-- The declarations of a family that have a qualified name. -/
def namedAs (f : ElementFamily) (q : String) : List Declaration :=
  index.declarations.filter fun d => f.accepts d.element.kind && qualifiedName d.id == q

/-- A use of a type whose name was read with a hash in it, though no type has such a name. Among types
it passes for one of that qualified name, and among members for one that has it for an identifier. -/
def Misread (f : ElementFamily) (q : String) (u : Use) : Prop :=
  u.family = .type ∧ ∃ t ∈ u.targets, '#' ∈ t.toList ∧ qualifiedName t = q ∧
    (f = .type ∨ ∃ e ∈ index.namedAs f q, e.id = t)

variable {index} {files : List (String × String)} {outlines : List Outline} {d e : Declaration}
variable {f : ElementFamily} {q : String} {u : Use}

lemma mem_namedAs : e ∈ index.namedAs f q ↔
    e ∈ index.declarations ∧ f.accepts e.element.kind = true ∧ qualifiedName e.id = q := by
  simp [namedAs]

lemma marked_ofFiles (h : d ∈ (ofFiles files).declarations) : Marked d := by
  simp only [ofFiles, ofOutlines, List.mem_flatMap, List.mem_map] at h
  obtain ⟨o, ⟨⟨⟨path, source⟩, unit⟩, -, rfl⟩, hd⟩ := h
  exact marked_of_mem hd

lemma targets_of_mem (hc : Lexicon.ConstructorsNamed (ofOutlines outlines).declarations)
    (hu : u ∈ (ofOutlines outlines).uses) :
    (u.family = .type ∧ ∃ t, u.targets = [t]) ∨
      u.family ≠ .type ∧ ∃ members, u.targets = members.map (·.id) ∧ members ≠ [] ∧
        Lexicon.Namesakes members ∧ ∀ d ∈ members,
          d ∈ (ofOutlines outlines).declarations ∧ u.family.accepts d.element.kind = true := by
  obtain ⟨i, o, m, -, -, hb⟩ := mem_uses_iff.mp hu
  obtain ⟨meaning, hm, rfl⟩ := Option.map_eq_some_iff.mp hb
  cases meaning with
  | type ref => exact .inl ⟨rfl, _, rfl⟩
  | members family members accurate =>
    obtain ⟨hf, hne, hn⟩ := Lexicon.meaning?_namesakes _ hc hm
    exact .inr ⟨hf, members, rfl, hne, hn, Lexicon.meaning?_members _ hm⟩

lemma accepts_inj {f g : ElementFamily} {kind : ElementKind} (hf : f.accepts kind = true)
    (hg : g.accepts kind = true) : f = g := by
  cases f <;> cases g <;> cases kind <;>
    first | rfl | exact absurd hf (by decide) | exact absurd hg (by decide)

lemma isType_eq_false {kind : ElementKind} (hf : f ≠ .type) (h : f.accepts kind = true) :
    kind.isType = false := by
  by_contra ht
  exact hf (accepts_inj h (g := .type) (by simpa [ElementFamily.accepts] using ht))

/-- What the search for a name reports of the uses. -/
def NamesUse (f : ElementFamily) (q : String) (u : Use) : Prop :=
  u.family = f ∧ ∃ t ∈ u.targets.head?, qualifiedName t = q

/-- What the searches for the elements of a name report of the uses. -/
def FindsUse (index : Index) (f : ElementFamily) (q : String) (u : Use) : Prop :=
  ∃ e ∈ index.namedAs f q, e.id ∈ u.targets

/-- Members that one use means are all found by name or not at all. -/
lemma namesUse_iff_of_members {members : List Declaration} (hf : u.family ≠ .type)
    (ht : u.targets = members.map (·.id)) (hne : members ≠ []) (hn : Lexicon.Namesakes members)
    (hm : ∀ d ∈ members, d ∈ (ofFiles files).declarations ∧
      u.family.accepts d.element.kind = true) :
    NamesUse f q u ↔ FindsUse (ofFiles files) f q u := by
  have hmembers : ∀ d ∈ members, Marked d ∧ d.element.kind.isType = false := fun d hd =>
    ⟨marked_ofFiles (hm d hd).1, isType_eq_false hf (hm d hd).2⟩
  obtain ⟨first, rest, rfl⟩ := List.exists_cons_of_ne_nil hne
  constructor
  · rintro ⟨rfl, t, hhead, rfl⟩
    obtain rfl : first.id = t := by simpa [ht] using hhead
    obtain ⟨hin, hk⟩ := hm first List.mem_cons_self
    exact ⟨first, mem_namedAs.mpr ⟨hin, hk, rfl⟩, by simp [ht]⟩
  · rintro ⟨e, he, htarget⟩
    obtain ⟨hin, hk, rfl⟩ := mem_namedAs.mp he
    rw [ht] at htarget
    obtain ⟨m, hmem, hid⟩ := List.mem_map.mp htarget
    have hk' : f.accepts m.element.kind = true := by
      rw [(hmembers m hmem).1.accepts_eq (marked_ofFiles hin) hid]
      exact hk
    refine ⟨accepts_inj (hm m hmem).2 hk', first.id, by simp [ht], ?_⟩
    rw [hn.qualifiedName_eq hmembers List.mem_cons_self hmem, ← hid]

section Uses

variable (hc : Lexicon.ConstructorsNamed (ofFiles files).declarations)
  (hu : u ∈ (ofFiles files).uses)
include hc hu

/-- Among types the search by name reports what is found by element, and what was misread besides. -/
lemma namesUse_type_iff (hs : Sayable d) (hd : d ∈ (ofFiles files).declarations)
    (hk : d.element.kind.isType = true) :
    (NamesUse .type (qualifiedName d.id) u ↔
      FindsUse (ofFiles files) .type (qualifiedName d.id) u ∨
        (ofFiles files).Misread .type (qualifiedName d.id) u) ∧
    ¬(FindsUse (ofFiles files) .type (qualifiedName d.id) u ∧
      (ofFiles files).Misread .type (qualifiedName d.id) u) := by
  rcases targets_of_mem hc hu with ⟨hfamily, t, ht⟩ | ⟨hfamily, members, ht, hne, hn, hm⟩
  · have hid : ∀ e ∈ (ofFiles files).namedAs .type (qualifiedName d.id),
        '#' ∉ e.id.toList ∧ e.id = qualifiedName d.id := by
      intro e he
      obtain ⟨hin, hk', hq⟩ := mem_namedAs.mp he
      have hs' : Sayable e := by
        rw [Sayable, hq]
        exact hs
      obtain ⟨hhash, heq⟩ := (marked_ofFiles hin).qualifiedName_type hk' hs'
      exact ⟨hhash, heq.symm.trans hq⟩
    have hself : d ∈ (ofFiles files).namedAs .type (qualifiedName d.id) :=
      mem_namedAs.mpr ⟨hd, hk, rfl⟩
    have hfinds : FindsUse (ofFiles files) .type (qualifiedName d.id) u ↔
        t = qualifiedName d.id := by
      simp only [FindsUse, ht, List.mem_singleton]
      constructor
      · rintro ⟨e, he, rfl⟩
        exact (hid e he).2
      · intro heq
        exact ⟨d, hself, (hid d hself).2.trans heq.symm⟩
    have hnames : NamesUse .type (qualifiedName d.id) u ↔ qualifiedName t = qualifiedName d.id := by
      simp [NamesUse, ht, hfamily]
    have hmisread : (ofFiles files).Misread .type (qualifiedName d.id) u ↔
        '#' ∈ t.toList ∧ qualifiedName t = qualifiedName d.id := by
      simp [Misread, ht, hfamily]
    rw [hfinds, hnames, hmisread]
    obtain ⟨hhash, -⟩ := hid d hself
    rw [(hid d hself).2] at hhash
    constructor
    · constructor
      · intro hq
        by_cases ht' : '#' ∈ t.toList
        · exact .inr ⟨ht', hq⟩
        · exact .inl (by rw [← hq, qualifiedName_of_not_mem ht'])
      · rintro (rfl | ⟨-, hq⟩)
        · exact qualifiedName_of_not_mem hhash
        · exact hq
    · rintro ⟨rfl, ht', -⟩
      exact hhash ht'
  · have hnot : ¬(ofFiles files).Misread .type (qualifiedName d.id) u := fun h => hfamily h.1
    simp [hnot, namesUse_iff_of_members hfamily ht hne hn hm]

/-- Among members the searches by element report what is found by name, and what was misread
besides. -/
lemma findsUse_member_iff (hf : f ≠ .type) :
    (FindsUse (ofFiles files) f q u ↔ NamesUse f q u ∨ (ofFiles files).Misread f q u) ∧
      ¬(NamesUse f q u ∧ (ofFiles files).Misread f q u) := by
  rcases targets_of_mem hc hu with ⟨hfamily, t, ht⟩ | ⟨hfamily, members, ht, hne, hn, hm⟩
  · have hnames : ¬NamesUse f q u := fun h => hf (h.1.symm.trans hfamily)
    have hfinds : FindsUse (ofFiles files) f q u ↔ (ofFiles files).Misread f q u := by
      simp only [FindsUse, Misread, ht, hfamily, hf, List.mem_singleton, true_and, false_or,
        exists_eq_left]
      refine ⟨fun h => ⟨?_, ?_, h⟩, fun h => h.2.2⟩
      · obtain ⟨e, he, rfl⟩ := h
        obtain ⟨hin, hk, -⟩ := mem_namedAs.mp he
        obtain ⟨type, tail, -, -, -, hid, -⟩ := (marked_ofFiles hin).member (isType_eq_false hf hk)
        simp [hid]
      · obtain ⟨e, he, rfl⟩ := h
        exact (mem_namedAs.mp he).2.2
    simp [hnames, hfinds]
  · have hnot : ¬(ofFiles files).Misread f q u := fun h => hfamily h.1
    simp [hnot, namesUse_iff_of_members hfamily ht hne hn hm]

end Uses

section Filter

variable {α β : Type} {P Q : α → Bool} {g : α → Option β} {l : List α}

lemma filterMap_filter_sublist (h : ∀ x ∈ l, P x = true → Q x = true) :
    ((l.filter P).filterMap g).Sublist ((l.filter Q).filterMap g) := by
  have hfilter : l.filter P = (l.filter Q).filter P := by
    rw [List.filter_filter]
    refine List.filter_congr fun x hx => ?_
    cases hp : P x with
    | true => rw [h x hx hp, Bool.and_self]
    | false => rfl
  rw [hfilter]
  exact List.filter_sublist.filterMap g

/-- Two choices of which one holds the other yield the same just when what they differ in yields
nothing. -/
lemma filterMap_filter_eq_iff (h : ∀ x ∈ l, P x = true → Q x = true) :
    (l.filter P).filterMap g = (l.filter Q).filterMap g ↔
      ∀ x ∈ l, Q x = true → P x = false → g x = none := by
  induction l with
  | nil => simp
  | cons x l ih =>
    have htail : ∀ y ∈ l, P y = true → Q y = true := fun y hy => h y (List.mem_cons_of_mem x hy)
    have hx := h x List.mem_cons_self
    rw [List.forall_mem_cons, ← ih htail]
    cases hp : P x with
    | true =>
      rw [List.filter_cons_of_pos hp, List.filter_cons_of_pos (hx hp)]
      cases hg : g x <;> simp [hg]
    | false =>
      rw [List.filter_cons_of_neg (by simp [hp])]
      cases hq : Q x with
      | false => simp [hq]
      | true =>
        rw [List.filter_cons_of_pos hq]
        cases hg : g x with
        | none => simp [hg]
        | some y =>
          have hlen := (filterMap_filter_sublist (g := g) htail).length_le
          rw [List.filterMap_cons_some hg]
          constructor
          · intro heq
            rw [heq, List.length_cons] at hlen
            omega
          · intro hboth
            simpa using hboth.1 rfl rfl

end Filter

section Reports

variable (index) (category : Category) (scope : SearchScope)

lemma reports_name_used (f : ElementFamily) (u : Use) (hs : Sayable d) (hd : Marked d)
    (hdot : '.' ∈ (qualifiedName d.id).toList) :
    reports ⟨.name (qualifiedName d.id) (some f), category, true⟩ scope (.used u) = true ↔
      (category.accepts u.role = true ∧ scope.encloses u.enclosingType = true) ∧
        NamesUse f (qualifiedName d.id) u := by
  obtain ⟨p, hp⟩ := Option.isSome_iff_exists.mp hs
  have hfits := NamePattern.matchesName_iff hp (hd.nameText hs) hdot
  simp [reports, useTest?, hp, NamesUse, hfits, Option.any_eq_true, eq_comm (a := f)]

lemma reports_name_declared (hs : Sayable d) (hd : Marked d)
    (hdot : '.' ∈ (qualifiedName d.id).toList) :
    reports ⟨.name (qualifiedName d.id) (some f), category, true⟩ scope (.declared e) = true ↔
      scope.encloses e.owner? = true ∧ f.accepts e.element.kind = true ∧
        qualifiedName e.id = qualifiedName d.id := by
  obtain ⟨p, hp⟩ := Option.isSome_iff_exists.mp hs
  have hfits := NamePattern.matchesName_iff hp (hd.nameText hs) hdot
  simp [reports, declarationTest?, hp, hfits]

lemma reports_elements_used (f : ElementFamily) (q : String) (u : Use) :
    ((index.namedAs f q).any fun e =>
      reports ⟨.element e.element, category, true⟩ scope (.used u)) = true ↔
      (category.accepts u.role = true ∧ scope.encloses u.enclosingType = true) ∧
        FindsUse index f q u := by
  simp only [List.any_eq_true, reports, useTest?, Option.any_some, Bool.and_eq_true,
    List.contains_iff_mem, FindsUse]
  constructor
  · rintro ⟨e, he, hu, ht⟩
    exact ⟨hu, e, he, ht⟩
  · rintro ⟨hu, e, he, ht⟩
    exact ⟨e, he, hu, ht⟩

lemma reports_elements_declared (he : e ∈ (ofFiles files).declarations) :
    (((ofFiles files).namedAs f q).any fun e' =>
      reports ⟨.element e'.element, category, true⟩ scope (.declared e)) = true ↔
      scope.encloses e.owner? = true ∧ f.accepts e.element.kind = true ∧ qualifiedName e.id = q := by
  simp only [List.any_eq_true, reports, declarationTest?, Option.any_some, Bool.and_eq_true,
    beq_iff_eq]
  constructor
  · rintro ⟨e', he', ho, hid⟩
    obtain ⟨hin, hk, hq⟩ := mem_namedAs.mp he'
    have hk' := (marked_ofFiles he).accepts_eq (marked_ofFiles hin) hid f
    rw [hk] at hk'
    exact ⟨ho, hk', (congrArg qualifiedName hid).trans hq⟩
  · rintro ⟨ho, hk, hq⟩
    exact ⟨e, mem_namedAs.mpr ⟨he, hk, hq⟩, ho, rfl⟩

/-- Of two searches of uses, one reports the uses in `extra` besides what the other reports. -/
lemma filterMap_uses_eq_iff {P Q : Entry → Bool} {admitted more fewer extra : Use → Prop}
    (hP : ∀ u, P (.used u) = true ↔ admitted u ∧ fewer u)
    (hQ : ∀ u, Q (.used u) = true ↔ admitted u ∧ more u)
    (h : ∀ u ∈ index.uses, (more u ↔ fewer u ∨ extra u) ∧ ¬(fewer u ∧ extra u)) :
    ((index.uses.map .used).filter P).filterMap (Entry.hit? index) =
        ((index.uses.map .used).filter Q).filterMap (Entry.hit? index) ↔
      ∀ u ∈ index.uses, extra u → admitted u → index.useHit? u = none := by
  have hsub : ∀ x ∈ index.uses.map Entry.used, P x = true → Q x = true := by
    rw [List.forall_mem_map]
    intro u hu
    rw [hP, hQ, (h u hu).1]
    exact fun ⟨ha, hf⟩ => ⟨ha, .inl hf⟩
  rw [filterMap_filter_eq_iff hsub, List.forall_mem_map]
  refine forall₂_congr fun u hu => ?_
  obtain ⟨hiff, hnot⟩ := h u hu
  rw [← Bool.not_eq_true, hP, hQ, hiff]
  constructor
  · intro hnone he ha
    exact hnone ⟨ha, .inr he⟩ fun hf => hnot ⟨hf.2, he⟩
  · rintro hnone ⟨ha, hf | he⟩ hno
    · exact absurd ⟨ha, hf⟩ hno
    · exact hnone he ha

end Reports

/-- A search for the qualified name of a declared element, kept to its family, reports what the searches
for the elements of that family and name report, each place once and in the order of the index. The only
exceptions are types that a file mentions and whose names were read with a hash in them. -/
theorem search_by_qualified_name (files : List (String × String))
    (hc : Lexicon.ConstructorsNamed (ofFiles files).declarations) (d : Declaration)
    (hd : d ∈ (ofFiles files).declarations) (f : ElementFamily)
    (hf : f.accepts d.element.kind = true) (hdot : '.' ∈ (qualifiedName d.id).toList)
    (hs : (NamePattern.parse? (qualifiedName d.id) true).isSome = true) (category : Category)
    (scope : SearchScope) :
    let index := ofFiles files
    let q := qualifiedName d.id
    (∀ pattern scope, index.search pattern scope =
      ((index.entries pattern.category).filter (reports pattern scope)).filterMap
        (Entry.hit? index)) ∧
    (index.search ⟨.name q (some f), category, true⟩ scope =
        ((index.entries category).filter fun x => (index.namedAs f q).any fun e =>
          reports ⟨.element e.element, category, true⟩ scope x).filterMap (Entry.hit? index) ↔
      category = .declarations ∨ ∀ u ∈ index.uses, index.Misread f q u →
        category.accepts u.role = true ∧ scope.encloses u.enclosingType = true →
          index.useHit? u = none) := by
  intro index q
  refine ⟨index.search_eq, ?_⟩
  have hmarked := marked_ofFiles hd
  rw [search_eq]
  by_cases hcategory : category = .declarations
  · subst hcategory
    refine iff_of_true (congrArg _ (List.filter_congr fun x hx => ?_)) (.inl rfl)
    obtain ⟨e, he, rfl⟩ := List.mem_map.mp hx
    rw [Bool.eq_iff_iff, reports_name_declared _ _ hs hmarked hdot,
      reports_elements_declared _ _ he]
  · simp only [hcategory, false_or]
    rw [index.entries_eq hcategory]
    have hnames (u : Use) := reports_name_used category scope f u hs hmarked hdot
    have hfinds := index.reports_elements_used category scope f q
    by_cases hfamily : f = .type
    · subst hfamily
      rw [eq_comm]
      exact index.filterMap_uses_eq_iff hfinds hnames fun u hu => namesUse_type_iff hc hu hs hd hf
    · exact index.filterMap_uses_eq_iff hnames hfinds fun u hu => findsUse_member_iff hc hu hfamily

/-- A file whose field has a type with a comment in its arguments. What is left of the name of that
type, with the arguments and their brackets left out, is `A#f(.B`. -/
def bracketedComment : List (String × String) :=
  [("A.java", "class A { class f { } A</*>#f(<*/String>.B x; }")]

theorem search_by_qualified_name_bracketedComment : ∃ d ∈ (ofFiles bracketedComment).declarations,
    d.id = "A.f" ∧
      (ofFiles bracketedComment).search ⟨.name "A.f" (some .type), .references, true⟩ .project ≠
        (((ofFiles bracketedComment).entries .references).filter fun x =>
          ((ofFiles bracketedComment).namedAs .type "A.f").any fun e =>
            reports ⟨.element e.element, .references, true⟩ .project x).filterMap
              (Entry.hit? (ofFiles bracketedComment)) := by
  have hc : Lexicon.ConstructorsNamed (ofFiles bracketedComment).declarations := by decide +kernel
  obtain ⟨d, hd, hfacts⟩ : ∃ d ∈ (ofFiles bracketedComment).declarations,
      ElementFamily.type.accepts d.element.kind = true ∧ d.id = "A.f" := by
    decide +kernel
  have hname : qualifiedName "A.f" = "A.f" := by decide +kernel
  have hiff := (search_by_qualified_name bracketedComment hc d hd .type hfacts.1
    (by rw [hfacts.2]; decide +kernel) (by rw [hfacts.2]; decide +kernel) .references .project).2
  rw [hfacts.2, hname] at hiff
  refine ⟨d, hd, hfacts.2, fun heq => ?_⟩
  have hmisread : ∃ u ∈ (ofFiles bracketedComment).uses, u.family = .type ∧
      (∃ t ∈ u.targets, '#' ∈ t.toList ∧ qualifiedName t = "A.f") ∧
      Category.references.accepts u.role = true ∧
      ((ofFiles bracketedComment).useHit? u).isSome = true := by
    decide +kernel
  obtain ⟨u, hu, hfamily, ⟨t, ht, hhash, hq⟩, hrole, hhit⟩ := hmisread
  have hnone := (hiff.mp heq).resolve_left (by decide) u hu
    ⟨hfamily, t, ht, hhash, hq, .inl rfl⟩ ⟨hrole, rfl⟩
  rw [hnone] at hhit
  cases hhit

end JavaAtlas.Index
