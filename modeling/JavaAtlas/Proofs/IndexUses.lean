import JavaAtlas.Index
import JavaAtlas.Proofs.MemberBinding

/-! Where the declarations and the uses of an index come from: a declaration has the position that
its file begins at plus its own position there, and a use is a mention of one file that was bound
with that beginning. -/

namespace JavaAtlas.Binding.Lexicon

open Outline Text

variable (lex : Lexicon)

lemma accepts_of_sought {t : Target} {q : Sought} (h : sought? t = some q) {d : Declaration}
    (hd : q.fits d = true ∨ q.anywhere d = true) : q.family.accepts d.element.kind = true := by
  cases t with
  | type | name | constructor => simp [sought?] at h
  | field name receiver =>
    obtain rfl := Option.some.inj h
    simp_all [isField, ElementFamily.accepts]
  | method name arity receiver =>
    obtain rfl := Option.some.inj h
    simp_all [isMethod, ElementFamily.accepts, ElementKind.isMethod]
  | methodRef name receiver =>
    simp only [sought?] at h
    split at h
    · obtain rfl := Option.some.inj h
      rcases hd with hd | hd <;>
        simp_all [isMethod, isConstructor, ElementFamily.accepts, ElementKind.isMethod]
    · obtain rfl := Option.some.inj h
      simp_all [isMethod, ElementFamily.accepts, ElementKind.isMethod]

lemma mem_of_fieldInChain? {name : String} {chain : List String} {d : Declaration}
    (h : lex.fieldInChain? name chain = some d) :
    d ∈ lex.declarations ∧ d.element.kind.isField = true := by
  obtain ⟨id, -, hid⟩ := List.exists_of_findSome?_eq_some h
  obtain ⟨type, -, hd⟩ := List.exists_of_findSome?_eq_some hid
  have hm := (List.mem_filter.mp (List.mem_of_find?_eq_some hd)).1
  have hf := List.find?_some hd
  simp only [isField, Bool.and_eq_true] at hf
  exact ⟨hm, hf.1⟩

lemma meaning?_members {t : Target} {unit : Nat} {chain : List String} {family : ElementFamily}
    {members : List Declaration} {accurate : Bool}
    (h : lex.meaning? unit chain t = some (.members family members accurate)) :
    ∀ d ∈ members, d ∈ lex.declarations ∧ family.accepts d.element.kind = true := by
  cases hq : sought? t with
  | some q =>
    rw [lex.meaning?_sought hq] at h
    split at h
    · obtain ⟨found, hf, hm⟩ := Option.map_eq_some_iff.mp h
      obtain ⟨rfl, rfl, -⟩ : q.family = family ∧ q.taken found = members ∧ _ := by simpa using hm
      obtain ⟨before, type, after, -, -, rfl⟩ := firstNonempty?_eq_some hf
      intro d hd
      have hin : d ∈ q.declaredIn lex type := by
        rw [Sought.taken] at hd
        split at hd
        · exact List.mem_of_mem_take hd
        · exact hd
      obtain ⟨hdecl, hfit⟩ := List.mem_filter.mp hin
      exact ⟨hdecl, accepts_of_sought hq (.inl (Bool.and_eq_true_iff.mp hfit).2)⟩
    · obtain ⟨d, hd, hm⟩ := Option.map_eq_some_iff.mp h
      obtain ⟨rfl, rfl, -⟩ : q.family = family ∧ [d] = members ∧ _ := by simpa using hm
      intro e he
      obtain rfl := List.mem_singleton.mp he
      have hin : e ∈ lex.declarations.filter q.anywhere := by simp [unique?_eq_some lex hd]
      obtain ⟨hdecl, hfit⟩ := List.mem_filter.mp hin
      exact ⟨hdecl, accepts_of_sought hq (.inr hfit)⟩
  | none =>
    cases t with
    | type name => simp [meaning?] at h
    | name name =>
      simp only [meaning?] at h
      split at h
      · next field hf =>
        obtain ⟨rfl, rfl, -⟩ : .field = family ∧ [field] = members ∧ _ := by simpa using h
        intro e he
        obtain rfl := List.mem_singleton.mp he
        exact lex.mem_of_fieldInChain? hf
      · split at h <;> simp at h
    | constructor typeName arity =>
      simp only [meaning?] at h
      split at h
      · next id _ =>
        split at h
        · simp at h
        · obtain ⟨rfl, rfl, -⟩ : .method = family ∧
              lex.membersWhere (isConstructor (some arity)) id = members ∧ _ := by
            simpa [Meaning.methods] using h
          intro d hd
          obtain ⟨hin, hc⟩ := List.mem_filter.mp hd
          refine ⟨(List.mem_filter.mp hin).1, ?_⟩
          simp_all [isConstructor, ElementFamily.accepts, ElementKind.isMethod]
      · simp at h
    | field | method => simp [sought?] at hq
    | methodRef name receiver =>
      simp only [sought?] at hq
      split at hq <;> simp at hq

structure BoundFrom (m : Mention) (unit offset : Nat) (u : Use) : Prop where
  unit_eq : u.unit = unit
  offset_eq : u.offset = m.offset
  length_eq : u.length = m.length
  enclosing_eq : u.enclosing = m.enclosing.map (· + offset)
  enclosingType_eq : u.enclosingType = m.chain.getLast?
  role_eq : u.role = m.role ∨ u.role = .reference
  targets_declared : u.family ≠ .type →
    ∀ t ∈ u.targets, ∃ d ∈ lex.declarations, d.id = t ∧ u.family.accepts d.element.kind = true

lemma bind?_boundFrom {m : Mention} {unit offset : Nat} {u : Use}
    (h : lex.bind? m unit offset = some u) : lex.BoundFrom m unit offset u := by
  obtain ⟨meaning, hm, rfl⟩ := Option.map_eq_some_iff.mp h
  cases meaning with
  | type ref =>
    refine ⟨rfl, rfl, rfl, rfl, rfl, ?_, fun hne => absurd rfl hne⟩
    dsimp only
    split
    · exact .inr rfl
    · exact .inl rfl
  | members family members accurate =>
    have hin := lex.meaning?_members hm
    refine ⟨rfl, rfl, rfl, rfl, rfl, .inl rfl, fun _ t ht => ?_⟩
    obtain ⟨d, hd, rfl⟩ := List.mem_map.mp ht
    exact ⟨d, (hin d hd).1, rfl, (hin d hd).2⟩

end JavaAtlas.Binding.Lexicon

namespace JavaAtlas.Index

open Binding Outline

variable {outlines : List Outline} {o : Outline} {d : Declaration} {u : Use} {i k : Nat}

def lexiconOf (outlines : List Outline) : Lexicon :=
  .ofDeclarations (outlines.map fun o => ⟨o.package, o.imports⟩)
    (outlines.flatMap (·.declarations))

def startOf (outlines : List Outline) (i : Nat) : Nat :=
  ((outlines.take i).flatMap (·.declarations)).length

lemma startOf_succ (o : Outline) (outlines : List Outline) (i : Nat) :
    startOf (o :: outlines) (i + 1) = o.declarations.length + startOf outlines i := by
  simp [startOf]

lemma foldl_starts (outlines : List Outline) (at_ : Nat) (starts : List Nat) :
    ((outlines.map (·.declarations.length)).foldl
      (fun (at_, starts) n => (at_ + n, starts ++ [at_])) (at_, starts)).2 =
      starts ++ (List.range outlines.length).map fun i => at_ + startOf outlines i := by
  induction outlines generalizing at_ starts with
  | nil => simp
  | cons o outlines ih =>
    rw [List.map_cons, List.foldl_cons, ih, List.length_cons, List.range_succ_eq_map,
      List.map_cons, List.map_map, List.append_assoc]
    congr 1
    rw [List.singleton_append]
    congr 1
    apply List.map_congr_left
    intro i _
    simp only [Function.comp_apply, startOf_succ]
    omega

lemma zip_starts (outlines : List Outline) (s : Nat → Nat) :
    (outlines.zip ((List.range outlines.length).map s)).zipIdx =
      outlines.zipIdx.map fun o => ((o.1, s o.2), o.2) := by
  refine List.ext_getElem (by simp) fun i hi hi' => ?_
  simp

lemma uses_ofOutlines (outlines : List Outline) : (ofOutlines outlines).uses =
    outlines.zipIdx.flatMap fun o =>
      o.1.mentions.filterMap ((lexiconOf outlines).bind? · o.2 (startOf outlines o.2)) := by
  have hstarts := foldl_starts outlines 0 []
  simp only [List.nil_append, Nat.zero_add] at hstarts
  simp only [ofOutlines, hstarts, zip_starts, List.flatMap_map]
  rfl

lemma mem_uses_iff : u ∈ (ofOutlines outlines).uses ↔ ∃ i o m, outlines[i]? = some o ∧
    m ∈ o.mentions ∧ (lexiconOf outlines).bind? m i (startOf outlines i) = some u := by
  simp only [uses_ofOutlines, List.mem_flatMap, List.mem_filterMap]
  constructor
  · rintro ⟨⟨o, i⟩, ho, m, hm, hb⟩
    exact ⟨i, o, m, List.mem_zipIdx_iff_getElem?.mp ho, hm, hb⟩
  · rintro ⟨i, o, m, ho, hm, hb⟩
    exact ⟨(o, i), List.mem_zipIdx_iff_getElem?.mpr ho, m, hm, hb⟩

lemma getElem?_startOf (h : outlines[i]? = some o) (hk : o.declarations[k]? = some d) :
    (outlines.flatMap (·.declarations))[startOf outlines i + k]? = some d := by
  induction outlines generalizing i with
  | nil => simp at h
  | cons o' outlines ih =>
    have hlt : k < o.declarations.length := (List.getElem?_eq_some_iff.mp hk).1
    rw [List.flatMap_cons]
    cases i with
    | zero =>
      obtain rfl : o' = o := by simpa using h
      have hzero : startOf (o' :: outlines) 0 + k = k := by simp [startOf]
      rw [hzero, List.getElem?_append_left hlt, hk]
    | succ i =>
      rw [startOf_succ, List.getElem?_append_right (by omega)]
      have hsub : o'.declarations.length + startOf outlines i + k - o'.declarations.length =
          startOf outlines i + k := by omega
      rw [hsub]
      exact ih (by simpa using h)

lemma exists_of_getElem? {j : Nat} (h : (outlines.flatMap (·.declarations))[j]? = some d) :
    ∃ i o k, outlines[i]? = some o ∧ o.declarations[k]? = some d ∧ j = startOf outlines i + k := by
  induction outlines generalizing j with
  | nil => simp at h
  | cons o outlines ih =>
    rw [List.flatMap_cons] at h
    rcases Nat.lt_or_ge j o.declarations.length with hlt | hge
    · rw [List.getElem?_append_left hlt] at h
      exact ⟨0, o, j, rfl, h, by simp [startOf]⟩
    · rw [List.getElem?_append_right hge] at h
      obtain ⟨i, o', k, ho, hk, hj⟩ := ih h
      refine ⟨i + 1, o', k, by simpa using ho, hk, ?_⟩
      rw [startOf_succ]
      omega

end JavaAtlas.Index
