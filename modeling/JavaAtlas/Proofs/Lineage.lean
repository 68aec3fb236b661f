import JavaAtlas.Binding.Lexicon
import Mathlib.Logic.Relation
import Mathlib.Tactic.Lemma
import Mathlib.Tactic.Common

/-! The lineage of a type holds exactly the types that it inherits from inside the project: the
steps that a walk may take are enough for every project, whether its inheritance is cyclic or not. -/

namespace JavaAtlas.Binding.Lexicon

variable (lex : Lexicon)

def Inherits : String → String → Prop :=
  Relation.ReflTransGen fun a b => b ∈ lex.projectSupertypes a

def unseenSupers (seen : List String) : List (String × List TypeRef) → Nat
  | [] => 0
  | (id, refs) :: rest => (if id ∈ seen then 0 else refs.length) + unseenSupers seen rest

lemma unseenSupers_cons_le (seen : List String) (id : String)
    (supertypes : List (String × List TypeRef)) :
    unseenSupers (id :: seen) supertypes ≤ unseenSupers seen supertypes := by
  induction supertypes with
  | nil => exact Nat.le_refl _
  | cons t rest ih =>
    obtain ⟨a, refs⟩ := t
    simp only [unseenSupers, List.mem_cons]
    by_cases ha : a ∈ seen
    · simpa [ha] using ih
    · by_cases hi : a = id <;> simp only [ha, hi, or_false, true_or, if_true, if_false] <;> omega

lemma unseenSupers_step (seen : List String) (id : String) (hid : id ∉ seen)
    (supertypes : List (String × List TypeRef)) :
    unseenSupers (id :: seen) supertypes + ((supertypes.lookup id).getD []).length ≤
      unseenSupers seen supertypes := by
  induction supertypes with
  | nil => simp [unseenSupers]
  | cons t rest ih =>
    obtain ⟨a, refs⟩ := t
    by_cases hi : a = id
    · subst hi
      have hle := unseenSupers_cons_le seen a rest
      simp only [unseenSupers, List.mem_cons, true_or, if_true, hid, if_false,
        List.lookup_cons_self, Option.getD_some]
      omega
    · have hb : (id == a) = false := by simpa using Ne.symm hi
      simp only [unseenSupers, List.mem_cons, hi, false_or, List.lookup_cons, hb]
      omega

lemma projectSupertypes_length_le (id : String) :
    (lex.projectSupertypes id).length ≤ (lex.supertypesOf id).length :=
  List.length_filterMap_le _ _

lemma unseenSupers_nil_le (supertypes : List (String × List TypeRef)) (n : Nat) :
    n + unseenSupers [] supertypes ≤ supertypes.foldl (fun n t => n + t.2.length + 1) n := by
  induction supertypes generalizing n with
  | nil => exact Nat.le_refl _
  | cons t rest ih =>
    obtain ⟨a, refs⟩ := t
    have hh := ih (n + refs.length + 1)
    simp only [unseenSupers, List.not_mem_nil, if_false, List.foldl_cons]
    omega

lemma lineageFrom_sound {fuel : Nat} {seen queue : List String} {t : String}
    (h : t ∈ lex.lineageFrom fuel seen queue) : ∃ q ∈ queue, lex.Inherits q t := by
  induction fuel generalizing seen queue with
  | zero => simp [lineageFrom] at h
  | succ fuel ih =>
    cases queue with
    | nil => simp [lineageFrom] at h
    | cons id queue =>
      by_cases hs : seen.contains id
      · simp only [lineageFrom, hs, if_true] at h
        obtain ⟨q, hq, hi⟩ := ih h
        exact ⟨q, List.mem_cons_of_mem _ hq, hi⟩
      · simp only [lineageFrom, hs, Bool.false_eq_true, if_false, List.mem_cons] at h
        rcases h with rfl | h
        · exact ⟨t, List.mem_cons_self, .refl⟩
        · obtain ⟨q, hq, hi⟩ := ih h
          rcases List.mem_append.mp hq with hq | hq
          · exact ⟨q, List.mem_cons_of_mem _ hq, hi⟩
          · exact ⟨id, List.mem_cons_self, hi.head hq⟩

/-- A walk that has enough steps leaves nothing out: what it was to visit and the supertypes of what
it has visited were seen before or are part of its result. -/
lemma lineageFrom_closed (fuel : Nat) (seen queue : List String)
    (hf : queue.length + unseenSupers seen lex.supertypes < fuel)
    (hc : ∀ x ∈ seen, ∀ y ∈ lex.projectSupertypes x, y ∈ seen ∨ y ∈ queue) :
    (∀ q ∈ queue, q ∈ seen ∨ q ∈ lex.lineageFrom fuel seen queue) ∧
      ∀ x, x ∈ seen ∨ x ∈ lex.lineageFrom fuel seen queue → ∀ y ∈ lex.projectSupertypes x,
        y ∈ seen ∨ y ∈ lex.lineageFrom fuel seen queue := by
  induction fuel generalizing seen queue with
  | zero => omega
  | succ fuel ih =>
    cases queue with
    | nil =>
      refine ⟨by simp, ?_⟩
      rintro x (hx | hx) y hy
      · exact (hc x hx y hy).imp_right (by simp)
      · simp [lineageFrom] at hx
    | cons id queue =>
      simp only [List.length_cons] at hf
      by_cases hs : seen.contains id
      · have hid : id ∈ seen := by simpa using hs
        have hq : ∀ x ∈ seen, ∀ y ∈ lex.projectSupertypes x, y ∈ seen ∨ y ∈ queue := by
          intro x hx y hy
          rcases hc x hx y hy with h | h
          · exact Or.inl h
          · rcases List.mem_cons.mp h with rfl | h
            · exact Or.inl hid
            · exact Or.inr h
        obtain ⟨h₁, h₂⟩ := ih seen queue (by omega) hq
        simp only [lineageFrom, hs, if_true]
        refine ⟨?_, h₂⟩
        intro q hq
        rcases List.mem_cons.mp hq with rfl | hq
        · exact Or.inl hid
        · exact h₁ q hq
      · have hid : id ∉ seen := by simpa using hs
        have hstep := unseenSupers_step seen id hid lex.supertypes
        have hlen := lex.projectSupertypes_length_le id
        have hq : ∀ x ∈ id :: seen, ∀ y ∈ lex.projectSupertypes x,
            y ∈ id :: seen ∨ y ∈ queue ++ lex.projectSupertypes id := by
          intro x hx y hy
          rcases List.mem_cons.mp hx with rfl | hx
          · exact Or.inr (List.mem_append_right _ hy)
          · rcases hc x hx y hy with h | h
            · exact Or.inl (List.mem_cons_of_mem _ h)
            · rcases List.mem_cons.mp h with rfl | h
              · exact Or.inl List.mem_cons_self
              · exact Or.inr (List.mem_append_left _ h)
        obtain ⟨h₁, h₂⟩ := ih (id :: seen) (queue ++ lex.projectSupertypes id)
          (by simp only [supertypesOf] at hlen; simp only [List.length_append]; omega) hq
        simp only [lineageFrom, hs, Bool.false_eq_true, if_false, List.mem_cons] at h₁ h₂ ⊢
        constructor
        · rintro q (rfl | hq)
          · exact Or.inr (Or.inl rfl)
          · rcases h₁ q (List.mem_append_left _ hq) with (h | h) | h
            · exact Or.inr (Or.inl h)
            · exact Or.inl h
            · exact Or.inr (Or.inr h)
        · intro x hx y hy
          rcases h₂ x (by tauto) y hy with (h | h) | h
          · exact Or.inr (Or.inl h)
          · exact Or.inl h
          · exact Or.inr (Or.inr h)

theorem mem_lineage_iff {id t : String} : t ∈ lex.lineage id ↔ lex.Inherits id t := by
  constructor
  · intro h
    obtain ⟨q, hq, hi⟩ := lex.lineageFrom_sound h
    rwa [List.mem_singleton.mp hq] at hi
  · intro h
    have hfuel := unseenSupers_nil_le lex.supertypes 2
    obtain ⟨h₁, h₂⟩ := lex.lineageFrom_closed lex.lineageFuel [] [id]
      (by simp only [lineageFuel, List.length_singleton]; omega) (by simp)
    simp only [List.not_mem_nil, false_or] at h₁ h₂
    induction h with
    | refl => exact h₁ id (List.mem_singleton_self id)
    | tail _ hs ih => exact h₂ _ ih _ hs

end JavaAtlas.Binding.Lexicon
