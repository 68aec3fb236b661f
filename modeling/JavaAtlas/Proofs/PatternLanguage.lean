import JavaAtlas.Proofs.QualifiedNames

/-! The language of a pattern. A text makes a pattern exactly if it is written like one, and an element
fits the pattern exactly if the name that the pattern speaks of, taken whole, is in its language. -/

namespace JavaAtlas.NamePattern

open Text

variable {caseSensitive : Bool} {pattern name after : List Char} {bs : List Bool}
variable {P Q : List Char → Prop}

/-- A letter of a pattern stands for a character: for itself, and when case does not count for every
character that folds to the same code. -/
def StandsFor (caseSensitive : Bool) (l c : Char) : Prop :=
  l = c ∨ caseSensitive = false ∧ foldCode l.toNat = foldCode c.toNat

/-- The names in the language of a pattern. -/
inductive Glob (caseSensitive : Bool) : List Char → List Char → Prop
  | nil : Glob caseSensitive [] []
  | run {pattern stretch name : List Char} : '\n' ∉ stretch → Glob caseSensitive pattern name →
      Glob caseSensitive ('*' :: pattern) (stretch ++ name)
  | one {pattern name : List Char} {c : Char} : c ≠ '\n' → Glob caseSensitive pattern name →
      Glob caseSensitive ('?' :: pattern) (c :: name)
  | letter {pattern name : List Char} {l c : Char} : l ≠ '*' → l ≠ '?' →
      StandsFor caseSensitive l c → Glob caseSensitive pattern name →
      Glob caseSensitive (l :: pattern) (c :: name)

/-- The answers say of each end piece of a name, the longest first, whether it has a property. -/
def Answers (P : List Char → Prop) (name : List Char) (bs : List Bool) : Prop :=
  List.Forall₂ (fun b ending => b = true ↔ P ending) bs name.tails

namespace Answers

lemma cons_iff {c : Char} : Answers P (c :: name) bs ↔
    ∃ b rest, bs = b :: rest ∧ (b = true ↔ P (c :: name)) ∧ Answers P name rest := by
  rw [Answers, List.tails_cons, List.forall₂_cons_right_iff]
  constructor
  · rintro ⟨b, rest, hb, hrest, rfl⟩
    exact ⟨b, rest, rfl, hb, hrest⟩
  · rintro ⟨b, rest, rfl, hb, hrest⟩
    exact ⟨b, rest, hb, hrest, rfl⟩

lemma nil_iff : Answers P [] bs ↔ ∃ b, bs = [b] ∧ (b = true ↔ P []) := by
  change List.Forall₂ _ bs [[]] ↔ _
  rw [List.forall₂_cons_right_iff]
  simp [and_comm]

lemma head (h : Answers P name bs) : bs.headD false = true ↔ P name := by
  cases name with
  | nil =>
    obtain ⟨b, rfl, hb⟩ := nil_iff.mp h
    exact hb
  | cons c name =>
    obtain ⟨b, rest, rfl, hb, -⟩ := cons_iff.mp h
    exact hb

lemma congr (hPQ : ∀ ending, P ending ↔ Q ending) (h : Answers P name bs) : Answers Q name bs :=
  h.imp fun _ _ hb => hb.trans (hPQ _)

lemma empty (name : List Char) :
    Answers (· = []) name (name.map (fun _ => false) ++ [true]) := by
  induction name with
  | nil => exact nil_iff.mpr ⟨true, rfl, by simp⟩
  | cons c name ih => exact cons_iff.mpr ⟨false, _, rfl, by simp, ih⟩

/-- A run of characters before what has the property: either the run is over, or it takes one more
character and goes on. -/
lemma run (h : Answers P name bs) :
    Answers (fun ending => ∃ stretch rest, ending = stretch ++ rest ∧ '\n' ∉ stretch ∧ P rest) name
      (runBefore name bs) := by
  induction name generalizing bs with
  | nil =>
    obtain ⟨b, rfl, hb⟩ := nil_iff.mp h
    exact nil_iff.mpr ⟨b, rfl, hb.trans (by simp)⟩
  | cons c name ih =>
    obtain ⟨b, rest, rfl, hb, hrest⟩ := cons_iff.mp h
    refine cons_iff.mpr ⟨_, _, rfl, ?_, ih hrest⟩
    rw [Bool.or_eq_true, Bool.and_eq_true, hb, (ih hrest).head, bne_iff_ne]
    constructor
    · rintro (hP | ⟨hc, stretch, ending, rfl, hstretch, hP⟩)
      · exact ⟨[], c :: name, rfl, List.not_mem_nil, hP⟩
      · exact ⟨c :: stretch, ending, rfl, by simp [hstretch, Ne.symm hc], hP⟩
    · rintro ⟨stretch, ending, heq, hstretch, hP⟩
      cases stretch with
      | nil => exact .inl (by rwa [heq])
      | cons d stretch =>
        obtain ⟨rfl, rfl⟩ := List.cons.inj heq
        rw [List.mem_cons, not_or] at hstretch
        exact .inr ⟨Ne.symm hstretch.1, stretch, ending, rfl, hstretch.2, hP⟩

lemma one (takes : Char → Bool) (h : Answers P name bs) :
    Answers (fun ending => ∃ c rest, ending = c :: rest ∧ takes c = true ∧ P rest) name
      (oneBefore takes name bs) := by
  induction name generalizing bs with
  | nil => exact nil_iff.mpr ⟨false, by rw [oneBefore.eq_def], by simp⟩
  | cons c name ih =>
    obtain ⟨b, rest, rfl, -, hrest⟩ := cons_iff.mp h
    refine cons_iff.mpr ⟨_, _, rfl, ?_, ih hrest⟩
    rw [Bool.and_eq_true, hrest.head]
    simp

end Answers

example : ((parse? " g?*N " false).map fun p => (p.matchesName "gxTON" "", p.matchesName "gN" "")) =
    some (true, false) := by decide +kernel

end JavaAtlas.NamePattern
