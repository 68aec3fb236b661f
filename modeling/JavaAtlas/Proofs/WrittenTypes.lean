import JavaAtlas.Proofs.AnchorNames

/-! Types as they are written, with white space between the tokens. The erasure finds the last simple
name however they are written; the rank counts all pairs of brackets that no white space parts, those
of type arguments too. -/

namespace JavaAtlas.Outline

open Syntax Text List

variable {cs ds gap : List Char} {rank rank' : Nat} {n m : String}

/-- What tokens can make up: a name with its type arguments, several of these with the name of the last,
and what stands in type arguments. -/
inductive Phrase where
  | segment (name : String)
  | path (name : String)
  | type
  | argument
  | arguments

/-- The tokens of names with type arguments, joined by points, and of what stands in such arguments:
wildcards, types and arrays of them. -/
inductive Writes : Phrase → List String → Prop
  | simple {n : String} : IsWord n → Writes (.segment n) [n]
  | generic {n : String} {ts : List String} : IsWord n → Writes .arguments ts →
      Writes (.segment n) ([n, "<"] ++ ts ++ [">"])
  | outermost {n : String} {ts : List String} : Writes (.segment n) ts → Writes (.path n) ts
  | inner {n m : String} {ts us : List String} : Writes (.path m) ts → Writes (.segment n) us →
      Writes (.path n) (ts ++ ["."] ++ us)
  | named {n : String} {ts : List String} : Writes (.path n) ts → Writes .type ts
  | array {ts : List String} : Writes .type ts → Writes .type (ts ++ ["[", "]"])
  | wildcard : Writes .argument ["?"]
  | upper {ts : List String} : Writes .type ts → Writes .argument (["?", "extends"] ++ ts)
  | lower {ts : List String} : Writes .type ts → Writes .argument (["?", "super"] ++ ts)
  | exactly {ts : List String} : Writes .type ts → Writes .argument ts
  | last {ts : List String} : Writes .argument ts → Writes .arguments ts
  | more {ts us : List String} : Writes .argument ts → Writes .arguments us →
      Writes .arguments (ts ++ [","] ++ us)

/-- Tokens with the white space before each. -/
abbrev Layout := List (String × String)

namespace Layout

def tokens (l : Layout) : List String := l.map (·.2)

def spelled (l : Layout) : List Char := l.flatMap fun p => p.1.toList ++ p.2.toList

/-- Only white space stands between the tokens. -/
def Blank (l : Layout) : Prop := ∀ p ∈ l, isBlankText p.1 = true

/-- The pairs of square brackets without white space between them. -/
def tightPairs (l : Layout) : Nat := l.countP fun p => p.1 == "" && p.2 == "]"

variable {l l' : Layout}

@[simp] lemma spelled_append : spelled (l ++ l') = spelled l ++ spelled l' := flatMap_append

@[simp] lemma spelled_cons (p : String × String) :
    spelled (p :: l) = p.1.toList ++ p.2.toList ++ spelled l := rfl

@[simp] lemma spelled_nil : spelled [] = [] := rfl

@[simp] lemma tightPairs_append : tightPairs (l ++ l') = tightPairs l + tightPairs l' := countP_append

@[simp] lemma blank_append : Blank (l ++ l') ↔ Blank l ∧ Blank l' := forall_mem_append

@[simp] lemma blank_cons {p : String × String} : Blank (p :: l) ↔ isBlankText p.1 = true ∧ Blank l :=
  forall_mem_cons

lemma exists_append {ts us : List String} (h : l.tokens = ts ++ us) :
    ∃ l₁ l₂ : Layout, l = l₁ ++ l₂ ∧ l₁.tokens = ts ∧ l₂.tokens = us := map_eq_append_iff.mp h

lemma exists_one {t : String} (h : l.tokens = [t]) : ∃ g, l = [(g, t)] := by
  obtain ⟨⟨g, t⟩, rfl, rfl⟩ := map_eq_singleton_iff.mp h
  exact ⟨g, rfl⟩

lemma exists_two {t u : String} (h : l.tokens = [t, u]) : ∃ g g', l = [(g, t), (g', u)] := by
  obtain ⟨l₁, l₂, rfl, h₁, h₂⟩ := @exists_append l [t] [u] h
  obtain ⟨g, rfl⟩ := exists_one h₁
  obtain ⟨g', rfl⟩ := exists_one h₂
  exact ⟨g, g', rfl⟩

end Layout

/-- Tokens that stand by themselves. -/
def marks : List String := [".", "?", "extends", "super", ","]

/-- A written type is made up of words and marks, of angle brackets around others and of pairs of
square brackets. -/
lemma Writes.induct_layout {p : Phrase} {ts : List String} {l : Layout} {P : Layout → Prop}
    (happend : ∀ l₁ l₂, P l₁ → P l₂ → P (l₁ ++ l₂))
    (hword : ∀ g n, isBlankText g = true → IsWord n → P [(g, n)])
    (hmark : ∀ g t, isBlankText g = true → t ∈ marks → P [(g, t)])
    (hangles : ∀ g g' l, isBlankText g = true → isBlankText g' = true → P l →
      P ((g, "<") :: l ++ [(g', ">")]))
    (hsquares : ∀ g g', isBlankText g = true → isBlankText g' = true → P [(g, "["), (g', "]")])
    (h : Writes p ts) (hl : l.tokens = ts) (hb : l.Blank) : P l := by
  induction h generalizing l with
  | simple hn =>
    obtain ⟨g, rfl⟩ := Layout.exists_one hl
    exact hword g _ (hb _ mem_cons_self) hn
  | generic hn _ ih =>
    obtain ⟨front, l₃, rfl, hfront, h₃⟩ := Layout.exists_append hl
    obtain ⟨l₁, l₂, rfl, h₁, h₂⟩ := Layout.exists_append hfront
    obtain ⟨g, g', rfl⟩ := Layout.exists_two h₁
    obtain ⟨g'', rfl⟩ := Layout.exists_one h₃
    simp only [Layout.blank_append, Layout.blank_cons] at hb
    exact happend [_] _ (hword g _ hb.1.1.1 hn) (hangles g' g'' l₂ hb.1.1.2.1 hb.2.1 (ih h₂ hb.1.2))
  | outermost _ ih | named _ ih | exactly _ ih | last _ ih => exact ih hl hb
  | inner _ _ ih ih' | more _ _ ih ih' =>
    obtain ⟨front, l₃, rfl, hfront, h₃⟩ := Layout.exists_append hl
    obtain ⟨l₁, l₂, rfl, h₁, h₂⟩ := Layout.exists_append hfront
    obtain ⟨g, rfl⟩ := Layout.exists_one h₂
    simp only [Layout.blank_append, Layout.blank_cons] at hb
    exact happend _ _ (happend _ _ (ih h₁ hb.1.1) (hmark g _ hb.1.2.1 (by decide))) (ih' h₃ hb.2)
  | array _ ih =>
    obtain ⟨l₁, l₂, rfl, h₁, h₂⟩ := Layout.exists_append hl
    obtain ⟨g, g', rfl⟩ := Layout.exists_two h₂
    simp only [Layout.blank_append, Layout.blank_cons] at hb
    exact happend _ _ (ih h₁ hb.1) (hsquares g g' hb.2.1 hb.2.2.1)
  | wildcard =>
    obtain ⟨g, rfl⟩ := Layout.exists_one hl
    exact hmark g _ (hb _ mem_cons_self) (by decide)
  | upper _ ih | lower _ ih =>
    obtain ⟨l₁, l₂, rfl, h₁, h₂⟩ := Layout.exists_append hl
    obtain ⟨g, g', rfl⟩ := Layout.exists_two h₁
    simp only [Layout.blank_append, Layout.blank_cons] at hb
    exact happend _ _ (happend [_] [_] (hmark g _ hb.1.1 (by decide)) (hmark g' _ hb.1.2.1 (by decide)))
      (ih h₂ hb.2)

/-! ### What the erasure drops -/

/-- The erasure drops this wherever it stands. -/
def Skipped (cs : List Char) : Prop :=
  ∀ depth kept rest, eraseFrom depth kept (cs ++ rest) = eraseFrom depth kept rest

namespace Skipped

lemma nil : Skipped [] := fun _ _ _ => rfl

lemma append (h : Skipped cs) (h' : Skipped ds) : Skipped (cs ++ ds) := fun depth kept rest => by
  rw [append_assoc, h, h']

lemma of_blanks (h : cs.all isBlank = true) : Skipped cs := by
  induction cs with
  | nil => exact nil
  | cons c cs ih =>
    obtain ⟨hc, hcs⟩ := Bool.and_eq_true_iff.mp h
    have hne {d : Char} (hd : isBlank d = false) : c ≠ d := by
      rintro rfl
      rw [hc] at hd
      cases hd
    intro depth kept rest
    rw [cons_append, eraseFrom, if_neg (hne (by decide)), if_neg (hne (by decide)), ih hcs]
    split_ifs <;> rfl

lemma of_blank {g : String} (h : isBlankText g = true) : Skipped g.toList := of_blanks h

lemma square : Skipped ['['] ∧ Skipped [']'] := by
  constructor <;> intro depth kept rest <;> simp [eraseFrom]

lemma angles (h : Balanced cs) : Skipped ('<' :: cs ++ ['>']) := fun depth kept rest => by
  rw [append_assoc]
  exact eraseFrom_brackets h rest

lemma balanced (h : Skipped cs) : Balanced cs := fun _ kept => ⟨kept, fun _ => rfl, h _ kept⟩

end Skipped

lemma balanced_of_isWord (h : IsWord n) : Balanced n.toList :=
  .of_bracketless (List.all_eq_true.mpr fun c hc => by
    have hkept := isKept_of_isWord h c hc
    simp only [isKept, Bool.and_eq_true] at hkept
    simp [hkept])

lemma Writes.balanced {p : Phrase} {l : Layout} (h : Writes p l.tokens) (hb : l.Blank) :
    Balanced l.spelled := by
  refine h.induct_layout (P := fun l => Balanced l.spelled) ?_ ?_ ?_ ?_ ?_ rfl hb
  · intro l₁ l₂ h₁ h₂
    rw [Layout.spelled_append]
    exact h₁.append h₂
  · intro g n hg hn
    simpa using (Skipped.of_blank hg).balanced.append (balanced_of_isWord hn)
  · intro g t hg ht
    have hmark : ∀ t ∈ marks, bracketless t.toList = true := by decide
    simpa using (Skipped.of_blank hg).balanced.append (.of_bracketless (hmark t ht))
  · intro g g' l hg hg' h
    have hin := (h.append (Skipped.of_blank hg').balanced).brackets
    simpa using (Skipped.of_blank hg).balanced.append hin
  · intro g g' hg hg'
    have hpair := (Skipped.square.1.append (Skipped.of_blank hg')).append Skipped.square.2
    simpa using ((Skipped.of_blank hg).append hpair).balanced

/-- A name stands at the end, before it nothing or a point, apart from what the erasure drops. -/
def EndsWith (n : String) (cs : List Char) : Prop :=
  ∃ front back, cs = front ++ n.toList ++ back ∧ Skipped back ∧
    (Skipped front ∨ ∃ before gap, front = before ++ '.' :: gap ∧ Balanced before ∧ Skipped gap)

namespace EndsWith

lemma append (h : EndsWith n cs) (hds : Skipped ds) : EndsWith n (cs ++ ds) := by
  obtain ⟨front, back, rfl, hback, hfront⟩ := h
  exact ⟨front, back ++ ds, append_assoc .., hback.append hds, hfront⟩

lemma afterLast_erase (h : EndsWith n cs) (hn : IsWord n) :
    afterLast '.' (eraseType (String.ofList cs)) = n := by
  obtain ⟨front, back, rfl, hback, hfront⟩ := h
  have hdrop {ds : List Char} (hds : Skipped ds) (before after : List Char) :
      eraseFrom 0 [] (before ++ (ds ++ after)) = eraseFrom 0 [] (before ++ after) :=
    eraseFrom_append_congr (fun depth kept => hds depth kept after) before
  have hend := hdrop hback (front ++ n.toList) []
  rw [append_nil, append_nil] at hend
  rw [eraseType, String.toList_ofList, hend]
  rcases hfront with hfront | ⟨before, gap, rfl, hbefore, hgap⟩
  · rw [hfront]
    have hself := afterLast_erase_of_isWord hn
    rwa [eraseType] at hself
  · have hpoint := hdrop hgap (before ++ ['.']) n.toList
    rw [append_assoc, append_assoc, singleton_append, singleton_append] at hpoint
    rw [append_assoc, cons_append, hpoint,
      afterLast_erase_pointed hbefore (isKept_of_isWord hn) hn.ne_nil,
      String.ofList_toList]

end EndsWith

namespace Writes

variable {l : Layout}

lemma isWord_segment {ts : List String} (h : Writes (.segment n) ts) : IsWord n := by
  cases h <;> assumption

lemma segment_spelled (h : Writes (.segment n) l.tokens) (hb : l.Blank) :
    ∃ gap back, l.spelled = gap ++ n.toList ++ back ∧ Skipped gap ∧ Skipped back := by
  generalize hl : l.tokens = ts at h
  cases h with
  | simple hn =>
    obtain ⟨g, rfl⟩ := Layout.exists_one hl
    exact ⟨g.toList, [], by simp, .of_blank (hb _ mem_cons_self), .nil⟩
  | generic hn harguments =>
    obtain ⟨front, l₃, rfl, hfront, h₃⟩ := Layout.exists_append hl
    obtain ⟨l₁, l₂, rfl, h₁, h₂⟩ := Layout.exists_append hfront
    obtain ⟨g, g', rfl⟩ := Layout.exists_two h₁
    obtain ⟨g'', rfl⟩ := Layout.exists_one h₃
    simp only [Layout.blank_append, Layout.blank_cons] at hb
    subst h₂
    have hin := (harguments.balanced hb.1.2).append (Skipped.of_blank hb.2.1).balanced
    exact ⟨g.toList, _, by simp, .of_blank hb.1.1.1,
      (Skipped.of_blank hb.1.1.2.1).append (.angles hin)⟩

/-- The name of a path stands at its end, whatever type arguments stand in it. -/
lemma path_endsWith (h : Writes (.path n) l.tokens) (hb : l.Blank) :
    IsWord n ∧ EndsWith n l.spelled := by
  generalize hl : l.tokens = ts at h
  cases h with
  | outermost h =>
    subst hl
    obtain ⟨gap, back, heq, hgap, hback⟩ := h.segment_spelled hb
    exact ⟨h.isWord_segment, gap, back, heq, hback, .inl hgap⟩
  | inner hbefore h =>
    obtain ⟨front, l₃, rfl, hfront, rfl⟩ := Layout.exists_append hl
    obtain ⟨l₁, l₂, rfl, rfl, h₂⟩ := Layout.exists_append hfront
    obtain ⟨g, rfl⟩ := Layout.exists_one h₂
    simp only [Layout.blank_append, Layout.blank_cons] at hb
    obtain ⟨gap, back, heq, hgap, hback⟩ := h.segment_spelled hb.2
    have hfront := (hbefore.balanced hb.1.1).append (Skipped.of_blank hb.1.2.1).balanced
    refine ⟨h.isWord_segment, _, back, ?_, hback, .inr ⟨_, gap, rfl, hfront, hgap⟩⟩
    simp [heq]

end Writes

/-! ### Which brackets are counted -/

/-- So many pairs of brackets are counted here, whatever follows. -/
def Counted (cs : List Char) (rank : Nat) : Prop :=
  ∀ rest, countBrackets (cs ++ rest) = rank + countBrackets rest

namespace Counted

lemma nil : Counted [] 0 := fun _ => (Nat.zero_add _).symm

lemma append (h : Counted cs rank) (h' : Counted ds rank') : Counted (cs ++ ds) (rank + rank') :=
  fun rest => by rw [append_assoc, h, h', Nat.add_assoc]

lemma of_not_mem (h : '[' ∉ cs) : Counted cs 0 := by
  induction cs with
  | nil => exact nil
  | cons c cs ih =>
    obtain ⟨hc, hcs⟩ := not_or.mp (mem_cons.not.mp h)
    intro rest
    rw [cons_append, countBrackets_cons fun hh => hc hh.1.symm, ih hcs]

lemma pair (hb : gap.all isBlank = true) :
    Counted ('[' :: gap ++ [']']) (if gap = [] then 1 else 0) := by
  intro rest
  cases gap with
  | nil =>
    change countBrackets rest + 1 = _
    rw [if_pos rfl, Nat.add_comm]
  | cons c gap =>
    have hc : c ≠ ']' := by
      rintro rfl
      exact absurd (all_eq_true.mp hb _ mem_cons_self) (by decide)
    have hmem : '[' ∉ c :: gap ++ [']'] := by
      intro hm
      rcases mem_append.mp hm with hm | hm
      · exact absurd (all_eq_true.mp hb _ hm) (by decide)
      · exact absurd (mem_singleton.mp hm) (by decide)
    have hfirst : ¬('[' = '[' ∧ (c :: gap ++ [']'] ++ rest).head? = some ']') := by simpa using hc
    rw [if_neg (cons_ne_nil c gap), ← of_not_mem hmem rest]
    exact countBrackets_cons hfirst

end Counted

lemma Counted.one {g t : String} (hg : isBlankText g = true) (ht : '[' ∉ t.toList) (hne : t ≠ "]") :
    Counted (Layout.spelled [(g, t)]) (Layout.tightPairs [(g, t)]) := by
  have hmem : '[' ∉ Layout.spelled [(g, t)] := by
    intro hm
    simp only [Layout.spelled_cons, Layout.spelled_nil, append_nil, mem_append] at hm
    rcases hm with hm | hm
    · exact absurd (all_eq_true.mp hg _ hm) (by decide)
    · exact ht hm
  have hnone : Layout.tightPairs [(g, t)] = 0 := by simp [Layout.tightPairs, hne]
  rw [hnone]
  exact .of_not_mem hmem

lemma Counted.squares {g g' : String} (hg : isBlankText g = true) (hg' : isBlankText g' = true) :
    Counted (Layout.spelled [(g, "["), (g', "]")]) (if g' = "" then 1 else 0) := by
  have hgap : '[' ∉ g.toList := fun hm => absurd (all_eq_true.mp hg _ hm) (by decide)
  have hboth := (of_not_mem hgap).append (pair hg')
  simpa [String.toList_eq_nil_iff] using hboth

lemma Writes.counted {p : Phrase} {l : Layout} (h : Writes p l.tokens) (hb : l.Blank) :
    Counted l.spelled l.tightPairs := by
  refine h.induct_layout (P := fun l => Counted l.spelled l.tightPairs) ?_ ?_ ?_ ?_ ?_ rfl hb
  · intro l₁ l₂ h₁ h₂
    rw [Layout.spelled_append, Layout.tightPairs_append]
    exact h₁.append h₂
  · intro g n hg hn
    refine .one hg (fun hm => absurd (isKept_of_isWord hn _ hm) (by decide)) ?_
    rintro rfl
    exact absurd (isKept_of_isWord hn ']' (by decide)) (by decide)
  · intro g t hg ht
    have hmark : ∀ t ∈ marks, '[' ∉ t.toList ∧ t ≠ "]" := by decide
    exact .one hg (hmark t ht).1 (hmark t ht).2
  · intro g g' l hg hg' h
    have hopen : Counted (Layout.spelled [(g, "<")]) _ := .one hg (by decide) (by decide)
    have hclose : Counted (Layout.spelled [(g', ">")]) _ := .one hg' (by decide) (by decide)
    rw [← singleton_append, Layout.spelled_append, Layout.spelled_append, Layout.tightPairs_append,
      Layout.tightPairs_append]
    exact (hopen.append h).append hclose
  · intro g g' hg hg'
    have hrank : Layout.tightPairs [(g, "["), (g', "]")] = if g' = "" then 1 else 0 := by
      simp [Layout.tightPairs, countP_cons]
    rw [hrank]
    exact .squares hg hg'

/-! ### The own rank of a type -/

/-- Pairs of square brackets, with the white space before each of the two. -/
def squares (pairs : List (String × String)) : Layout :=
  pairs.flatMap fun g => [(g.1, "["), (g.2, "]")]

lemma squares_cons (g : String × String) (pairs : List (String × String)) :
    squares (g :: pairs) = [(g.1, "["), (g.2, "]")] ++ squares pairs := rfl

lemma skipped_squares {pairs : List (String × String)} (hb : (squares pairs).Blank) :
    Skipped (squares pairs).spelled := by
  induction pairs with
  | nil => exact .nil
  | cons g pairs ih =>
    rw [squares_cons] at hb ⊢
    simp only [Layout.blank_append, Layout.blank_cons] at hb
    have hpair := (Skipped.square.1.append (.of_blank hb.1.2.1)).append Skipped.square.2
    rw [Layout.spelled_append]
    refine .append ?_ (ih hb.2)
    simpa using (Skipped.of_blank hb.1.1).append hpair

lemma counted_squares {pairs : List (String × String)} (hb : (squares pairs).Blank) :
    Counted (squares pairs).spelled (pairs.countP (·.2 == "")) := by
  induction pairs with
  | nil => exact .nil
  | cons g pairs ih =>
    rw [squares_cons] at hb ⊢
    simp only [Layout.blank_append, Layout.blank_cons] at hb
    rw [Layout.spelled_append, countP_cons, Nat.add_comm]
    simpa using (Counted.squares hb.1.1 hb.1.2.1).append (ih hb.2)

/-- A name with so many pairs of brackets. -/
def ranked (name : String) (rank : Nat) : String :=
  name ++ String.join (List.replicate rank "[]")

lemma ranked_inj : ranked n rank = ranked n rank' ↔ rank = rank' := by
  refine ⟨fun h => ?_, fun h => h ▸ rfl⟩
  have hlength (k : Nat) : (ranked n k).length = n.length + k * 2 := by
    rw [ranked, String.length_append, String.length_join]
    simp [show "[]".length = 2 from rfl]
  have hboth := congrArg String.length h
  rw [hlength, hlength] at hboth
  omega

/-- The form of a written type in a signature: its last simple name, and a pair of brackets for each
pair that no white space parts, whether it is its own or stands in type arguments. These are as many
as its own pairs exactly when there are as many of them in type arguments as own pairs are parted. -/
theorem signatureType_spelled {front : Layout} {pairs : List (String × String)} {n after : String}
    (h : Writes (.path n) front.tokens) (hfront : front.Blank) (hpairs : (squares pairs).Blank)
    (hafter : isBlankText after = true) (varargs : Bool) :
    let written := String.ofList (front.spelled ++ (squares pairs).spelled ++ after.toList)
    let more := if varargs then 1 else 0
    signatureType written varargs =
        ranked n (front.tightPairs + pairs.countP (·.2 == "") + more) ∧
      (signatureType written varargs = ranked n (pairs.length + more) ↔
        front.tightPairs = pairs.countP (·.2 != "")) := by
  intro written more
  obtain ⟨hn, hend⟩ := h.path_endsWith hfront
  have hname := ((hend.append (skipped_squares hpairs)).append (.of_blank hafter)).afterLast_erase hn
  have hcount := ((h.counted hfront).append (counted_squares hpairs)).append
    (.of_not_mem fun hm => absurd (all_eq_true.mp hafter _ hm) (by decide)) []
  have hsignature : signatureType written varargs =
      ranked n (front.tightPairs + pairs.countP (·.2 == "") + more) := by
    rw [signatureType, hname, String.toList_ofList, ← append_nil (_ ++ after.toList), hcount]
    rfl
  refine ⟨hsignature, ?_⟩
  have hlength := length_eq_countP_add_countP (l := pairs) (·.2 == "")
  have hparted : pairs.countP (fun g => decide ¬(g.2 == "") = true) = pairs.countP (·.2 != "") :=
    countP_congr fun g _ => by simp
  rw [hsignature, ranked_inj]
  omega

/-- A list of arrays: the brackets of its argument are counted as its own. -/
def listOfArrays : Layout := [("", "List"), ("", "<"), ("", "String"), ("", "["), ("", "]"), ("", ">")]

theorem signatureType_spelled_listOfArrays : Writes (.path "List") listOfArrays.tokens ∧
    signatureType "List<String[]>" false = "List[]" ∧
    signatureType "List<String[]>[ ]" false = "List[]" := by
  have hstring : Writes .type ["String"] :=
    .named (.outermost (.simple ⟨'S', "tring".toList, by decide, by decide, all_eq_true.mp (by decide)⟩))
  have hlist : Writes (.path "List") listOfArrays.tokens :=
    .outermost (.generic ⟨'L', "ist".toList, by decide, by decide, all_eq_true.mp (by decide)⟩
      (.last (.exactly (.array hstring))))
  have hblank : listOfArrays.Blank := by
    unfold Layout.Blank
    decide
  obtain ⟨hargument, -⟩ := @signatureType_spelled listOfArrays [] "List" "" hlist hblank nofun rfl false
  obtain ⟨-, hboth⟩ := @signatureType_spelled listOfArrays [("", " ")] "List" "" hlist hblank
    (by unfold Layout.Blank; decide) rfl false
  exact ⟨hlist, hargument, hboth.mpr (by decide)⟩

end JavaAtlas.Outline
