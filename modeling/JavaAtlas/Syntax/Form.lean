import JavaAtlas.Syntax.Token

/-!
Grammars as data. A form says which tokens are read and which nodes they make; alternatives are
tried in order. What has been read so far inside the current node is kept as a list of siblings,
last first, so that a form may also wrap the sibling before it: this is how `a.b.c` and `a - b - c`
grow to the left.
-/

namespace JavaAtlas.Syntax

/-- The tokens that a leaf may be made of. -/
inductive Lexeme where
  | name
  | spelled (text : String)
  | ofClass (cls : TokenClass)
  deriving Repr, DecidableEq

def Lexeme.matches : Lexeme → Token → Bool
  | name, t => t.cls == .word && !reservedWords.contains t.spelling
  | spelled text, t => t.spelling == text
  | ofClass cls, t => t.cls == cls

/-- Grammar forms over a type of rule names. -/
inductive Form (ρ : Type) where
  | done
  | word (text : String)
  | operator (text : String)
  | adjoined (texts : List String)
  | leaf (kind : Kind) (lexeme : Lexeme)
  | rule (r : ρ)
  | seq (a b : Form ρ)
  | alt (a b : Form ρ)
  | many (a : Form ρ)
  | ahead (a : Form ρ)
  | notAhead (a : Form ρ)
  | slot (s : Slot) (a : Form ρ)
  | node (kind : Kind) (a : Form ρ)
  | wrap (kind : Kind) (s : Option Slot) (a : Form ρ)
  | lastIs (kinds : List Kind)
  | lastHolds (kinds : List Kind)
  deriving Repr, Inhabited

namespace Form

variable {ρ : Type}

/-- One form after the other. -/
def seqs : List (Form ρ) → Form ρ
  | [] => done
  | [a] => a
  | a :: rest => seq a (seqs rest)

/-- The first form that fits. -/
def alts : List (Form ρ) → Form ρ
  | [] => notAhead done
  | [a] => a
  | a :: rest => alt a (alts rest)

def opt (a : Form ρ) : Form ρ := alt a done

def many1 (a : Form ρ) : Form ρ := seq a (many a)

/-- One or more, with a separator between. -/
def sepBy1 (separator : String) (a : Form ρ) : Form ρ := seq a (many (seq (word separator) a))

/-- Any number, with a separator between. -/
def sepBy (separator : String) (a : Form ρ) : Form ρ := opt (sepBy1 separator a)

end Form

/-- The tokens of the operator at the front: one token, or adjoining angle brackets with an equals
sign that may follow them. -/
def operatorTokens : List Token → List Token
  | [] => []
  | t :: rest => if t.spelling == ">" then t :: bracketRun 2 t rest else [t]
where
  /-- The tokens that prolong a run of angle brackets by at most `n` more brackets. -/
  bracketRun : Nat → Token → List Token → List Token
    | n, t, u :: rest =>
      if t.adjoins u && u.spelling == "=" then [u]
      else match n with
        | 0 => []
        | n + 1 => if t.adjoins u && u.spelling == ">" then u :: bracketRun n u rest else []
    | _, _, [] => []

/-- The first tokens are spelled as given, with nothing between them. -/
def takeAdjoined : List String → List Token → Option (List Token × List Token)
  | [], ts => some ([], ts)
  | text :: texts, t :: ts =>
    if t.spelling != text then none
    else match takeAdjoined texts ts with
      | none => none
      | some (us, rest) =>
        if us.head?.all (t.adjoins ·) then some (t :: us, rest) else none
  | _ :: _, [] => none

theorem takeAdjoined_append {texts : List String} {ts us rest : List Token}
    (h : takeAdjoined texts ts = some (us, rest)) : ts = us ++ rest ∧ us.length = texts.length := by
  induction texts generalizing ts us with
  | nil =>
    obtain ⟨rfl, rfl⟩ := Prod.mk.inj (Option.some.inj h)
    exact ⟨rfl, rfl⟩
  | cons text texts ih =>
    cases ts with
    | nil => simp [takeAdjoined] at h
    | cons t ts =>
      simp only [takeAdjoined] at h
      split at h
      · cases h
      · split at h
        · cases h
        · next us' rest' hus =>
          split at h
          · obtain ⟨rfl, rfl⟩ := Prod.mk.inj (Option.some.inj h)
            obtain ⟨rfl, hlen⟩ := ih hus
            exact ⟨rfl, by simp [hlen]⟩
          · cases h

/-- One mark over several tokens. -/
def markOver (ts : List Token) : Node :=
  .mk .mark none ((ts.head?.map (·.start)).getD 0) ((ts.getLast?.map (·.stop)).getD 0) []

/-- What reading a form gives: the siblings so far, last first, and the tokens that are left. -/
abbrev Reading := List Node × List Token

/-- Reads a form. The fuel bounds the depth of the reading. -/
def Form.read {ρ : Type} (body : ρ → Form ρ) : Nat → Form ρ → List Node → List Token → Option Reading
  | 0, _, _, _ => none
  | fuel + 1, form, siblings, ts =>
    match form with
    | done => some (siblings, ts)
    | word text =>
      match ts with
      | t :: rest => if t.spelling == text then some (t.leaf .mark :: siblings, rest) else none
      | [] => none
    | operator text =>
      let us := operatorTokens ts
      if !us.isEmpty && String.join (us.map (·.spelling)) == text then
        some (markOver us :: siblings, ts.drop us.length)
      else none
    | adjoined texts =>
      match takeAdjoined texts ts with
      | some (us, rest) => some (markOver us :: siblings, rest)
      | none => none
    | leaf kind lexeme =>
      match ts with
      | t :: rest => if lexeme.matches t then some (t.leaf kind :: siblings, rest) else none
      | [] => none
    | rule r => read body fuel (body r) siblings ts
    | seq a b =>
      match read body fuel a siblings ts with
      | some (siblings, ts) => read body fuel b siblings ts
      | none => none
    | alt a b =>
      match read body fuel a siblings ts with
      | some reading => some reading
      | none => read body fuel b siblings ts
    | many a =>
      match read body fuel a siblings ts with
      | some (siblings, ts) => read body fuel (many a) siblings ts
      | none => some (siblings, ts)
    | ahead a => if (read body fuel a [] ts).isSome then some (siblings, ts) else none
    | notAhead a => if (read body fuel a [] ts).isSome then none else some (siblings, ts)
    | slot s a =>
      match read body fuel a [] ts with
      | some (found, rest) => some (found.map (·.withSlot (some s)) ++ siblings, rest)
      | none => none
    | node kind a =>
      match read body fuel a [] ts with
      | some (found, rest) =>
        some (Node.ofReversed kind ((ts.head?.map (·.start)).getD 0) found :: siblings, rest)
      | none => none
    | wrap kind s a =>
      match siblings with
      | last :: before =>
        match read body fuel a [last.withSlot s] ts with
        | some (found, rest) => some (Node.ofReversed kind last.start found :: before, rest)
        | none => none
      | [] => none
    | lastIs kinds =>
      if siblings.head?.any (kinds.contains ·.kind) then some (siblings, ts) else none
    | lastHolds kinds =>
      if siblings.head?.any (·.holds kinds) then some (siblings, ts) else none

namespace Form

variable {ρ : Type}

/-- How a form comes to be read with that much fuel: one constructor for each way a form has of being
read, in the order in which the ways are tried. -/
inductive Reads (body : ρ → Form ρ) : Nat → Form ρ → List Node → List Token → Reading → Prop
  | done {k siblings ts} : Reads body (k + 1) done siblings ts (siblings, ts)
  | word {k siblings t rest} {text : String} : t.spelling = text →
      Reads body (k + 1) (word text) siblings (t :: rest) (t.leaf .mark :: siblings, rest)
  | operator {k siblings ts} {text : String} : operatorTokens ts ≠ [] →
      String.join ((operatorTokens ts).map (·.spelling)) = text →
      Reads body (k + 1) (operator text) siblings ts
        (markOver (operatorTokens ts) :: siblings, ts.drop (operatorTokens ts).length)
  | adjoined {k siblings ts us rest} {texts : List String} :
      takeAdjoined texts ts = some (us, rest) →
      Reads body (k + 1) (adjoined texts) siblings ts (markOver us :: siblings, rest)
  | leaf {k siblings t rest} {kind : Kind} {x : Lexeme} : x.matches t = true →
      Reads body (k + 1) (leaf kind x) siblings (t :: rest) (t.leaf kind :: siblings, rest)
  | rule {k siblings ts r} {r' : ρ} : Reads body k (body r') siblings ts r →
      Reads body (k + 1) (rule r') siblings ts r
  | seq {k a b siblings ts mid r} : Reads body k a siblings ts mid → Reads body k b mid.1 mid.2 r →
      Reads body (k + 1) (seq a b) siblings ts r
  | first {k a b siblings ts r} : Reads body k a siblings ts r →
      Reads body (k + 1) (alt a b) siblings ts r
  | second {k a b siblings ts r} : a.read body k siblings ts = none → Reads body k b siblings ts r →
      Reads body (k + 1) (alt a b) siblings ts r
  | more {k a siblings ts mid r} : Reads body k a siblings ts mid →
      Reads body k (many a) mid.1 mid.2 r → Reads body (k + 1) (many a) siblings ts r
  | enough {k a siblings ts} : a.read body k siblings ts = none →
      Reads body (k + 1) (many a) siblings ts (siblings, ts)
  | ahead {k a siblings ts} : (a.read body k [] ts).isSome = true →
      Reads body (k + 1) (ahead a) siblings ts (siblings, ts)
  | notAhead {k a siblings ts} : (a.read body k [] ts).isSome = false →
      Reads body (k + 1) (notAhead a) siblings ts (siblings, ts)
  | slot {k a siblings ts found rest} {s : Slot} : Reads body k a [] ts (found, rest) →
      Reads body (k + 1) (slot s a) siblings ts (found.map (·.withSlot (some s)) ++ siblings, rest)
  | node {k a siblings ts found rest} {kind : Kind} : Reads body k a [] ts (found, rest) →
      Reads body (k + 1) (node kind a) siblings ts
        (Node.ofReversed kind ((ts.head?.map (·.start)).getD 0) found :: siblings, rest)
  | wrap {k a last before ts found rest} {kind : Kind} {s : Option Slot} :
      Reads body k a [last.withSlot s] ts (found, rest) →
      Reads body (k + 1) (wrap kind s a) (last :: before) ts
        (Node.ofReversed kind last.start found :: before, rest)
  | lastIs {k siblings ts} {kinds : List Kind} :
      siblings.head?.any (kinds.contains ·.kind) = true →
      Reads body (k + 1) (lastIs kinds) siblings ts (siblings, ts)
  | lastHolds {k siblings ts} {kinds : List Kind} : siblings.head?.any (·.holds kinds) = true →
      Reads body (k + 1) (lastHolds kinds) siblings ts (siblings, ts)

variable {body : ρ → Form ρ} {fuel : Nat} {form a b : Form ρ} {siblings : List Node}
variable {us : List Token} {r : Reading}

theorem reads_of_read (h : form.read body fuel siblings us = some r) :
    Reads body fuel form siblings us r := by
  induction fuel generalizing form siblings us r with
  | zero => simp [read] at h
  | succ fuel ih =>
    cases form with
    | done =>
      obtain rfl := Option.some.inj h
      exact .done
    | word text | leaf kind x =>
      cases us with
      | nil => simp [read] at h
      | cons t rest =>
        simp only [read] at h
        split at h
        · next ht =>
          obtain rfl := Option.some.inj h
          constructor
          simpa using ht
        · cases h
    | operator text =>
      simp only [read] at h
      split at h
      · next hif =>
        obtain rfl := Option.some.inj h
        exact .operator (by simpa using (Bool.and_eq_true_iff.mp hif).1)
          (eq_of_beq (Bool.and_eq_true_iff.mp hif).2)
      · cases h
    | adjoined texts =>
      simp only [read] at h
      split at h
      · next hus =>
        obtain rfl := Option.some.inj h
        exact .adjoined hus
      · cases h
    | rule r' => exact .rule (ih h)
    | seq a b =>
      simp only [read] at h
      split at h
      · next hmid => exact .seq (ih hmid) (ih h)
      · cases h
    | alt a b =>
      simp only [read] at h
      split at h
      · next hr => exact .first (ih (hr.trans h))
      · next hnone => exact .second hnone (ih h)
    | many a =>
      simp only [read] at h
      split at h
      · next hmid => exact .more (ih hmid) (ih h)
      · next hnone =>
        obtain rfl := Option.some.inj h
        exact .enough hnone
    | ahead a | lastIs kinds | lastHolds kinds =>
      simp only [read] at h
      split at h
      · next htest =>
        obtain rfl := Option.some.inj h
        constructor
        exact htest
      · cases h
    | notAhead a =>
      simp only [read] at h
      split at h
      · cases h
      · next htest =>
        obtain rfl := Option.some.inj h
        exact .notAhead (eq_false_of_ne_true htest)
    | slot s a =>
      simp only [read] at h
      split at h
      · next hinner =>
        obtain rfl := Option.some.inj h
        exact .slot (ih hinner)
      · cases h
    | node kind a =>
      simp only [read] at h
      split at h
      · next hinner =>
        obtain rfl := Option.some.inj h
        exact .node (ih hinner)
      · cases h
    | wrap kind s a =>
      cases siblings with
      | nil => simp [read] at h
      | cons last before =>
        simp only [read] at h
        split at h
        · next hinner =>
          obtain rfl := Option.some.inj h
          exact .wrap (ih hinner)
        · cases h

theorem Reads.read_eq (h : Reads body fuel form siblings us r) :
    form.read body fuel siblings us = some r := by
  induction h with
  | done => rfl
  | word ht => simp [read, ht]
  | operator hne ht => simp [read, hne, ht]
  | adjoined hus => simp [read, hus]
  | leaf hx => simp [read, hx]
  | rule _ ih => exact ih
  | seq _ _ ihmid ih => simp [read, ihmid, ih]
  | first _ ih => simp [read, ih]
  | second hnone _ ih => simp [read, hnone, ih]
  | more _ _ ihmid ih => simp [read, ihmid, ih]
  | enough hnone => simp [read, hnone]
  | ahead htest | lastIs htest | lastHolds htest => simp only [read, htest, if_true]
  | notAhead htest => simp only [read, htest, Bool.false_eq_true, if_false]
  | slot _ ih | node _ ih | wrap _ ih => simp [read, ih]

theorem read_eq_some_iff :
    form.read body fuel siblings us = some r ↔ Reads body fuel form siblings us r :=
  ⟨reads_of_read, Reads.read_eq⟩

/-- What is left is an end of the tokens. -/
theorem Reads.suffix (h : Reads body fuel form siblings us r) : r.2 <:+ us := by
  induction h with
  | done | enough | ahead | notAhead | lastIs | lastHolds => exact List.suffix_refl _
  | word | leaf => exact List.suffix_cons _ _
  | operator => exact List.drop_suffix _ _
  | adjoined hus =>
    obtain ⟨rfl, -⟩ := takeAdjoined_append hus
    exact List.suffix_append _ _
  | seq _ _ ihmid ih | more _ _ ihmid ih => exact ih.trans ihmid
  | rule _ ih | first _ ih | second _ _ ih | slot _ ih | node _ ih | wrap _ ih => exact ih

theorem read_pos (h : form.read body fuel siblings us = some r) : ∃ k, fuel = k + 1 := by
  cases fuel with
  | zero => simp [read] at h
  | succ k => exact ⟨k, rfl⟩

theorem read_word {text : String} (h : (word text : Form ρ).read body fuel siblings us = some r) :
    ∃ t rest, us = t :: rest ∧ t.spelling = text ∧ r = (t.leaf .mark :: siblings, rest) := by
  cases reads_of_read h with
  | word ht => exact ⟨_, _, rfl, ht, rfl⟩

theorem read_leaf {kind : Kind} {x : Lexeme}
    (h : (leaf kind x : Form ρ).read body fuel siblings us = some r) :
    ∃ t rest, us = t :: rest ∧ x.matches t = true ∧ r = (t.leaf kind :: siblings, rest) := by
  cases reads_of_read h with
  | leaf hx => exact ⟨_, _, rfl, hx, rfl⟩

theorem read_seq (h : (seq a b).read body (fuel + 1) siblings us = some r) :
    ∃ mid, a.read body fuel siblings us = some mid ∧ b.read body fuel mid.1 mid.2 = some r := by
  cases reads_of_read h with
  | seq hmid hrest => exact ⟨_, hmid.read_eq, hrest.read_eq⟩

theorem read_slot {s : Slot} (h : (slot s a).read body (fuel + 1) siblings us = some r) :
    ∃ found rest, a.read body fuel [] us = some (found, rest) ∧
      r = (found.map (·.withSlot (some s)) ++ siblings, rest) := by
  cases reads_of_read h with
  | slot hinner => exact ⟨_, _, hinner.read_eq, rfl⟩

end Form

end JavaAtlas.Syntax
