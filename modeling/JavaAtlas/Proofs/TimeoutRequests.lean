import JavaAtlas.Config
import Mathlib.Data.Nat.Digits.Defs
import Mathlib.Tactic.Common

/-! The time limit that a service is asked for. The last request decides, whatever else is set. A number
that a signed word can hold is brought between the least and the greatest limit; a greater one counts as
negative when the program asks for it, and one that the environment names outside of that range is passed
over like a text that is no number. -/

namespace JavaAtlas.ServiceConfig

variable {lookup lookup' : String → Option String} {config : ServiceConfig} {secs : UInt64}
variable {cs ds : List Char} {s raw : String} {n n' : Int} {m otherwise otherwise' : Nat}

/-! ### Numerals -/

def IsDigits (ds : List Char) : Prop := ds ≠ [] ∧ ∀ d ∈ ds, d.isDigit = true

def valueOf (ds : List Char) : Nat := Nat.ofDigits 10 (ds.reverse.map fun d => d.toNat - '0'.toNat)

/-- Decimal digits with an optional sign, however many there are. -/
inductive Numeral : List Char → Int → Prop
  | plain {ds : List Char} : IsDigits ds → Numeral ds (valueOf ds)
  | plus {ds : List Char} : IsDigits ds → Numeral ('+' :: ds) (valueOf ds)
  | minus {ds : List Char} : IsDigits ds → Numeral ('-' :: ds) (-(valueOf ds : Int))

/-- A signed word of 64 bits holds the number. -/
def InWord (n : Int) : Prop := -2 ^ 63 ≤ n ∧ n < 2 ^ 63

instance (n : Int) : Decidable (InWord n) := inferInstanceAs (Decidable (_ ∧ _))

lemma digitsValue?_eq_some_iff : digitsValue? ds = some m ↔ IsDigits ds ∧ valueOf ds = m := by
  have hfold : ds.foldl (fun n c => 10 * n + (c.toNat - '0'.toNat)) 0 = valueOf ds := by
    rw [valueOf, Nat.ofDigits_eq_foldr, List.foldr_map, List.foldr_reverse]
    simp only [Nat.cast_id, Nat.add_comm]
  rw [digitsValue?, hfold]
  split
  · next h =>
    have hnot : ¬IsDigits ds := by
      rintro ⟨hne, hall⟩
      simp_all
    simp [hnot]
  · next h =>
    have hds : IsDigits ds := by
      constructor <;> simp_all
    simp [hds]

lemma wordValue?_eq_some_iff : wordValue? s = some n ↔ Numeral s.toList n ∧ InWord n := by
  rw [wordValue?, Option.filter_eq_some_iff, decide_eq_true_iff]
  apply and_congr_left'
  generalize s.toList = cs
  constructor
  · intro h
    split at h
    all_goals
      obtain ⟨_, hsome, rfl⟩ := Option.map_eq_some_iff.mp h
      obtain ⟨m, hm, hvalue⟩ := Option.bind_eq_some_iff.mp hsome
      obtain ⟨hds, rfl⟩ := digitsValue?_eq_some_iff.mp hm
      obtain rfl := Option.some.inj hvalue
    · exact .minus hds
    · exact .plus hds
    · exact .plain hds
  · intro h
    cases h with
    | minus hds => simp [digitsValue?_eq_some_iff.mpr ⟨hds, rfl⟩]
    | plus hds => simp [digitsValue?_eq_some_iff.mpr ⟨hds, rfl⟩]
    | plain hds =>
      have hvalue := digitsValue?_eq_some_iff.mpr ⟨hds, rfl⟩
      split
      · exact absurd (hds.2 '-' List.mem_cons_self) (by decide)
      · exact absurd (hds.2 '+' List.mem_cons_self) (by decide)
      · simp [hvalue]

lemma Numeral.unique (h : Numeral cs n) (h' : Numeral cs n') : n = n' := by
  have hsign {ds : List Char} {c : Char} (h : IsDigits (c :: ds)) (hc : c.isDigit = false) : False := by
    rw [h.2 c List.mem_cons_self] at hc
    cases hc
  cases h with
  | plain h =>
    cases h' with
    | plain => rfl
    | plus | minus => exact (hsign h rfl).elim
  | plus =>
    cases h' with
    | plain h => exact (hsign h rfl).elim
    | plus => rfl
  | minus =>
    cases h' with
    | plain h => exact (hsign h rfl).elim
    | minus => rfl

lemma wordValue?_numeral (h : Numeral s.toList n) : wordValue? s = if InWord n then some n else none := by
  split
  · next hn => exact wordValue?_eq_some_iff.mpr ⟨h, hn⟩
  · next hn =>
    apply Option.eq_none_iff_forall_ne_some.mpr
    intro n' hsome
    obtain ⟨h', hn'⟩ := wordValue?_eq_some_iff.mp hsome
    exact hn (h.unique h' ▸ hn')

/-! ### Clamping -/

/-- The number of seconds between the least and the greatest limit that is nearest to the one asked for. -/
def nearest (n : Int) : Int := min (max n 5) 300

lemma clampTimeout_eq (n : Int) : (clampTimeout n : Int) = nearest n := by
  simp only [clampTimeout, minTimeout, maxTimeout, nearest]
  omega

lemma nearest_mono (h : n ≤ n') : nearest n ≤ nearest n' := by
  simp only [nearest]
  omega

lemma clampTimeout_toInt64 (secs : UInt64) : (clampTimeout secs.toInt64.toInt : Int) =
    if InWord secs.toNat then nearest secs.toNat else 5 := by
  have hlt := secs.toNat_lt
  have hbits : secs.toInt64.toInt = (secs.toNat : Int).bmod (2 ^ 64) :=
    BitVec.toInt_eq_toNat_bmod secs.toBitVec
  rw [clampTimeout_eq, hbits, Int.bmod_def]
  generalize secs.toNat = n at hlt
  by_cases h : InWord n
  · rw [if_pos h]
    simp only [InWord] at h
    rw [if_pos (by omega), Int.emod_eq_of_lt (by omega) (by omega)]
  · rw [if_neg h]
    simp only [InWord] at h
    simp only [nearest]
    rw [if_neg (by omega)]
    omega

/-! ### Requests -/

/-- What a program sets after the environment is read. -/
inductive Change where
  | timeout (secs : UInt64)
  | absolutePaths (absolute : Bool)
  | workspaceBase (base : String)
  | maven (command : String)

namespace Change

def apply (config : ServiceConfig) : Change → ServiceConfig
  | timeout secs => config.withTimeout secs
  | absolutePaths absolute => config.withAbsolutePaths absolute
  | workspaceBase base => config.withWorkspaceBase base
  | maven command => config.withMaven command

def isTimeout : Change → Bool
  | timeout _ => true
  | _ => false

end Change

variable {changes changes' before after : List Change}

def configured (lookup : String → Option String) (changes : List Change) : ServiceConfig :=
  changes.foldl Change.apply (ofEnvironment lookup)

/-- The last request is for `n` seconds: the last one of the program, or that of the environment if the
program has none. What is set for a number that no word holds is `otherwise`. -/
inductive LastRequest (lookup : String → Option String) (changes : List Change) : Int → Nat → Prop
  | asked {before after : List Change} {secs : UInt64} : changes = before ++ .timeout secs :: after →
      (∀ c ∈ after, c.isTimeout = false) → LastRequest lookup changes secs.toNat 5
  | named {raw : String} {n : Int} : (∀ c ∈ changes, c.isTimeout = false) →
      lookup "STRATUM_TIMEOUT_SECS" = some raw → Numeral (Text.trimBlanks raw.toList) n →
      LastRequest lookup changes n 30

lemma exists_last_timeout (changes : List Change) : (∀ c ∈ changes, c.isTimeout = false) ∨
    ∃ before secs after, changes = before ++ .timeout secs :: after ∧
      ∀ c ∈ after, c.isTimeout = false := by
  induction changes with
  | nil => exact .inl nofun
  | cons c changes ih =>
    rcases ih with hnone | ⟨before, secs, after, rfl, hafter⟩
    · cases c with
      | timeout secs => exact .inr ⟨[], secs, changes, rfl, hnone⟩
      | absolutePaths | workspaceBase | maven => exact .inl (List.forall_mem_cons.mpr ⟨rfl, hnone⟩)
    · exact .inr ⟨c :: before, secs, after, rfl, hafter⟩

/-! ### What a change sets -/

lemma timeoutSecs_foldl (h : ∀ c ∈ changes, c.isTimeout = false) (config : ServiceConfig) :
    (changes.foldl Change.apply config).timeoutSecs = config.timeoutSecs := by
  induction changes generalizing config with
  | nil => rfl
  | cons c changes ih =>
    obtain ⟨hc, hchanges⟩ := List.forall_mem_cons.mp h
    rw [List.foldl_cons, ih hchanges]
    cases c with
    | timeout => cases hc
    | absolutePaths | workspaceBase | maven => rfl

/-- All settings but the time limit. -/
def others (config : ServiceConfig) : ServiceConfig := { config with timeoutSecs := 0 }

lemma others_foldl (changes : List Change) (config : ServiceConfig) :
    others (changes.foldl Change.apply config) =
      (changes.filter (!·.isTimeout)).foldl Change.apply (others config) := by
  induction changes generalizing config with
  | nil => rfl
  | cons c changes ih =>
    rw [List.foldl_cons, ih]
    cases c <;> rfl

lemma others_ofEnvironment (h : ∀ key, key ≠ "STRATUM_TIMEOUT_SECS" → lookup key = lookup' key) :
    others (ofEnvironment lookup) = others (ofEnvironment lookup') := by
  have habsolute := h "STRATUM_ABSOLUTE_PATHS" (by decide)
  have hbase := h "STRATUM_WORKSPACE_DIR" (by decide)
  have hmaven := h "STRATUM_MAVEN" (by decide)
  simp only [others, ofEnvironment, setting?, habsolute, hbase, hmaven]

lemma timeoutSecs_of_numeral (hraw : lookup "STRATUM_TIMEOUT_SECS" = some raw)
    (hn : Numeral (Text.trimBlanks raw.toList) n) :
    ((ofEnvironment lookup).timeoutSecs : Int) = if InWord n then nearest n else 30 := by
  have hvalue : wordValue? (Text.trim raw) = if InWord n then some n else none :=
    wordValue?_numeral (by rwa [Text.trim, String.toList_ofList])
  by_cases hword : InWord n
  · rw [if_pos hword] at hvalue ⊢
    rw [ofEnvironment, hraw, Option.bind_some, hvalue]
    exact clampTimeout_eq n
  · rw [if_neg hword] at hvalue ⊢
    rw [ofEnvironment, hraw, Option.bind_some, hvalue]
    rfl

lemma timeoutSecs_of_no_numeral (h : ∀ raw n, lookup "STRATUM_TIMEOUT_SECS" = some raw →
    ¬Numeral (Text.trimBlanks raw.toList) n) :
    (ofEnvironment lookup).timeoutSecs = initial.timeoutSecs := by
  have hnone : ((lookup "STRATUM_TIMEOUT_SECS").bind fun raw => wordValue? (Text.trim raw)) = none := by
    apply Option.eq_none_iff_forall_ne_some.mpr
    intro n hn
    obtain ⟨raw, hraw, hvalue⟩ := Option.bind_eq_some_iff.mp hn
    obtain ⟨hnumeral, -⟩ := wordValue?_eq_some_iff.mp hvalue
    rw [Text.trim, String.toList_ofList] at hnumeral
    exact h raw n hraw hnumeral
  rw [ofEnvironment, hnone]

lemma LastRequest.timeoutSecs_eq (h : LastRequest lookup changes n otherwise) :
    ((configured lookup changes).timeoutSecs : Int) = if InWord n then nearest n else otherwise := by
  cases h with
  | asked hchanges hafter =>
    rw [configured, hchanges, List.foldl_append, List.foldl_cons, timeoutSecs_foldl hafter]
    exact clampTimeout_toInt64 _
  | named hnone hraw hn =>
    rw [configured, timeoutSecs_foldl hnone]
    exact timeoutSecs_of_numeral hraw hn

/-- A number that no word holds is never brought to the nearest limit. -/
lemma LastRequest.otherwise_ne (h : LastRequest lookup changes n otherwise) (hn : ¬InWord n) :
    (otherwise : Int) ≠ nearest n := by
  simp only [InWord] at hn
  simp only [nearest]
  cases h <;> omega

lemma timeoutSecs_of_no_request (h : ∀ n otherwise, ¬LastRequest lookup changes n otherwise) :
    (configured lookup changes).timeoutSecs = initial.timeoutSecs := by
  rcases exists_last_timeout changes with hnone | ⟨before, secs, after, hchanges, hafter⟩
  · rw [configured, timeoutSecs_foldl hnone]
    apply timeoutSecs_of_no_numeral
    intro raw n hraw hn
    exact h n 30 (.named hnone hraw hn)
  · exact absurd (.asked hchanges hafter) (h secs.toNat 5)

/-- The time limit follows the last request alone, and the other settings follow from the rest. -/
theorem timeoutSecs_of_last_request (lookup : String → Option String) (changes : List Change) :
    (∀ n otherwise, LastRequest lookup changes n otherwise →
      ((configured lookup changes).timeoutSecs : Int) = (if InWord n then nearest n else otherwise) ∧
      (((configured lookup changes).timeoutSecs : Int) = nearest n ↔ InWord n)) ∧
    ((∀ n otherwise, ¬LastRequest lookup changes n otherwise) →
      (configured lookup changes).timeoutSecs = initial.timeoutSecs) ∧
    ∀ (lookup' : String → Option String) (changes' : List Change),
      (∀ n otherwise n' otherwise', LastRequest lookup changes n otherwise →
        LastRequest lookup' changes' n' otherwise' → InWord n → InWord n' → n ≤ n' →
        (configured lookup changes).timeoutSecs ≤ (configured lookup' changes').timeoutSecs) ∧
      ((∀ key, key ≠ "STRATUM_TIMEOUT_SECS" → lookup key = lookup' key) →
        changes.filter (!·.isTimeout) = changes'.filter (!·.isTimeout) →
        others (configured lookup changes) = others (configured lookup' changes')) := by
  refine ⟨?_, timeoutSecs_of_no_request, ?_⟩
  · intro n otherwise h
    refine ⟨h.timeoutSecs_eq, ?_⟩
    rw [h.timeoutSecs_eq]
    by_cases hn : InWord n
    · simp only [hn, if_true]
    · simp only [hn, if_false, iff_false]
      exact h.otherwise_ne hn
  · intro lookup' changes'
    constructor
    · intro n otherwise n' otherwise' h h' hn hn' hle
      have hnearest := nearest_mono hle
      have heq := h.timeoutSecs_eq
      have heq' := h'.timeoutSecs_eq
      rw [if_pos hn] at heq
      rw [if_pos hn'] at heq'
      omega
    · intro hkeys hchanges
      rw [configured, configured, others_foldl, others_foldl, hchanges, others_ofEnvironment hkeys]

/-- An environment that names the least number that no word holds. -/
def pastWord (key : String) : Option String :=
  if key = "STRATUM_TIMEOUT_SECS" then some " 9223372036854775808" else none

theorem timeoutSecs_of_last_request_pastWord :
    LastRequest pastWord [.timeout 18446744073709551615, .maven "m"] 18446744073709551615 5 ∧
    LastRequest pastWord [.maven "m"] 9223372036854775808 30 ∧
    (configured pastWord [.timeout 18446744073709551615, .maven "m"]).timeoutSecs = 5 ∧
    (configured pastWord [.maven "m"]).timeoutSecs = 30 ∧
    nearest 18446744073709551615 = 300 ∧ nearest 9223372036854775808 = 300 := by
  have hasked : LastRequest pastWord [.timeout 18446744073709551615, .maven "m"] 18446744073709551615 5 :=
    @LastRequest.asked _ _ [] [.maven "m"] 18446744073709551615 rfl (List.forall_mem_singleton.mpr rfl)
  have hdigits : IsDigits "9223372036854775808".toList :=
    ⟨by decide, List.all_eq_true.mp (by decide)⟩
  have hnamed : LastRequest pastWord [.maven "m"] 9223372036854775808 30 :=
    .named (List.forall_mem_singleton.mpr rfl) (if_pos rfl) (.plain hdigits)
  obtain ⟨hseconds, -⟩ := (timeoutSecs_of_last_request _ _).1 _ _ hasked
  obtain ⟨hseconds', -⟩ := (timeoutSecs_of_last_request _ _).1 _ _ hnamed
  rw [if_neg (by decide)] at hseconds hseconds'
  exact ⟨hasked, hnamed, by exact_mod_cast hseconds, by exact_mod_cast hseconds', by decide, by decide⟩

end JavaAtlas.ServiceConfig
