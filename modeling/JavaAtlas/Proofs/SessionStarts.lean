import JavaAtlas.Proofs.MadeDirectories

/-! Sessions that are started at the same time. Each start is a sequence of steps, none of which does
more than one thing to the files, and the steps of different starts come in any order. -/

namespace JavaAtlas

open FileTree

namespace Session

open JavaAtlas.Path (Component)

/-- What the random source gives: four bytes, or why it gives none. -/
abbrev Draw := Except String (Vector UInt8 4)

/-- What a start does next. While the base is made, `here` are the components that the next directory
is made from, the last one first, and `back` those that come after it. -/
inductive Stage where
  | climbing (here back : List Component)
  | looking (error : IoError) (here back : List Component)
  | descending (here back : List Component)
  | drawing
  | claiming (token : String)
  | returned (s : Session)
  | failed (error : SessionError)
  deriving Repr, DecidableEq

structure Start where
  stage : Stage
  drawn : List String
  deriving Repr, DecidableEq

namespace Start

def ofBase (base : String) : Start := ⟨.climbing (Path.components base).reverse [], []⟩

/-- One step: a directory is tried, or looked at, or a token is drawn. -/
def step (base : String) (draw : Draw) (fs : FileTree) (c : Start) : FileTree × Start :=
  match c.stage with
  | .climbing [] back => (fs, { c with stage := .descending [] back })
  | .climbing (x :: before) back =>
    match fs.createDir (Path.render (x :: before).reverse) with
    | .ok made => (made, { c with stage := .descending (x :: before) back })
    | .error .notFound => (fs, { c with stage := .climbing before (x :: back) })
    | .error e => (fs, { c with stage := .looking e (x :: before) back })
  | .looking e here back =>
    if fs.isDir (Path.render here.reverse) then (fs, { c with stage := .descending here back })
    else (fs, { c with stage := .failed (.noBase base e) })
  | .descending _ [] => (fs, { c with stage := .drawing })
  | .descending here (x :: back) =>
    match fs.createDir (Path.render (x :: here).reverse) with
    | .ok made => (made, { c with stage := .descending (x :: here) back })
    | .error e => (fs, { c with stage := .looking e (x :: here) back })
  | .drawing =>
    if c.drawn.length = maxAttempts then (fs, { c with stage := .failed (.noFreeToken base) })
    else
      match draw with
      | .ok bytes => (fs, ⟨.claiming (tokenOf bytes), c.drawn ++ [tokenOf bytes]⟩)
      | .error reason => (fs, { c with stage := .failed (.noRandom reason) })
  | .claiming token =>
    match fs.createDir (Path.join base token) with
    | .ok made => (made, { c with stage := .returned ⟨token, Path.join base token, false⟩ })
    | .error .alreadyExists => (fs, { c with stage := .drawing })
    | .error e => (fs, { c with stage := .failed (.notCreated (Path.join base token) e) })
  | .returned _ | .failed _ => (fs, c)

/-- The directory that the next step tries to make. -/
def target? (base : String) (c : Start) : Option String :=
  match c.stage with
  | .climbing (x :: before) _ => some (Path.render (x :: before).reverse)
  | .descending here (x :: _) => some (Path.render (x :: here).reverse)
  | .claiming token => some (Path.join base token)
  | _ => none

/-- All that a step can come to. -/
inductive Steps (base : String) (draw : Draw) (fs : FileTree) : Start → FileTree × Start → Prop
  | top {back : List Component} {drawn : List String} :
      Steps base draw fs ⟨.climbing [] back, drawn⟩ (fs, ⟨.descending [] back, drawn⟩)
  | climbed {x : Component} {before back : List Component} {drawn : List String} {made : FileTree} :
      fs.createDir (Path.render (x :: before).reverse) = .ok made →
      Steps base draw fs ⟨.climbing (x :: before) back, drawn⟩
        (made, ⟨.descending (x :: before) back, drawn⟩)
  | higher {x : Component} {before back : List Component} {drawn : List String} :
      fs.createDir (Path.render (x :: before).reverse) = .error .notFound →
      Steps base draw fs ⟨.climbing (x :: before) back, drawn⟩
        (fs, ⟨.climbing before (x :: back), drawn⟩)
  | stopped {x : Component} {before back : List Component} {drawn : List String} {e : IoError} :
      e ≠ .notFound → fs.createDir (Path.render (x :: before).reverse) = .error e →
      Steps base draw fs ⟨.climbing (x :: before) back, drawn⟩
        (fs, ⟨.looking e (x :: before) back, drawn⟩)
  | there {e : IoError} {here back : List Component} {drawn : List String} :
      fs.isDir (Path.render here.reverse) = true →
      Steps base draw fs ⟨.looking e here back, drawn⟩ (fs, ⟨.descending here back, drawn⟩)
  | lacking {e : IoError} {here back : List Component} {drawn : List String} :
      fs.isDir (Path.render here.reverse) = false →
      Steps base draw fs ⟨.looking e here back, drawn⟩ (fs, ⟨.failed (.noBase base e), drawn⟩)
  | standing {here : List Component} {drawn : List String} :
      Steps base draw fs ⟨.descending here [], drawn⟩ (fs, ⟨.drawing, drawn⟩)
  | descended {x : Component} {here back : List Component} {drawn : List String} {made : FileTree} :
      fs.createDir (Path.render (x :: here).reverse) = .ok made →
      Steps base draw fs ⟨.descending here (x :: back), drawn⟩
        (made, ⟨.descending (x :: here) back, drawn⟩)
  | hindered {x : Component} {here back : List Component} {drawn : List String} {e : IoError} :
      fs.createDir (Path.render (x :: here).reverse) = .error e →
      Steps base draw fs ⟨.descending here (x :: back), drawn⟩
        (fs, ⟨.looking e (x :: here) back, drawn⟩)
  | spent {drawn : List String} : drawn.length = maxAttempts →
      Steps base draw fs ⟨.drawing, drawn⟩ (fs, ⟨.failed (.noFreeToken base), drawn⟩)
  | drew {drawn : List String} {bytes : Vector UInt8 4} : drawn.length ≠ maxAttempts →
      draw = .ok bytes → Steps base draw fs ⟨.drawing, drawn⟩
        (fs, ⟨.claiming (tokenOf bytes), drawn ++ [tokenOf bytes]⟩)
  | dry {drawn : List String} {reason : String} : drawn.length ≠ maxAttempts →
      draw = .error reason →
      Steps base draw fs ⟨.drawing, drawn⟩ (fs, ⟨.failed (.noRandom reason), drawn⟩)
  | claimed {token : String} {drawn : List String} {made : FileTree} :
      fs.createDir (Path.join base token) = .ok made →
      Steps base draw fs ⟨.claiming token, drawn⟩
        (made, ⟨.returned ⟨token, Path.join base token, false⟩, drawn⟩)
  | taken {token : String} {drawn : List String} :
      fs.createDir (Path.join base token) = .error .alreadyExists →
      Steps base draw fs ⟨.claiming token, drawn⟩ (fs, ⟨.drawing, drawn⟩)
  | refused {token : String} {drawn : List String} {e : IoError} : e ≠ .alreadyExists →
      fs.createDir (Path.join base token) = .error e →
      Steps base draw fs ⟨.claiming token, drawn⟩
        (fs, ⟨.failed (.notCreated (Path.join base token) e), drawn⟩)
  | returned {s : Session} {drawn : List String} :
      Steps base draw fs ⟨.returned s, drawn⟩ (fs, ⟨.returned s, drawn⟩)
  | failed {e : SessionError} {drawn : List String} :
      Steps base draw fs ⟨.failed e, drawn⟩ (fs, ⟨.failed e, drawn⟩)

variable {base : String} {fs fs' : FileTree} {c c' : Start} {draw : Draw}

theorem steps (base : String) (draw : Draw) (fs : FileTree) (c : Start) :
    Steps base draw fs c (c.step base draw fs) := by
  rcases c with ⟨stage, drawn⟩
  cases stage with
  | returned s => exact .returned
  | failed e => exact .failed
  | climbing here back =>
    cases here with
    | nil => exact .top
    | cons x before =>
      simp only [step]
      split
      · next made hc => exact .climbed hc
      · next hc => exact .higher hc
      · next e hne hc => exact .stopped (fun h => hne h) hc
  | looking e here back =>
    simp only [step]
    split
    · next h => exact .there h
    · next h => exact .lacking (by simpa using h)
  | descending here back =>
    cases back with
    | nil => exact .standing
    | cons x back =>
      simp only [step]
      split
      · next made hc => exact .descended hc
      · next e hc => exact .hindered hc
  | drawing =>
    simp only [step]
    split
    · next h => exact .spent h
    · next h =>
      cases draw with
      | ok bytes => exact .drew h rfl
      | error reason => exact .dry h rfl
  | claiming token =>
    simp only [step]
    split
    · next made hc => exact .claimed hc
    · next hc => exact .taken hc
    · next e hne hc => exact .refused (fun h => hne h) hc

/-- The only change of the files is a directory that the start has come to, on the way to the base or
for its token. -/
lemma Steps.files (h : Steps base draw fs c (fs', c')) : fs' = fs ∨
    (∃ x here back, (c.stage = .climbing (x :: here) back ∨ c.stage = .descending here (x :: back)) ∧
      fs.createDir (Path.render (x :: here).reverse) = .ok fs') ∨
    ∃ token, c.stage = .claiming token ∧
      c'.stage = .returned ⟨token, Path.join base token, false⟩ ∧
      fs.createDir (Path.join base token) = .ok fs' := by
  cases h with
  | climbed hc => exact .inr (.inl ⟨_, _, _, .inl rfl, hc⟩)
  | descended hc => exact .inr (.inl ⟨_, _, _, .inr rfl, hc⟩)
  | claimed hc => exact .inr (.inr ⟨_, rfl, rfl, hc⟩)
  | _ => exact .inl rfl

lemma Steps.grows (h : Steps base draw fs c (fs', c')) (hw : fs.WellFormed) :
    GrowsDirs fs fs' := by
  rcases h.files with rfl | ⟨x, here, back, -, hc⟩ | ⟨token, -, -, hc⟩
  · exact .refl hw
  · exact createDir_growsDirs hw hc
  · exact createDir_growsDirs hw hc

/-- A start returns by making the directory of the token that it has come to. -/
lemma Steps.returns {s : Session} (h : Steps base draw fs c (fs', c'))
    (hr : c'.stage = .returned s) : c = c' ∨
      c.stage = .claiming s.token ∧ fs.createDir s.path = .ok fs' := by
  cases h with
  | claimed hc =>
    obtain rfl := Stage.returned.inj hr
    exact .inr ⟨rfl, hc⟩
  | returned => exact .inl rfl
  | _ => cases hr

lemma isToken_tokenOf (bytes : Vector UInt8 4) : isToken (tokenOf bytes) = true := by
  have hdigit : ∀ n < 16, ((Nat.digitChar n).isDigit ||
      decide ('a' ≤ Nat.digitChar n) && decide (Nat.digitChar n ≤ 'f')) = true := by decide
  have hlen : bytes.toList.length = 4 := by simp
  have hall : ∀ c ∈ (tokenOf bytes).toList,
      (c.isDigit || decide ('a' ≤ c) && decide (c ≤ 'f')) = true := by
    intro c hc
    simp only [tokenOf, String.toList_ofList, List.mem_flatMap] at hc
    obtain ⟨b, -, hb⟩ := hc
    have hlt := b.toNat_lt
    rcases List.mem_pair.mp hb with rfl | rfl
    · exact hdigit _ (by omega)
    · exact hdigit _ (by omega)
  simp only [isToken, Bool.and_eq_true, List.all_eq_true, beq_iff_eq]
  refine ⟨?_, by simpa using hall⟩
  simp [tokenOf, List.length_flatMap]

/-- What holds of a start at every step. -/
structure Sound (base : String) (c : Start) : Prop where
  drawn_le : c.drawn.length ≤ maxAttempts
  tokens : ∀ token ∈ c.drawn, isToken token = true
  stage : match c.stage with
    | .climbing here back | .looking _ here back | .descending here back =>
      here.reverse ++ back = Path.components base
    | .claiming token => token ∈ c.drawn
    | .returned s => s.token ∈ c.drawn ∧ s.path = Path.join base s.token
    | _ => True

lemma sound_ofBase (base : String) : Sound base (ofBase base) :=
  ⟨Nat.zero_le _, nofun, by simp [ofBase]⟩

lemma Steps.sound (h : Steps base draw fs c (fs', c')) (hs : Sound base c) : Sound base c' := by
  have hst := hs.stage
  cases h with
  | drew hne hd =>
    refine ⟨?_, fun token ht => ?_, by simp⟩
    · have hle := hs.drawn_le
      simp only [List.length_append, List.length_singleton]
      exact Nat.lt_of_le_of_ne hle hne
    · rcases List.mem_append.mp ht with ht | ht
      · exact hs.tokens token ht
      · rw [List.mem_singleton.mp ht]
        exact isToken_tokenOf _
  | claimed hc => exact ⟨hs.drawn_le, hs.tokens, hst, rfl⟩
  | returned => exact hs
  | top | climbed | stopped | there => exact ⟨hs.drawn_le, hs.tokens, hst⟩
  | higher | descended | hindered => exact ⟨hs.drawn_le, hs.tokens, by simpa using hst⟩
  | _ => exact ⟨hs.drawn_le, hs.tokens, trivial⟩

/-- So many steps a start takes at most. -/
def rank (c : Start) : Nat :=
  match c.stage with
  | .climbing here back =>
    3 * here.length + 2 * back.length + 2 * (maxAttempts - c.drawn.length) + 4
  | .looking _ _ back => 2 * back.length + 2 * (maxAttempts - c.drawn.length) + 3
  | .descending _ back => 2 * back.length + 2 * (maxAttempts - c.drawn.length) + 2
  | .drawing => 2 * (maxAttempts - c.drawn.length) + 1
  | .claiming _ => 2 * (maxAttempts - c.drawn.length) + 2
  | .returned _ | .failed _ => 0

lemma Steps.rank_lt (h : Steps base draw fs c (fs', c')) (hd : c.drawn.length ≤ maxAttempts)
    (hr : c.rank ≠ 0) : c'.rank < c.rank := by
  cases h with
  | returned | failed => exact absurd rfl hr
  | drew hne =>
    simp only [rank, List.length_append, List.length_singleton] at hd ⊢
    omega
  | _ =>
    simp only [rank, List.length_cons, List.length_nil]
    omega

/-- What becomes of a start that nothing comes between, if these tokens come up: from the base
downward. -/
def descend (base : String) (tokens : List String) (fs : FileTree) (here : List Component) :
    List Component → Except SessionError (Session × FileTree)
  | [] => tryTokens fs base tokens
  | x :: back =>
    match fs.createDir (Path.render (x :: here).reverse) with
    | .ok made => descend base tokens made (x :: here) back
    | .error e =>
      if fs.isDir (Path.render (x :: here).reverse) then descend base tokens fs (x :: here) back
      else .error (.noBase base e)

lemma descend_cons (base : String) (tokens : List String) (fs : FileTree) (x : Component)
    (here back : List Component) : descend base tokens fs here (x :: back) =
      match fs.createDir (Path.render (x :: here).reverse) with
      | .ok made => descend base tokens made (x :: here) back
      | .error e =>
        if fs.isDir (Path.render (x :: here).reverse) then descend base tokens fs (x :: here) back
        else .error (.noBase base e) := by
  rw [descend.eq_def]

/-- What becomes of a start that nothing comes between, from any stage. -/
def outcome (base : String) (tokens : List String) (fs : FileTree) (c : Start) :
    Except SessionError (Session × FileTree) :=
  let tokens := tokens.drop c.drawn.length
  match c.stage with
  | .climbing here back =>
    match fs.createDirsFrom here with
    | (.error e, _) => .error (.noBase base e)
    | (.ok _, made) => descend base tokens made here back
  | .looking e here back =>
    if fs.isDir (Path.render here.reverse) then descend base tokens fs here back
    else .error (.noBase base e)
  | .descending here back => descend base tokens fs here back
  | .drawing => tryTokens fs base tokens
  | .claiming token =>
    claim token (Path.join base token) (tryTokens fs base tokens)
      (fs.createDir (Path.join base token))
  | .returned s => .ok (s, fs)
  | .failed e => .error e

/-- The tokens that come up, one after another. -/
def tokensOf (draws : Nat → Vector UInt8 4) : List String :=
  (List.range maxAttempts).map fun k => tokenOf (draws k)

lemma length_tokensOf (draws : Nat → Vector UInt8 4) : (tokensOf draws).length = maxAttempts := by
  rw [tokensOf, List.length_map, List.length_range]

lemma drop_tokensOf (draws : Nat → Vector UInt8 4) {k : Nat} (hk : k < maxAttempts) :
    (tokensOf draws).drop k = tokenOf (draws k) :: (tokensOf draws).drop (k + 1) := by
  rw [List.drop_eq_getElem_cons (length_tokensOf draws ▸ hk)]
  simp [tokensOf]

lemma not_isDir {here back : List Component} {r : Except IoError FileTree}
    (hb : here.reverse ++ back = Path.components base)
    (h : fs.createDir (Path.render here.reverse) = r) (hr : r ≠ .error .alreadyExists) :
    fs.isDir (Path.render here.reverse) = false := by
  by_contra hd
  have hproper := (Path.proper_components base).beginning ⟨back, hb⟩
  exact hr (h.symm.trans (createDir_of_isDir hproper (by simpa using hd)))

/-- One step of a start that is alone changes nothing about what becomes of it. -/
lemma Steps.outcome_eq {draws : Nat → Vector UInt8 4} (hs : Sound base c)
    (h : Steps base (.ok (draws c.drawn.length)) fs c (fs', c')) :
    outcome base (tokensOf draws) fs' c' = outcome base (tokensOf draws) fs c := by
  have hst := hs.stage
  cases h with
  | top | standing | returned | failed => rfl
  | climbed hc =>
    have hd := not_isDir hst hc (by simp)
    simp only [outcome, createDirsFrom, hd, hc, Bool.false_eq_true, if_false]
  | @higher x before _ _ hc =>
    have hd := not_isDir hst hc (by simp)
    simp only [outcome, createDirsFrom, hd, hc, Bool.false_eq_true, if_false]
    generalize fs.createDirsFrom before = r
    rcases r with ⟨e | _, parent⟩
    · rfl
    · simp only [descend_cons]
      cases parent.createDir (Path.render (x :: before).reverse) with
      | ok made => rfl
      | error e => cases parent.isDir (Path.render (x :: before).reverse) <;> rfl
  | @stopped x before _ _ e hne hc =>
    cases hd : fs.isDir (Path.render (x :: before).reverse) with
    | true => simp only [outcome, createDirsFrom, hd, if_true]
    | false =>
      cases e with
      | notFound => exact absurd rfl hne
      | _ => simp only [outcome, createDirsFrom, hd, hc, Bool.false_eq_true, if_false]
  | there hd => simp only [outcome, hd, if_true]
  | lacking hd => simp only [outcome, hd, Bool.false_eq_true, if_false]
  | descended hc | hindered hc =>
    simp only [outcome, descend_cons, hc]
  | spent he =>
    have hnil : (tokensOf draws).drop maxAttempts = [] :=
      List.drop_eq_nil_of_le (length_tokensOf draws).le
    simp only [outcome, he, hnil, tryTokens]
  | drew hne hd =>
    obtain rfl := Except.ok.inj hd
    have hdrop := drop_tokensOf draws (Nat.lt_of_le_of_ne hs.drawn_le hne)
    simp only [outcome, List.length_append, List.length_singleton]
    simp only [hdrop, tryTokens]
  | dry hne hd => cases hd
  | claimed hc => simp only [outcome, hc, claim]
  | taken hc => simp only [outcome, hc, claim]
  | @refused _ _ e hne hc =>
    simp only [outcome, hc]
    cases e with
    | alreadyExists => exact absurd rfl hne
    | _ => rfl

/-- A start that nothing comes between. -/
def alone (base : String) (draws : Nat → Vector UInt8 4) (σ : FileTree × Start) :
    FileTree × Start :=
  σ.2.step base (.ok (draws σ.2.drawn.length)) σ.1

lemma alone_ends (draws : Nat → Vector UInt8 4) (σ : FileTree × Start) (hs : Sound base σ.2) :
    ∃ n, ((alone base draws)^[n] σ).2.rank = 0 ∧
      outcome base (tokensOf draws) ((alone base draws)^[n] σ).1 ((alone base draws)^[n] σ).2 =
        outcome base (tokensOf draws) σ.1 σ.2 := by
  induction hn : σ.2.rank using Nat.strong_induction_on generalizing σ with
  | _ k ih =>
    by_cases hk : k = 0
    · exact ⟨0, hn.trans hk, rfl⟩
    · have hstep : Steps base (.ok (draws σ.2.drawn.length)) σ.1 σ.2 (alone base draws σ) :=
        steps base _ σ.1 σ.2
      have hlt := hstep.rank_lt hs.drawn_le (hn ▸ hk)
      obtain ⟨n, hr, ho⟩ := ih _ (hn ▸ hlt) (alone base draws σ) (hstep.sound hs) rfl
      refine ⟨n + 1, ?_, ?_⟩
      · rw [Function.iterate_succ_apply]
        exact hr
      · rw [Function.iterate_succ_apply, ho]
        exact hstep.outcome_eq hs

lemma outcome_ofBase (base : String) (draws : Nat → Vector UInt8 4) (fs : FileTree) :
    outcome base (tokensOf draws) fs (ofBase base) = create fs base (tokensOf draws) := by
  have htake : (tokensOf draws).take maxAttempts = tokensOf draws :=
    List.take_of_length_le (length_tokensOf draws).le
  simp only [outcome, ofBase, create, createDirAll, htake]
  rfl

/-- A start that nothing comes between ends, and comes to what `create` gives. -/
theorem create_eq_alone (base : String) (draws : Nat → Vector UInt8 4) (fs : FileTree) :
    ∃ n fs' drawn,
      (∃ s, (alone base draws)^[n] (fs, ofBase base) = (fs', ⟨.returned s, drawn⟩) ∧
        create fs base (tokensOf draws) = .ok (s, fs')) ∨
      ∃ e, (alone base draws)^[n] (fs, ofBase base) = (fs', ⟨.failed e, drawn⟩) ∧
        create fs base (tokensOf draws) = .error e := by
  obtain ⟨n, hr, ho⟩ := alone_ends draws (fs, ofBase base) (sound_ofBase base)
  rw [outcome_ofBase] at ho
  generalize hσ : (alone base draws)^[n] (fs, ofBase base) = σ at hr ho
  obtain ⟨fs', stage, drawn⟩ := σ
  refine ⟨n, fs', drawn, ?_⟩
  cases stage with
  | returned s => exact .inl ⟨s, hσ, ho.symm⟩
  | failed e => exact .inr ⟨e, hσ, ho.symm⟩
  | _ => cases hr

end Start

/-- The starts on one base directory, and the files that they share. -/
structure Starts (ι : Type) where
  files : FileTree
  calls : ι → Start

namespace Starts

variable {ι : Type} [DecidableEq ι]

/-- One start takes one step. -/
def step (base : String) (σ : Starts ι) (turn : ι × Draw) : Starts ι :=
  let (files, c) := (σ.calls turn.1).step base turn.2 σ.files
  ⟨files, Function.update σ.calls turn.1 c⟩

def run (base : String) (files : FileTree) (schedule : List (ι × Draw)) : Starts ι :=
  schedule.foldl (step base) ⟨files, fun _ => .ofBase base⟩

variable {base : String} {files : FileTree} {before later schedule : List (ι × Draw)} {i j : ι}
variable {draw : Draw} {σ : Starts ι} {s : Session}

lemma steps_step (base : String) (σ : Starts ι) (i : ι) (draw : Draw) :
    Start.Steps base draw σ.files (σ.calls i)
      ((step base σ (i, draw)).files, (step base σ (i, draw)).calls i) := by
  have h := Start.steps base draw σ.files (σ.calls i)
  simpa [step] using h

lemma run_append :
    run base files (before ++ later) = later.foldl (step base) (run base files before) :=
  List.foldl_append ..

/-- Whatever the order, only directories come up. -/
lemma foldl_grows (σ : Starts ι) (hw : σ.files.WellFormed) (schedule : List (ι × Draw)) :
    GrowsDirs σ.files (schedule.foldl (step base) σ).files := by
  induction schedule generalizing σ with
  | nil => exact .refl hw
  | cons turn schedule ih =>
    have h := (steps_step base σ turn.1 turn.2).grows hw
    exact h.trans (ih _ h.wellFormed)

lemma run_grows (base : String) (hw : files.WellFormed) (schedule : List (ι × Draw)) :
    GrowsDirs files (run base files schedule).files :=
  foldl_grows ⟨files, fun _ => .ofBase base⟩ hw schedule

lemma run_grows_append (base : String) (hw : files.WellFormed) (before later : List (ι × Draw)) :
    GrowsDirs (run base files before).files (run base files (before ++ later)).files := by
  rw [run_append]
  exact foldl_grows _ (run_grows base hw before).wellFormed later

/-- The step at which a start came to its session. -/
structure Claims (base : String) (files : FileTree) (schedule : List (ι × Draw)) (i : ι) (s : Session)
    (before : List (ι × Draw)) (draw : Draw) (later : List (ι × Draw)) : Prop where
  schedule_eq : schedule = before ++ (i, draw) :: later
  made : (run base files before).files.createDir s.path =
    .ok (run base files (before ++ [(i, draw)])).files

/-- A session lies in a directory of its own, right in the base, under its token, where nothing was
before. -/
lemma Claims.place (hw : files.WellFormed) (ht : IsName s.token) (hs : s.path = Path.join base s.token)
    (h : Claims base files schedule i s before draw later) : ∃ home,
      (run base files schedule).files.LeadsTo base home ∧
      (run base files before).files.entry? (home ++ [s.token]) = none ∧
      files.entry? (home ++ [s.token]) = none ∧
      (run base files schedule).files.isDirAt (home ++ [s.token]) = true := by
  have hb := run_grows base hw before
  have hslash : (Path.join base s.token).toList.getLast? ≠ some '/' := by
    rw [Path.getLast?_join ht.ne_empty]
    exact getLast?_of_isName ht
  obtain ⟨loc, hr, hmade⟩ := createDir_ok_iff.mp h.made
  rw [hs, withoutSlash_eq hslash] at hr
  obtain ⟨hseat, hnone⟩ := seat_of_reach hb.wellFormed hr
  obtain ⟨home, hhome, rfl⟩ := reach_join_missing ht hr
  have hlater := run_grows_append base hw (before ++ [(i, draw)]) later
  have hbefore := run_grows_append base hw before ((i, draw) :: later)
  rw [List.append_assoc, List.singleton_append] at hlater
  rw [h.schedule_eq]
  refine ⟨home, hhome.grows hbefore.toGrows, hnone, ?_, ?_⟩
  · by_contra hsome
    obtain ⟨e, he⟩ := Option.ne_none_iff_exists'.mp hsome
    rw [hb.entry? _ e he] at hnone
    cases hnone
  · refine hlater.toGrows.isDirAt ?_
    rw [hmade, isDirAt_iff, entry?_insert hseat.ne_nil, if_pos rfl]

end Starts

end Session

end JavaAtlas
