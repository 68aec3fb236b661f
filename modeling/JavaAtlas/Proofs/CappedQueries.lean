import JavaAtlas.Proofs.IndexConsistency
import JavaAtlas.Query

/-! A caller who takes a limited number of results stops the search once it has them. What it has then
is the beginning of what a caller without a limit gets. -/

namespace JavaAtlas.Index

variable {α σ : Type}

lemma report_filterMap (hit? : α → Option Hit) (ask : σ → Hit → σ × Bool) (s : σ)
    (entries : List α) :
    report hit? ask s entries = report some ask s (entries.filterMap hit?) := by
  induction entries generalizing s with
  | nil => rfl
  | cons a rest ih =>
    cases h : hit? a with
    | none =>
      rw [report, h, List.filterMap_cons_none h]
      exact ih s
    | some hit =>
      rw [List.filterMap_cons_some h]
      rcases hask : ask s hit with ⟨s', _ | _⟩
      · simp only [report, h, hask]
      · simp only [report, h, hask]
        exact ih s'

/-- The caller is handed what `search` lists. -/
lemma request_eq (index : Index) (pattern : SearchPattern) (scope : SearchScope)
    (ask : σ → Hit → σ × Bool) (s : σ) :
    index.request pattern scope ask s = report some ask s (index.search pattern scope) := by
  obtain ⟨target, category, caseSensitive⟩ := pattern
  cases category with
  | declarations =>
    simp only [request, search]
    cases declarationTest? caseSensitive target with
    | none => rfl
    | some test =>
      dsimp only
      rw [report_filterMap, ← List.filterMap_eq_map, List.filterMap_filter]
      rfl
  | _ =>
    simp only [request, search]
    cases useTest? caseSensitive target with
    | none => rfl
    | some test =>
      dsimp only
      rw [report_filterMap, List.filterMap_filter]

end JavaAtlas.Index

namespace JavaAtlas.Query

open Index

variable (q : Query) (wanted : Hit → Bool)

/-- Keeps a result that is wanted, and always asks for more. -/
def collectAll (kept : List SearchMatch) (hit : Hit) : List SearchMatch × Bool :=
  (if wanted hit then kept ++ [q.present hit] else kept, true)

lemma report_collectAll (kept : List SearchMatch) (hits : List Hit) :
    report some (q.collectAll wanted) kept hits =
      kept ++ (hits.filter wanted).map q.present := by
  induction hits generalizing kept with
  | nil => simp [report]
  | cons hit rest ih =>
    simp only [report, collectAll]
    rw [ih]
    split
    · next h => simp [h]
    · next h => simp [h]

lemma report_collect {most : Nat} (kept : List SearchMatch) (h : kept.length < most)
    (hits : List Hit) :
    report some (q.collect wanted most) kept hits =
      kept ++ ((hits.filter wanted).map q.present).take (most - kept.length) := by
  induction hits generalizing kept with
  | nil => simp [report]
  | cons hit rest ih =>
    cases hw : wanted hit with
    | false => simpa [report, collect, hw, h] using ih kept h
    | true =>
      -- the result itself takes one of the places that are left
      have hplaces : most - kept.length = most - (kept ++ [q.present hit]).length + 1 := by
        rw [List.length_append, List.length_singleton]
        omega
      rw [List.filter_cons_of_pos hw, List.map_cons, hplaces, List.take_succ_cons,
        List.append_cons]
      simp only [report, collect, hw, if_true]
      rcases Nat.lt_or_ge (kept ++ [q.present hit]).length most with hmore | hfull
      · simp only [hmore, decide_true]
        exact ih _ hmore
      · simp only [Nat.not_lt.mpr hfull, decide_false, Nat.sub_eq_zero_of_le hfull, List.take_zero,
          List.append_nil]

/-- All results for a target; none when it cannot be searched for. -/
def runAll (target : SearchTarget) (category : Category) (scope : SearchScope) :
    List SearchMatch :=
  match q.index.searchPattern? category target with
  | none => []
  | some pattern => q.index.request pattern scope (q.collectAll fun _ => true) []

/-- All subtypes of a type, or all methods like a method in the subtypes of its type. -/
def allImplementations (e : Element) : List SearchMatch :=
  if e.kind.isType then (q.index.allSubtypes e).filterMap q.declarationMatch?
  else if e.kind != .method then []
  else
    match e.declaringType.bind q.index.declaration? with
    | none => []
    | some owner =>
      let subtypes := (q.index.allSubtypes owner.element).map (·.id)
      if subtypes.isEmpty then []
      else
        match q.index.searchPattern? .declarations (.name e.name (some .method)) with
        | none => []
        | some pattern => q.index.request pattern (.types subtypes) (q.collectAll (isLike e)) []

variable {q} {target : SearchTarget} {category : Category} {pattern : SearchPattern}

lemma runAll_eq (h : q.index.searchPattern? category target = some pattern) (scope : SearchScope) :
    q.runAll target category scope = (q.index.search pattern scope).map q.present := by
  simp only [runAll, h]
  rw [request_eq, report_collectAll, List.filter_true, List.nil_append]

lemma run_eq_take (target : SearchTarget) (category : Category) (scope : SearchScope) (most : Nat) :
    q.run target category scope most = (q.runAll target category scope).take most := by
  rw [run]
  split
  · next h => rw [h, List.take_zero]
  · next h =>
    cases hp : q.index.searchPattern? category target with
    | none => simp [runAll, hp]
    | some pattern =>
      rw [runAll_eq hp]
      simp only [request_eq]
      rw [report_collect q _ [] (Nat.pos_of_ne_zero h), List.filter_true]
      rfl

lemma findImplementations_eq_take (e : Element) {most : Nat} (hmost : 0 < most) :
    q.findImplementations e most = (q.allImplementations e).take most := by
  rw [findImplementations, allImplementations]
  split
  · rfl
  split
  · simp
  cases e.declaringType.bind q.index.declaration? with
  | none => exact List.take_nil.symm
  | some owner =>
    dsimp only
    split
    · exact List.take_nil.symm
    cases q.index.searchPattern? .declarations (.name e.name (some .method)) with
    | none => exact List.take_nil.symm
    | some pattern =>
      simp only [request_eq, report_collectAll]
      exact report_collect q _ [] hmost _

/-- What can be asked with a limit on the number of results. -/
inductive Question where
  | symbols (pattern : String) (family : Option ElementFamily)
  | references (e : Element) (access : Access)
  | shaped (e : Element) (shape : Shape)
  | implementations (e : Element)

/-- The answer with a limit. -/
def answer (q : Query) : Question → Nat → List SearchMatch
  | .symbols pattern family => q.searchSymbols pattern family
  | .references e access => q.findReferences e access
  | .shaped e shape => q.findByShape e shape
  | .implementations e => q.findImplementations e

/-- The answer to one who never stops. -/
def answerAll (q : Query) : Question → List SearchMatch
  | .symbols pattern family => q.runAll (.name pattern family) .declarations .project
  | .references e access => q.runAll (.element e) access.shape.category .project
  | .shaped e shape => q.runAll (.element e) shape.category .project
  | .implementations e => q.allImplementations e

/-- A limit takes the beginning of all results, and a higher limit only adds to it. -/
theorem answer_take (q : Query) (question : Question) {most more : Nat} (hmost : 0 < most)
    (hmore : most ≤ more) :
    q.answer question most = (q.answerAll question).take most ∧
      q.answer question most <+: q.answer question more := by
  have htake {n : Nat} (hn : 0 < n) : q.answer question n = (q.answerAll question).take n := by
    cases question with
    | symbols pattern family => exact run_eq_take _ _ _ n
    | references e access => exact run_eq_take _ _ _ n
    | shaped e shape => exact run_eq_take _ _ _ n
    | implementations e => exact findImplementations_eq_take e hn
  rw [htake (hmost.trans_le hmore), htake hmost]
  exact ⟨rfl, List.take_prefix_take_left hmore⟩

theorem answer_take_twoFields :
    let q : Query := ⟨ofTrees [twoFields], ⟨"/tree", [], false⟩⟩
    (0 < 1 ∧ 1 ≤ 2) ∧ (q.answer (.symbols "*" none) 1 = (q.answerAll (.symbols "*" none)).take 1 ∧
      q.answer (.symbols "*" none) 1 <+: q.answer (.symbols "*" none) 2) ∧
      (q.answer (.symbols "*" none) 2).map (·.elementId) = ["A", "A#x"] :=
  ⟨by decide, answer_take _ _ (by decide) (by decide), by decide +kernel⟩

end JavaAtlas.Query
