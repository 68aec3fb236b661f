import JavaAtlas.Proofs.BreadthFirst
import JavaAtlas.Proofs.Lineage

/-! The lineage of a type in its order. A type may wait several times and is passed over when its turn
comes again; a walk of the hierarchy never lets an element wait twice. Both visit the same types in the
same order, because the queue of the walk is the other one without its repetitions. -/

namespace JavaAtlas.Hierarchy

variable {seen : List String}

lemma fresh_append (ns ms : List Element) :
    fresh seen (ns ++ ms) = fresh seen ns ++ fresh (seenAfter seen ns) ms := by
  induction ns generalizing seen with
  | nil => rfl
  | cons n ns ih =>
    rw [List.cons_append]
    by_cases hn : n.id ∈ seen
    · rw [fresh_of_mem hn, fresh_of_mem hn, seenAfter_of_mem hn, ih]
    · rw [fresh_of_not_mem hn, fresh_of_not_mem hn, seenAfter_of_not_mem hn, ih, List.cons_append]

lemma seenAfter_append (ns ms : List Element) :
    seenAfter seen (ns ++ ms) = seenAfter (seenAfter seen ns) ms := by
  simp only [seenAfter, fresh_append, List.map_append, List.reverse_append, List.append_assoc]

end JavaAtlas.Hierarchy

namespace JavaAtlas.Binding.Lexicon

open Hierarchy

variable {lex : Lexicon} {next : String → List Element} {seen queue out : List String} {fuel : ℕ}

/-- The types in the order in which a walk takes them from its queue, with no bound on its steps. -/
inductive Traces (lex : Lexicon) : List String → List String → List String → Prop
  | done {seen : List String} : Traces lex seen [] []
  | skip {seen queue out : List String} {id : String} :
      id ∈ seen → Traces lex seen queue out → Traces lex seen (id :: queue) out
  | visit {seen queue out : List String} {id : String} :
      id ∉ seen → Traces lex (id :: seen) (queue ++ lex.projectSupertypes id) out →
      Traces lex seen (id :: queue) (id :: out)

lemma lineageFrom_traces (hf : queue.length + unseenSupers seen lex.supertypes < fuel) :
    lex.Traces seen queue (lex.lineageFrom fuel seen queue) := by
  induction fuel generalizing seen queue with
  | zero => omega
  | succ fuel ih =>
    cases queue with
    | nil => exact .done
    | cons id queue =>
      rw [List.length_cons] at hf
      by_cases hid : id ∈ seen
      · rw [lineageFrom, if_pos (List.contains_iff_mem.mpr hid)]
        exact .skip hid (ih (by omega))
      · have hstep := unseenSupers_step seen id hid lex.supertypes
        have hlen : (lex.projectSupertypes id).length ≤ ((lex.supertypes.lookup id).getD []).length :=
          lex.projectSupertypes_length_le id
        rw [lineageFrom, if_neg (mt List.contains_iff_mem.mp hid)]
        exact .visit hid (ih (by rw [List.length_append]; omega))

/-- What waits for the walk is what waits for the lineage, without what was seen and each once. -/
lemma Traces.eq_walks (h : lex.Traces seen queue out)
    (hnext : ∀ t, (next t).map (·.id) = lex.projectSupertypes t) {waiting found : List Element}
    (hq : waiting.map (·.id) = queue)
    (hw : Walks next (seenAfter seen waiting) (fresh seen waiting) found) :
    out = (fresh seen waiting).map (·.id) ++ found.map (·.id) := by
  induction h generalizing waiting found with
  | done =>
    obtain rfl := List.map_eq_nil_iff.mp hq
    cases hw with
    | done => rfl
  | @skip seen queue out id hid _ ih =>
    obtain ⟨n, waiting, rfl, rfl, hrest⟩ := List.map_eq_cons_iff.mp hq
    rw [fresh_of_mem hid, seenAfter_of_mem hid] at hw
    rw [fresh_of_mem hid]
    exact ih hrest hw
  | @visit seen queue out id hid _ ih =>
    obtain ⟨n, waiting, rfl, rfl, hrest⟩ := List.map_eq_cons_iff.mp hq
    rw [fresh_of_not_mem hid, seenAfter_of_not_mem hid] at hw
    rw [fresh_of_not_mem hid]
    -- the walk takes the same type, and its new neighbours come behind what waits
    cases hw with
    | visit hw =>
      rw [← fresh_append, ← seenAfter_append] at hw
      have hqueue : (waiting ++ next n.id).map (·.id) = queue ++ lex.projectSupertypes n.id := by
        rw [List.map_append, hrest, hnext]
      have hout := ih hqueue hw
      rw [hout, fresh_append]
      simp only [List.map_cons, List.map_append, List.cons_append, List.append_assoc]

lemma mem_projectSupertypes_listed {id t : String} (h : t ∈ lex.projectSupertypes id) :
    t ∈ (lex.supertypes.flatMap (·.2)).map (·.id) := by
  obtain ⟨ref, href, ht⟩ := List.mem_filterMap.mp h
  refine List.mem_map.mpr ⟨ref, Index.mem_flatMap_of_mem_lookup href, ?_⟩
  cases ref with
  | project id => exact Option.some.inj ht
  | external id => cases ht
  | unresolved name => cases ht

/-- The lineage of a type is the type and then the walk over the supertypes that the project
declares, whatever elements stand for them. -/
theorem lineage_eq_walk (lex : Lexicon) {next : String → List Element}
    (hnext : ∀ t, (next t).map (·.id) = lex.projectSupertypes t) (e : Element) {fuel : ℕ}
    (hf : lex.lineageFuel ≤ fuel) :
    let found := walk fuel (fun t => next t.id) e
    lex.Traces [] [e.id] (lex.lineage e.id) ∧ Walks next [e.id] [e] found ∧
      lex.lineage e.id = e.id :: found.map (·.id) ∧ (lex.lineage e.id).Nodup := by
  have hbound : 2 + (lex.supertypes.flatMap (·.2)).length ≤ lex.lineageFuel :=
    Index.length_superRefs_le lex.supertypes 2
  have htraces : lex.Traces [] [e.id] (lex.lineage e.id) := by
    have hfuel := unseenSupers_nil_le lex.supertypes 2
    refine lineageFrom_traces ?_
    rw [List.length_singleton, lineageFuel]
    omega
  have hclosure : Closure next e (walk fuel (fun t => next t.id) e) := by
    refine walk_closure ((lex.supertypes.flatMap (·.2)).map (·.id)) (fun t x hx => ?_) ?_
    · have hmem : x.id ∈ lex.projectSupertypes t := hnext t ▸ List.mem_map.mpr ⟨x, hx, rfl⟩
      exact mem_projectSupertypes_listed hmem
    · rw [List.length_map]
      omega
  have hwalk : Walks next (seenAfter [] [e]) (fresh [] [e]) (walk fuel (fun t => next t.id) e) :=
    hclosure.ends
  have heq : lex.lineage e.id = e.id :: (walk fuel (fun t => next t.id) e).map (·.id) := by
    refine htraces.eq_walks hnext ?_ hwalk
    rfl
  refine ⟨htraces, hclosure.ends, heq, ?_⟩
  rw [heq, List.nodup_cons]
  refine ⟨fun hmem => ?_, hclosure.once⟩
  obtain ⟨x, hx, hid⟩ := List.mem_map.mp hmem
  exact ((hclosure.reached e.id).mp ⟨x, hx, hid⟩).1 rfl

/-- Interfaces that extend each other crosswise and in a circle. -/
def crossedInterfaces : Lexicon := Index.lexiconOf [.ofSource ⟨"A.java"⟩ 0
  "interface A extends B, C {} interface B extends D {} interface C extends D {}
interface D extends A {}"]

theorem lineage_eq_walk_crossedInterfaces :
    crossedInterfaces.lineage "A" = ["A", "B", "C", "D"] ∧
      (walk crossedInterfaces.lineageFuel
        (fun t => (crossedInterfaces.projectSupertypes t.id).map .binaryType)
        (.binaryType "A")).map (·.id) = ["B", "C", "D"] := by
  have hlineage : crossedInterfaces.lineage "A" = ["A", "B", "C", "D"] := by decide +kernel
  have hnext (t : String) : ((crossedInterfaces.projectSupertypes t).map Element.binaryType).map
      (·.id) = crossedInterfaces.projectSupertypes t := by
    rw [List.map_map]
    exact List.map_id _
  obtain ⟨-, -, heq, -⟩ :=
    lineage_eq_walk crossedInterfaces hnext (.binaryType "A") (Nat.le_refl _)
  exact ⟨hlineage, (List.cons.inj (heq.symm.trans hlineage)).2⟩

end JavaAtlas.Binding.Lexicon
