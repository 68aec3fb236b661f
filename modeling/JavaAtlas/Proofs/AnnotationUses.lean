import JavaAtlas.Proofs.MentionMoves
import JavaAtlas.Proofs.VisitedParts

/-! The annotations that an outline mentions. What one move adds is what it mentions itself and what is
reached in the nodes to which it sends the walk, so a whole walk mentions every annotation that it
reaches, once, at the last word of its name. -/

namespace JavaAtlas.Outline

open Syntax Text

variable {p q : Place} {n c : Node} {g : Gathered}

/-- Where an annotation is named, and the type that it names there. -/
def namedAs? (source : List Char) (a : Node) : Option (Nat × Nat × Target) :=
  (a.child? .name).map fun name =>
    ((annotationAnchor name).start, (annotationAnchor name).length,
      .type (slice source name.start name.stop))

/-- Where annotations are mentioned, and as what. -/
def annotationMentions (ms : List Mention) : List (Nat × Nat × Target) :=
  (ms.filter (·.role == .annotationUse)).map fun m => (m.offset, m.length, m.target)

section Runs

variable {go : Visitor} {source : List Char} {first : Nat} {package : String} {ns : List Node} {k : Nat}

/-- The uses that the annotations make. -/
def usesOf (source : List Char) (found : List (List Node × Node)) : List (Nat × Nat × Target) :=
  found.filterMap fun x => namedAs? source x.2

def usesIn (g : Gathered) : List (Nat × Nat × Target) := annotationMentions g.mentions.toList

/-- The use of an annotation that a move mentions by itself. -/
def Move.ownUses : Move → List (Nat × Nat × Target)
  | .mention _ a .annotationUse target =>
    ((target .empty).map fun t => (a.start, a.length, t)).toList
  | _ => []

/-- Whatever the walk has gathered, the move mentions the same annotation. -/
def Move.Settled : Move → Prop
  | .mention _ _ role target => role = .annotationUse → ∀ g, target g = target .empty
  | _ => True

/-- A visit there mentions the annotations that are reached in the node, once each. -/
def Tells (source : List Char) (go : Visitor) (q : Place) (c : Node) : Prop :=
  ∀ owner g, (usesIn (go { q with owner } c g)).Perm (usesIn g ++ usesOf source (reachedIn q.trail c))

lemma Mentions.role_eq {a : Node} {role : Role} {target : Gathered → Option Target}
    (h : Mentions p n a role target) (hr : role = .annotationUse) :
    n.kind ∈ annotationKinds ∧ ∀ g, target g = target .empty := by
  have haccess : accessRole p n ≠ .annotationUse :=
    ne_of_mem_of_not_mem (accessRole_mem p n) (by decide)
  have htype : typeRole n p.trail ≠ .annotationUse :=
    ne_of_mem_of_not_mem (typeRole_mem n p.trail) (by decide)
  cases h with
  | annotated hk =>
    refine ⟨?_, fun _ => rfl⟩
    rcases hk with hk | hk <;> rw [hk] <;> decide
  | creation | call | invocation | methodReference => cases hr
  | fieldAccess | identifier => exact absurd hr haccess
  | typeIdentifier | scopedType => exact absurd hr htype

lemma settled_moves : ∀ m ∈ moves p n first package, m.Settled := by
  intro m hm
  cases m with
  | mention q a role target =>
    obtain ⟨rfl, hmentions⟩ := mentions_of_mem hm
    exact fun hr => (hmentions.role_eq hr).2
  | visit | body | bind | declare | component | package | imported => trivial

lemma ownUses_of_mem {m : Move} (hk : annotationKinds.contains n.kind = false)
    (hm : m ∈ moves p n first package) : m.ownUses = [] := by
  cases m with
  | mention q a role target =>
    obtain ⟨rfl, hmentions⟩ := mentions_of_mem hm
    rw [Move.ownUses.eq_def]
    split
    · next heq =>
      obtain ⟨-, -, hr, -⟩ := Move.mention.inj heq
      have hin := List.contains_iff_mem.mpr (hmentions.role_eq hr).1
      rw [hk] at hin
      cases hin
    · rfl
  | visit | body | bind | declare | component | package | imported => rfl

lemma ownUses_moves : (moves p n first package).flatMap Move.ownUses =
    if annotationKinds.contains n.kind then (namedAs? p.source n).toList else [] := by
  cases hk : annotationKinds.contains n.kind with
  | false => exact List.flatMap_eq_nil_iff.mpr fun m hm => ownUses_of_mem hk hm
  | true =>
    have hmoves : moves p n first package = annotationMoves p n := by
      have hk := List.contains_iff_mem.mp hk
      simp only [annotationKinds, List.mem_cons, List.not_mem_nil, or_false] at hk
      rcases hk with hk | hk <;> rw [moves, hk]
    have hslot : (slotMoves .arguments p n).flatMap Move.ownUses = [] := by
      rw [slotMoves, visits, List.flatMap_map]
      exact List.flatMap_eq_nil_iff.mpr fun _ _ => rfl
    rw [hmoves, annotationMoves, List.flatMap_append, hslot, List.append_nil, namedAs?, if_pos rfl]
    cases n.child? .name <;> rfl

@[simp] lemma Gathered.bind_mentions (g : Gathered) (name : String) (l : Local) :
    (g.bind name l).mentions = g.mentions := by
  rw [Gathered.bind]
  split <;> rfl

lemma usesIn_record {a : Node} {role : Role} {t : Target} : usesIn (g.record p a role t) =
    usesIn g ++ if role == .annotationUse then [(a.start, a.length, t)] else [] := by
  rw [usesIn, annotationMentions, Gathered.record, Array.toList_push, List.filter_append,
    List.map_append]
  cases hr : role == .annotationUse <;> simp [usesIn, annotationMentions, hr]

lemma usesOf_append {found found' : List (List Node × Node)} :
    usesOf source (found ++ found') = usesOf source found ++ usesOf source found' :=
  List.filterMap_append

lemma usesIn_visitAll (h : ∀ c ∈ ns, Tells source go q c) (g : Gathered) :
    (usesIn (visitAll go q ns g)).Perm
      (usesIn g ++ usesOf source (ns.flatMap (reachedIn q.trail))) := by
  induction ns generalizing g with
  | nil => rw [List.flatMap_nil, usesOf, List.filterMap_nil, List.append_nil]; exact .refl _
  | cons c ns ih =>
    have hc := h c List.mem_cons_self q.owner g
    have hns := ih (fun b hb => h b (List.mem_cons_of_mem c hb)) (go q c g)
    rw [List.flatMap_cons, usesOf_append, ← List.append_assoc]
    exact hns.trans (hc.append_right _)

/-- What one move adds. -/
lemma Move.usesIn_perform {m : Move} (hm : m.Settled) (hs : ∀ s ∈ m.spots, Tells source go s.1 s.2)
    (g : Gathered) : (usesIn (m.perform go g)).Perm (usesIn g ++ (m.ownUses ++
      usesOf source (m.spots.flatMap fun s => reachedIn s.1.trail s.2))) := by
  cases m with
  | visit q c =>
    rw [Move.spots, List.flatMap_singleton]
    exact hs (q, c) List.mem_cons_self q.owner g
  | component d q c =>
    rw [Move.spots, List.flatMap_singleton]
    exact hs (q, c) List.mem_cons_self (some g.declarations.size) (g.declare d)
  | body q c =>
    rw [Move.spots, List.flatMap_map]
    refine usesIn_visitAll (fun b hb => ?_) { g with scopes := [] :: g.scopes }
    exact hs (q, b) (List.mem_map_of_mem hb)
  | bind name l =>
    rw [Move.perform, usesIn, Gathered.bind_mentions]
    exact .of_eq (List.append_nil _).symm
  | mention p a role target =>
    have hspots : (Move.mention p a role target).spots = [] := rfl
    refine .of_eq ?_
    rw [hspots, List.flatMap_nil, usesOf, List.filterMap_nil, List.append_nil, Move.perform]
    by_cases hr : role = .annotationUse
    · rw [hm hr g, hr, Move.ownUses]
      cases target .empty with
      | none => exact (List.append_nil _).symm
      | some t => exact usesIn_record
    · have hown : (Move.mention p a role target).ownUses = [] := by
        rw [Move.ownUses.eq_def]
        split
        · next heq => exact absurd (Move.mention.inj heq).2.2.1 hr
        · rfl
      rw [hown, List.append_nil]
      split
      · rw [usesIn_record, if_neg (by simpa using hr), List.append_nil]
      · rfl
  | declare | package | imported => exact .of_eq (List.append_nil _).symm

lemma usesIn_perform {ms : List Move} (hm : ∀ m ∈ ms, m.Settled)
    (hs : ∀ s ∈ spotsOf ms, Tells source go s.1 s.2) (g : Gathered) :
    (usesIn (perform go ms g)).Perm (usesIn g ++ (ms.flatMap Move.ownUses ++
      usesOf source ((spotsOf ms).flatMap fun s => reachedIn s.1.trail s.2))) := by
  have hparts : (ms.flatMap fun m => m.ownUses ++
      usesOf source (m.spots.flatMap fun s => reachedIn s.1.trail s.2)).Perm
      (ms.flatMap Move.ownUses ++
        usesOf source ((spotsOf ms).flatMap fun s => reachedIn s.1.trail s.2)) := by
    rw [usesOf, spotsOf, List.flatMap_assoc, List.filterMap_flatMap]
    exact (List.flatMap_append_perm ms _ _).symm
  refine List.Perm.trans ?_ (hparts.append_left _)
  clear hparts
  induction ms generalizing g with
  | nil => exact .of_eq (List.append_nil _).symm
  | cons m ms ih =>
    rw [spotsOf_cons, List.forall_mem_append] at hs
    obtain ⟨hfirst, hrest⟩ := List.forall_mem_cons.mp hm
    rw [perform_cons, List.flatMap_cons, ← List.append_assoc]
    exact (ih hrest hs.2 _).trans ((Move.usesIn_perform hfirst hs.1 g).append_right _)

/-- A visited node mentions the annotations that are reached in it if the nodes visited from it do. -/
lemma usesIn_visitNode (h : Visited p n) (hg : n.Grammatical) (hp : Plain n)
    (hs : ∀ s ∈ spotsOf (movesAt p n g), Tells p.source go s.1 s.2) :
    (usesIn (visitNode go p n g)).Perm (usesIn g ++ usesOf p.source (reachedIn p.trail n)) := by
  have hwalk : usesIn (visitNode go p n g) = usesIn (perform go (movesAt p n g) (enter n g)) := by
    rw [visitNode_eq_enter]
    rfl
  have henter : usesIn (enter n g) = usesIn g := by
    rw [enter]
    split <;> rfl
  have hown : usesOf p.source (if annotationKinds.contains n.kind then [(p.trail, n)] else []) =
      (movesAt p n g).flatMap Move.ownUses := by
    rw [movesAt, ownUses_moves]
    split
    · rw [usesOf, List.filterMap_cons]
      cases namedAs? p.source n <;> rfl
    · rfl
  have hparts := (yields_moves h hg hp g.declarations.size g.package).reached.filterMap
    fun s => namedAs? p.source s.2
  rw [hwalk, reachedIn_eq h.clear, usesOf_append, hown, ← henter]
  refine (usesIn_perform settled_moves hs _).trans ?_
  exact (hparts.append_left _).append_left _

/-- The nodes to which the moves of a node send the walk stand below it in the same file. -/
lemma through_of_spot {m : Move} {s : Place × Node} (hm : m.Of p n) (hs : s ∈ m.spots) :
    ∃ j, Through n j s.2 ∧ Deeper p j s.1 := by
  cases hm with
  | visit hthrough hdeeper | component _ hthrough hdeeper =>
    obtain rfl := List.mem_singleton.mp hs
    exact ⟨_, hthrough, hdeeper⟩
  | @body q c hc hbody hdeeper =>
    obtain ⟨b, hb, rfl⟩ := List.mem_map.mp hs
    obtain ⟨before, after, hnamed⟩ := List.append_of_mem hb
    have hsends : Sends (visit 0) .empty (.body q c) q b _ := .body hnamed
    exact hsends.through (.body hc hbody hdeeper)
  | bind | mention | declare | package | imported => cases hs

lemma usesIn_visit (hn : n.height ≤ k) (h : Visited p n) (hg : n.Grammatical) (hp : Plain n)
    (g : Gathered) :
    (usesIn (visit k p n g)).Perm (usesIn g ++ usesOf p.source (reachedIn p.trail n)) := by
  -- by induction on the height: the nodes visited from a node stand below it
  induction k generalizing p n g with
  | zero => exact absurd hn (by cases n; simp [Node.height])
  | succ k ih =>
    refine usesIn_visitNode h hg hp fun s hs owner g' => ?_
    obtain ⟨m, hm, hsm⟩ := List.mem_flatMap.mp hs
    obtain ⟨j, hthrough, hdeeper⟩ := through_of_spot (of_moves p n _ _ m hm) hsm
    have hvisited := (yields_moves h hg hp _ _).visited s hs
    have hgc : s.2.Grammatical := hthrough.everywhere hg
    have hpc : Plain s.2 := hthrough.everywhere hp
    have hlt := hthrough.height_lt
    have hcome : Visited { s.1 with owner } s.2 :=
      ⟨⟨hvisited.typed, hvisited.clear⟩, hvisited.direct⟩
    rw [← hdeeper.source_eq]
    exact ih (by omega) hcome hgc hpc g'

end Runs

/-- The annotations of a tree that an outline mentions are those around which nothing is passed over,
each mentioned once, at the last word of its name and as the type of that name. -/
theorem annotations_mentioned (unit : UnitRef) (i : Nat) (source : String) {tree : Node}
    (hg : tree.Grammatical) (hp : Plain tree) :
    (annotationMentions (JavaAtlas.Outline.ofTree unit i source tree).mentions).Perm
      ((reachedIn [] tree).filterMap fun x => namedAs? source.toList x.2) := by
  have hvisited : Visited ⟨source.toList, unit, i, [], none, 0, []⟩ tree := ⟨⟨rfl, rfl⟩, rfl⟩
  exact usesIn_visit (Nat.le_refl _) hvisited hg hp .empty

/-- A file with two annotations, and its tree. -/
def markedSource : String := "@C class A \x7b \x7b for (@B int x : y) \x7b\x7d \x7d \x7d"

@[inherit_doc markedSource]
def markedTree : Node :=
  .mk .program none 0 40 [.mk .classDeclaration none 0 40 [
    .mk .modifiers none 0 2 [.mk .markerUse none 0 2 [
      .mk .mark none 0 1 [], .mk .identifier (some .name) 1 2 []]],
    .mk .mark none 3 8 [], .mk .identifier (some .name) 9 10 [],
    .mk .classBody none 11 40 [.mk .mark none 11 12 [],
      .mk .block none 13 38 [.mk .mark none 13 14 [],
        .mk .enhancedForStatement none 15 36 [
          .mk .mark none 15 18 [], .mk .mark none 19 20 [],
          .mk .modifiers none 20 22 [.mk .markerUse none 20 22 [
            .mk .mark none 20 21 [], .mk .identifier (some .name) 21 22 []]],
          .mk .primitiveType (some .type) 23 26 [], .mk .identifier (some .name) 27 28 [],
          .mk .mark none 29 30 [], .mk .identifier (some .value) 31 32 [], .mk .mark none 32 33 [],
          .mk .block (some .body) 34 36 [.mk .mark none 34 35 [], .mk .mark none 35 36 []]],
        .mk .mark none 37 38 []],
      .mk .mark none 39 40 []]]]

/-- The annotation of the class is mentioned, that of the variable is not. -/
theorem annotations_mentioned_markedTree :
    (annotationsIn [] markedTree).map (·.2.start) = [0, 20] ∧
      (annotationMentions (JavaAtlas.Outline.ofTree ⟨"A.java"⟩ 0 markedSource markedTree).mentions).Perm
        [(1, 1, .type "C")] := by
  refine ⟨by decide, ?_⟩
  have h := annotations_mentioned ⟨"A.java"⟩ 0 markedSource
    (show markedTree.Grammatical by decide) (by decide)
  have hreached : ((reachedIn [] markedTree).filterMap fun x =>
      namedAs? markedSource.toList x.2) = [(1, 1, .type "C")] := by decide +kernel
  rwa [hreached] at h

end JavaAtlas.Outline
