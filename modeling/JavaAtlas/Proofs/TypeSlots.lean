import JavaAtlas.Proofs.CappedQueries
import JavaAtlas.Proofs.MentionMoves
import JavaAtlas.Proofs.SearchSelection

/-! The slots of types. What a use of a type is called depends on the slot that the whole type fills, once
the nodes are left out that only build the type around its name. -/

namespace JavaAtlas.Outline

open Syntax Text

variable {n t parent : Node} {trail around : List Node} {r : Role}

def builderKinds : List Kind := [.scopedType, .arrayType, .annotatedType, .genericType]

/-- The whole type that a name is part of, and the nodes around that type. -/
def wholeType : Node → List Node → Node × List Node
  | n, [] => (n, [])
  | n, parent :: trail =>
    if builderKinds.contains parent.kind then wholeType parent trail else (n, parent :: trail)

/-- The type fills a slot that has a role of its own. -/
inductive Fills (t : Node) : List Node → Role → Prop
  | argument {parent : Node} {rest : List Node} :
      parent.kind = .typeArguments ∨ parent.kind = .wildcard → Fills t (parent :: rest) .typeArgument
  | cast {parent : Node} {rest : List Node} : parent.kind = .cast → t.slot? ≠ some .value →
      Fills t (parent :: rest) .cast
  | tested {parent : Node} {rest : List Node} : parent.kind = .instanceTest → t.slot? = some .right →
      Fills t (parent :: rest) .instanceTest
  | pattern {parent : Node} {rest : List Node} :
      parent.kind = .typePattern ∨ parent.kind = .recordPattern → Fills t (parent :: rest) .instanceTest
  | created {parent : Node} {rest : List Node} : parent.kind = .objectCreation →
      t.slot? = some .type → Fills t (parent :: rest) .instantiation
  | thrown {parent : Node} {rest : List Node} : parent.kind = .throwsClause →
      Fills t (parent :: rest) .throwsClause
  | caught {parent : Node} {rest : List Node} : parent.kind = .catchType →
      Fills t (parent :: rest) .catchClause
  | extended {parent : Node} {rest : List Node} : parent.kind = .superclass →
      Fills t (parent :: rest) .implementation
  | listed {parent list : Node} {rest : List Node} : parent.kind = .typeList →
      list.kind = .superInterfaces ∨ list.kind = .extendsInterfaces →
      Fills t (parent :: list :: rest) .implementation

/-- The role of the slot; a type that fills no other slot is referred to. -/
def Plays (t : Node) (around : List Node) (r : Role) : Prop :=
  Fills t around r ∨ r = .reference ∧ ∀ r', ¬Fills t around r'

/-- A type that is not the first one of an intersection to which something is cast. -/
def LaterBound (t : Node) (around : List Node) : Prop :=
  headKind? around = some .cast ∧ t.slot? ≠ some .type ∧ t.slot? ≠ some .value

instance : Decidable (LaterBound t around) := inferInstanceAs (Decidable (_ ∧ _))

lemma Plays.other (h : ∀ r, ¬Fills t around r) : Plays t around .reference := .inr ⟨rfl, h⟩

lemma laterBound_iff : LaterBound t (parent :: around) ↔
    parent.kind = .cast ∧ t.slot? ≠ some .type ∧ t.slot? ≠ some .value := by
  simp [LaterBound, headKind?]

lemma plays_of_ne_cast (hb : parent.kind ∉ builderKinds) (hc : parent.kind ≠ .cast) :
    Plays n (parent :: trail) (typeRole n (parent :: trail)) := by
  rw [typeRole]
  split
  case h_1 hk | h_2 hk | h_3 hk | h_4 hk =>
    rw [hk] at hb
    exact absurd (by decide) hb
  case h_5 hk =>
    split
    · next ht => exact .inl (.created hk (eq_of_beq ht))
    · exact .other fun r h => by cases h <;> simp_all
  case h_6 hk => exact absurd hk hc
  case h_7 hk =>
    split
    · next ht => exact .inl (.tested hk (eq_of_beq ht))
    · exact .other fun r h => by cases h <;> simp_all
  case h_8 hk => exact .inl (.pattern (.inr hk))
  case h_9 hk => exact .inl (.pattern (.inl hk))
  case h_10 hk => exact .inl (.thrown hk)
  case h_11 hk => exact .inl (.caught hk)
  case h_12 hk => exact .inl (.argument (.inl hk))
  case h_13 hk => exact .inl (.argument (.inr hk))
  case h_14 hk => exact .inl (.extended hk)
  case h_15 hk =>
    cases trail with
    | nil => exact .other fun r h => by cases h <;> simp_all
    | cons list rest =>
      simp only [headKind?, List.head?_cons, Option.map_some]
      split
      · next hl => exact .inl (.listed hk (.inl (Option.some.inj hl)))
      · next hl => exact .inl (.listed hk (.inr (Option.some.inj hl)))
      · exact .other fun r h => by cases h <;> simp_all
  case h_16 => exact .other fun r h => by cases h <;> simp_all

lemma typeRole_cast (hc : parent.kind = .cast) :
    typeRole n (parent :: trail) = if n.slot? = some .type then .cast else .reference := by
  simp only [typeRole, hc, beq_iff_eq]

lemma typeRole_top (hb : parent.kind ∉ builderKinds) :
    if LaterBound n (parent :: trail) then typeRole n (parent :: trail) = .reference
    else Plays n (parent :: trail) (typeRole n (parent :: trail)) := by
  by_cases hc : parent.kind = .cast
  · rw [typeRole_cast hc]
    by_cases ht : n.slot? = some .type
    · rw [if_neg (by simp [laterBound_iff, ht]), if_pos ht]
      exact .inl (.cast hc (by simp [ht]))
    · rw [if_neg ht]
      by_cases hv : n.slot? = some .value
      · rw [if_neg (by simp [laterBound_iff, hv])]
        exact .other fun r h => by cases h <;> simp_all
      · rw [if_pos (laterBound_iff.mpr ⟨hc, ht, hv⟩)]
  · rw [if_neg fun hl => hc (laterBound_iff.mp hl).1]
    exact plays_of_ne_cast hb hc

/-- The role that the climb finds is that of the slot of the whole type, but for the later bounds of a
cast. -/
lemma typeRole_plays (trail : List Node) (hn : n.kind ≠ .typeArguments) :
    if LaterBound (wholeType n trail).1 (wholeType n trail).2 then typeRole n trail = .reference
    else Plays (wholeType n trail).1 (wholeType n trail).2 (typeRole n trail) := by
  induction trail generalizing n with
  | nil =>
    rw [if_neg (by simp [wholeType, LaterBound, headKind?])]
    exact .inr ⟨rfl, fun r h => by cases h⟩
  | cons parent trail ih =>
    rw [wholeType]
    split
    · next hb =>
      have hclimb : typeRole n (parent :: trail) = typeRole parent trail := by
        simp only [builderKinds, List.contains_eq_mem, decide_eq_true_eq, List.mem_cons,
          List.not_mem_nil, or_false] at hb
        rcases hb with hb | hb | hb | hb <;> simp [typeRole, hb, hn]
      rw [hclimb]
      refine ih fun hp => ?_
      rw [hp] at hb
      exact absurd hb (by decide)
    · next hb => exact typeRole_top (by simpa using hb)

lemma Fills.unique {r' : Role} (h : Fills t around r) (h' : Fills t around r') : r = r' := by
  cases h <;> cases h' <;> grind

def slotRoles : List Role :=
  [.implementation, .instantiation, .cast, .instanceTest, .throwsClause, .catchClause, .typeArgument]

def typeNameKinds : List Kind := [.typeIdentifier, .scopedType]

lemma accessRole_not_mem {p : Place} : accessRole p n ∉ slotRoles := fun h =>
  (by decide : ∀ r ∈ accessRoles, r ∉ slotRoles) _ (accessRole_mem p n) h

/-- The type that the node names fills the slot of that role, and the climb sees that it does. -/
def Found (n : Node) (trail : List Node) (r : Role) : Prop :=
  n.kind ∈ typeNameKinds ∧ ¬LaterBound (wholeType n trail).1 (wholeType n trail).2 ∧
    Fills (wholeType n trail).1 (wholeType n trail).2 r

lemma typeRole_eq_of_found (h : Found n trail r) : typeRole n trail = r := by
  obtain ⟨hk, hl, hf⟩ := h
  have hnot : n.kind ≠ .typeArguments := fun hn => absurd (hn ▸ hk) (by decide)
  have hrole := typeRole_plays trail hnot
  rw [if_neg hl] at hrole
  rcases hrole with hrole | ⟨-, hnone⟩
  · exact hrole.unique hf
  · exact absurd hf (hnone r)

end JavaAtlas.Outline

namespace JavaAtlas.Index

open Binding Outline Syntax

variable {files : List (String × String)} {u : Use} {trail : List Node} {n : Node} {r : Role}

/-- What the use of a type is, by the node that names the type. -/
inductive Classified (u : Use) (trail : List Node) (n : Node) : Prop
  | typeName : n.kind ∈ typeNameKinds → u.offset = (anchorOf n).start → u.length = (anchorOf n).length →
      (if LaterBound (wholeType n trail).1 (wholeType n trail).2 then u.role = .reference
        else Plays (wholeType n trail).1 (wholeType n trail).2 u.role) → Classified u trail n
  | plainName : n.kind = .identifier → u.offset = n.start → u.length = n.length →
      u.role = .reference → Classified u trail n
  | annotated : n.kind = .markerUse ∨ n.kind = .annotationUse → u.role = .annotationUse →
      Classified u trail n

namespace RecordedAt

lemma classified (h : RecordedAt files u trail n) (hf : u.family = .type) : Classified u trail n := by
  cases h with
  | @mk path source μ lex start p n a role target g hused hmade =>
    have hbound := Lexicon.bind?_boundFrom _ hused.bound
    have hoffset : u.offset = a.start := by rw [hbound.offset_eq, hmade.mention_eq]; rfl
    have hlength : u.length = a.length := by rw [hbound.length_eq, hmade.mention_eq]; rfl
    have hrole : μ.role = role := by rw [hmade.mention_eq]; rfl
    obtain ⟨name, -, hname⟩ := Lexicon.bind?_family_type hused.bound hf
    have htarget := hmade.target_eq
    cases hmade.mentions with
    | creation | call | invocation | methodReference | fieldAccess =>
      obtain ht := Option.some.inj htarget
      rcases hname with ⟨hname, -⟩ | ⟨hname, -⟩ <;> rw [hname] at ht <;> cases ht
    | annotated hk =>
      obtain ht := Option.some.inj htarget
      rcases hname with ⟨-, hu⟩ | ⟨hname, -⟩
      · exact .annotated hk (hu.trans hrole)
      · rw [hname] at ht
        cases ht
    | identifier hk =>
      rcases hname with ⟨hname, -⟩ | ⟨-, hu⟩
      · rw [hname] at htarget
        dsimp only at htarget
        split at htarget <;> cases htarget
      · exact .plainName hk hoffset hlength hu
    | typeIdentifier hk =>
      rcases hname with ⟨-, hu⟩ | ⟨hname, -⟩
      · refine .typeName (by rw [hk]; decide) ?_ ?_ ?_
        · rw [anchorOf_typeIdentifier hk, hoffset]
        · rw [anchorOf_typeIdentifier hk, hlength]
        · rw [hu, hrole]
          exact typeRole_plays p.trail (by simp [hk])
      · rw [hname] at htarget
        dsimp only at htarget
        split at htarget <;> cases htarget
    | scopedType hk =>
      rcases hname with ⟨-, hu⟩ | ⟨hname, -⟩
      · refine .typeName (by rw [hk]; decide) hoffset hlength ?_
        rw [hu, hrole]
        exact typeRole_plays p.trail (by simp [hk])
      · rw [hname] at htarget
        cases htarget

/-- A use has the role of a slot exactly if the type that is named fills that slot. -/
lemma role_iff (h : RecordedAt files u trail n) (hr : r ∈ slotRoles) : u.role = r ↔ Found n trail r := by
  have hreference : r ≠ .reference := fun heq => absurd (heq ▸ hr) (by decide)
  cases h with
  | @mk path source μ lex start p n a role target g hused hmade =>
    have hrole : μ.role = role := by rw [hmade.mention_eq]; rfl
    have hown (hu : u.role = r) : role = r := by
      rcases (Lexicon.bind?_boundFrom _ hused.bound).role_eq with hμ | hμ
      · rw [← hrole, ← hμ, hu]
      · exact absurd (hu.symm.trans hμ) hreference
    -- what is mentioned at the name of a type has the role that the climb finds
    have hname (hk : n.kind = .typeIdentifier ∨ n.kind = .scopedType) (hr : role = typeRole n p.trail)
        (ht : ∃ name, μ.target = .type name) : u.role = r ↔ Found n p.trail r := by
      obtain ⟨name, ht⟩ := ht
      have hu : u.role = role := (Lexicon.bind?_role_of_type hused.bound ht).trans hrole
      constructor
      · intro heq
        have hnot : n.kind ≠ .typeArguments := by rcases hk with hk | hk <;> simp [hk]
        have hplays := typeRole_plays p.trail hnot
        rw [← hr, hown heq] at hplays
        split at hplays
        · exact absurd hplays hreference
        · next hl =>
          refine ⟨by rcases hk with hk | hk <;> rw [hk] <;> decide, hl, ?_⟩
          exact hplays.resolve_right fun hother => hreference hother.1
      · intro hfound
        rw [hu, hr, typeRole_eq_of_found hfound]
    have hno (hk : n.kind ∉ typeNameKinds) (hr' : role ∉ slotRoles) : u.role = r ↔ Found n p.trail r :=
      ⟨fun hu => absurd (hown hu ▸ hr) hr', fun hfound => absurd hfound.1 hk⟩
    have htarget := hmade.target_eq
    cases hmade.mentions with
    | creation hk | call hk | invocation hk | methodReference hk =>
      exact hno (by rw [hk]; decide) (by decide)
    | fieldAccess hk | identifier hk => exact hno (by rw [hk]; decide) accessRole_not_mem
    | annotated hk => exact hno (by rcases hk with hk | hk <;> rw [hk] <;> decide) (by decide)
    | typeIdentifier hk =>
      refine hname (.inl hk) rfl ?_
      dsimp only at htarget
      split at htarget
      · cases htarget
      · exact ⟨_, (Option.some.inj htarget).symm⟩
    | scopedType hk => exact hname (.inr hk) rfl ⟨_, (Option.some.inj htarget).symm⟩

end RecordedAt

end JavaAtlas.Index

namespace JavaAtlas.Query

open Index Outline Syntax

def slotShapes : List (Shape × Role) :=
  [(.implementors, .implementation), (.instantiation, .instantiation), (.cast, .cast),
   (.instanceTest, .instanceTest), (.throwsClause, .throwsClause), (.catchClause, .catchClause),
   (.typeArgumentUsage, .typeArgument)]

lemma of_mem_slotShapes {shape : Shape} {r : Role} (h : (shape, r) ∈ slotShapes) :
    r ∈ slotRoles ∧ shape.category ≠ .declarations ∧
      ∀ r', shape.category.accepts r' = true ↔ r' = r := by
  simp only [slotShapes, List.mem_cons, Prod.mk.injEq, List.not_mem_nil, or_false] at h
  rcases h with ⟨rfl, rfl⟩ | ⟨rfl, rfl⟩ | ⟨rfl, rfl⟩ | ⟨rfl, rfl⟩ | ⟨rfl, rfl⟩ | ⟨rfl, rfl⟩ | ⟨rfl, rfl⟩
  all_goals exact ⟨by decide, by decide, fun r' => beq_iff_eq⟩

lemma mem_answerAll_shaped {q : Query} {e : Element} {shape : Shape} {r : Role} {m : SearchMatch}
    (hs : (shape, r) ∈ slotShapes) (he : q.index.admits shape.category (.element e) = true) :
    m ∈ q.answerAll (.shaped e shape) ↔ ∃ u ∈ q.index.uses, e.id ∈ u.targets ∧ u.role = r ∧
      ∃ hit, q.index.useHit? u = some hit ∧ q.present hit = m := by
  obtain ⟨-, hc, haccepts⟩ := of_mem_slotShapes hs
  have hpattern : q.index.searchPattern? shape.category (.element e) =
      some ⟨.element e, shape.category, false⟩ := if_pos he
  rw [answerAll, runAll_eq hpattern, List.mem_map]
  simp only [mem_search_uses hc, haccepts, SearchScope.encloses, true_and]
  constructor
  · rintro ⟨hit, ⟨u, hu, hr, ht, hhit⟩, rfl⟩
    exact ⟨u, hu, ht, hr, hit, hhit, rfl⟩
  · rintro ⟨u, hu, ht, hr, hit, hhit, rfl⟩
    exact ⟨hit, ⟨u, hu, hr, ht, hhit⟩, rfl⟩

/-- Every use of a type is made at a node of the tree of its file and called after the slot that the
whole type fills there; only the later types of an intersection in a cast are called references. So a
search for a slot finds the uses in that slot, up to these, and no others. -/
theorem uses_of_types_by_slot (files : List (String × String)) :
    (∀ u ∈ (ofFiles files).uses, u.family = .type → ∃ trail n, RecordedAt files u trail n) ∧
    (∀ u trail n, RecordedAt files u trail n → u.family = .type → Classified u trail n ∧
      ∃ path source, files[u.unit]? = some (path, source) ∧ Around (parse source.toList) trail n) ∧
    ∀ (paths : PathMap) (e : Element) (shape : Shape) (r : Role), (shape, r) ∈ slotShapes →
      (ofFiles files).admits shape.category (.element e) = true →
        ∀ m, m ∈ (⟨ofFiles files, paths⟩ : Query).answerAll (.shaped e shape) ↔
          ∃ u ∈ (ofFiles files).uses, e.id ∈ u.targets ∧
            (∃ trail n, RecordedAt files u trail n ∧ Found n trail r) ∧
            ∃ hit, (ofFiles files).useHit? u = some hit ∧
              (⟨ofFiles files, paths⟩ : Query).present hit = m := by
  refine ⟨fun u hu _ => exists_recordedAt hu, fun u trail n h hf => ⟨h.classified hf, h.stands⟩,
    fun paths e shape r hs he m => ?_⟩
  rw [mem_answerAll_shaped hs he]
  refine exists_congr fun u => and_congr_right fun hu => and_congr_right fun _ =>
    and_congr_left fun _ => ?_
  obtain ⟨hr, -, -⟩ := of_mem_slotShapes hs
  constructor
  · intro hrole
    obtain ⟨trail, n, h⟩ := exists_recordedAt hu
    exact ⟨trail, n, h, (h.role_iff hr).mp hrole⟩
  · rintro ⟨trail, n, h, hfound⟩
    exact (h.role_iff hr).mpr hfound

/-- In `(B & C) o` the search for casts to a type finds the `B`; what says `C` is called a reference. -/
theorem uses_of_types_by_slot_intersection :
    let files := [("A.java", "class A { Object f(Object o) { return (B & C) o; } } class B {} interface C {}")]
    let q : Query := ⟨ofFiles files, ⟨"/tree", [], false⟩⟩
    (∀ d ∈ q.index.declarations, d.element.name = "B" →
      ((q.answerAll (.shaped d.element .cast)).map (·.offset) = [39] ∧
        ∀ m, m ∈ q.answerAll (.shaped d.element .cast) ↔
          ∃ u ∈ q.index.uses, d.element.id ∈ u.targets ∧
            (∃ trail n, RecordedAt files u trail n ∧ Found n trail .cast) ∧
            ∃ hit, q.index.useHit? u = some hit ∧ q.present hit = m)) ∧
      (∀ u ∈ q.index.uses, u.offset = 43 → u.family = .type ∧ u.role = .reference ∧
        ∃ trail n, RecordedAt files u trail n ∧ Classified u trail n) := by
  intro files q
  obtain ⟨hrecorded, hclassified, hsearch⟩ := uses_of_types_by_slot files
  have hcast : ∀ d ∈ q.index.declarations, d.element.name = "B" →
      q.index.admits Shape.cast.category (.element d.element) = true ∧
        (q.answerAll (.shaped d.element .cast)).map (·.offset) = [39] := by decide +kernel
  have hlater : ∀ u ∈ q.index.uses, u.offset = 43 → u.family = .type ∧ u.role = .reference := by
    decide +kernel
  refine ⟨fun d hd hname => ?_, fun u hu hoffset => ?_⟩
  · obtain ⟨hadmits, hfound⟩ := hcast d hd hname
    exact ⟨hfound, hsearch _ d.element .cast .cast (by decide) hadmits⟩
  · obtain ⟨hfamily, hrole⟩ := hlater u hu hoffset
    obtain ⟨trail, n, h⟩ := hrecorded u hu hfamily
    exact ⟨hfamily, hrole, trail, n, h, (hclassified u trail n h hfamily).1⟩

end JavaAtlas.Query
