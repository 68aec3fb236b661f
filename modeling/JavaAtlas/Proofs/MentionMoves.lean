import JavaAtlas.Proofs.IndexConsistency
import JavaAtlas.Proofs.MentionMeanings
import JavaAtlas.Proofs.WalkTrails

/-! What the nodes of a tree say. Of all the kinds of nodes few mention anything, each of them one thing
at most; every mention and every declaration of an outline goes back to such a node, with the nodes
around it on its trail. -/

namespace JavaAtlas.Outline

open Syntax Text

variable {p q : Place} {n a x tree : Node} {role : Role} {target : Gathered → Option Target}
variable {g g' : Gathered} {h : Nat} {unit : UnitRef} {i : Nat} {source : String}

/-- The node mentions something: the token, the role, and what the walk makes of it. -/
inductive Mentions (p : Place) (n : Node) : Node → Role → (Gathered → Option Target) → Prop
  | creation {type : Node} : n.kind = .objectCreation → n.child? .type = some type →
      Mentions p n (anchorOf type) .reference fun _ =>
        some (.constructor (eraseType (p.text type)) (argumentCount (n.child? .arguments)))
  | call {c : Node} {typeId : String} : n.kind = .constructorCall →
      n.child? .constructor = some c → p.typeId? = some typeId → c.kind = .thisName →
      Mentions p n c .reference fun _ =>
        some (.constructor (afterLast '.' typeId) (argumentCount (n.child? .arguments)))
  | invocation {name : Node} : n.kind = .methodInvocation → n.child? .name = some name →
      Mentions p n name .reference fun g => some (.method (p.text name)
        (argumentCount (n.child? .arguments)) (receiverOf p g (n.child? .object)))
  | methodReference {qualifier m : Node} {rest : List Node} : n.kind = .methodReference →
      n.children = qualifier :: rest → referred? p rest = some m →
      Mentions p n m .methodReference fun g =>
        some (.methodRef (p.text m) (qualifierOf p g qualifier))
  | fieldAccess {field : Node} : n.kind = .fieldAccess → n.child? .field = some field →
      Mentions p n field (accessRole p n) fun g =>
        some (.field (p.text field) (receiverOf p g (n.child? .object)))
  | annotated {name : Node} : n.kind = .markerUse ∨ n.kind = .annotationUse →
      n.child? .name = some name →
      Mentions p n (annotationAnchor name) .annotationUse fun _ => some (.type (p.text name))
  | identifier : n.kind = .identifier → isNaming p n = false →
      Mentions p n n (accessRole p n) fun g =>
        if (g.local? (p.text n)).isSome then none else some (.name (p.text n))
  | typeIdentifier : n.kind = .typeIdentifier → p.parentKind? ≠ some .scopedType →
      Mentions p n n (typeRole n p.trail) fun g =>
        if p.text n == "var" || g.local? (p.text n) == some .typeParameter then none
        else some (.type (p.text n))
  | scopedType : n.kind = .scopedType → p.parentKind? ≠ some .scopedType →
      Mentions p n (anchorOf n) (typeRole n p.trail) fun _ => some (.type (eraseType (p.text n)))

lemma mention_not_mem_visits {ns : List Node} {r : Place} : .mention q a role target ∉ visits r ns := by
  simp [visits]

lemma mention_not_mem_slotMoves {s : Slot} : .mention q a role target ∉ slotMoves s p n :=
  mention_not_mem_visits

lemma mention_of_option {o : Option Node} {anchor : Node → Node} {r : Role}
    {named : Node → Gathered → Option Target} {rest : List Move}
    (hrest : .mention q a role target ∉ rest)
    (h : .mention q a role target ∈
      (o.map fun c => Move.mention p (anchor c) r (named c)).toList ++ rest) :
    ∃ c, o = some c ∧ anchor c = a ∧ r = role ∧ named c = target := by
  rcases List.mem_append.mp h with h | h
  · obtain ⟨c, hc, heq⟩ := Option.map_eq_some_iff.mp (Option.mem_toList.mp h)
    obtain ⟨-, ha, hr, ht⟩ := Move.mention.inj heq
    exact ⟨c, hc, ha, hr, ht⟩
  · exact absurd h hrest

lemma mentions_of_mem {first : Nat} {package : String}
    (h : .mention q a role target ∈ moves p n first package) : q = p ∧ Mentions p n a role target := by
  obtain ⟨rfl, hkind⟩ : q = p ∧ n.kind ∈ usingKinds := by
    cases of_moves p n first package _ h with
    | mention hkind => exact ⟨rfl, hkind⟩
  refine ⟨rfl, ?_⟩
  simp only [usingKinds, List.mem_cons, List.not_mem_nil, or_false] at hkind
  rcases hkind with hk | hk | hk | hk | hk | hk | hk | hk | hk | hk
  all_goals simp only [moves, hk] at h
  -- a created object
  · obtain ⟨type, htype, rfl, rfl, rfl⟩ := mention_of_option (fun hrest => by
      obtain ⟨c, -, hc⟩ := List.mem_map.mp hrest
      rw [creationPart] at hc
      split at hc <;> cases hc) h
    exact .creation hk htype
  -- a call of another constructor
  · rw [constructorCallMoves, List.mem_append, List.mem_append] at h
    rcases h with (h | h) | h
    · rw [calledConstructor] at h
      split at h
      · next c typeId hc hid =>
        split at h
        · next hthis =>
          obtain ⟨-, rfl, rfl, rfl⟩ := Move.mention.inj (List.mem_singleton.mp h)
          exact .call hk hc hid (eq_of_beq hthis)
        · cases h
      · cases h
    · exact absurd h mention_not_mem_slotMoves
    · exact absurd h mention_not_mem_slotMoves
  -- a call of a method
  · simp only [invocationMoves, List.append_assoc] at h
    obtain ⟨name, hname, rfl, rfl, rfl⟩ := mention_of_option (by
      simp only [List.mem_append, mention_not_mem_slotMoves, or_self, not_false_eq_true]) h
    exact .invocation hk hname
  -- a method reference
  · rw [methodReferenceMoves] at h
    split at h
    · cases h
    · next qualifier rest hch =>
      obtain ⟨m, hm, rfl, rfl, rfl⟩ := mention_of_option mention_not_mem_visits h
      exact .methodReference hk hch hm
  · obtain ⟨field, hfield, rfl, rfl, rfl⟩ := mention_of_option mention_not_mem_slotMoves h
    exact .fieldAccess hk hfield
  · obtain ⟨name, hname, rfl, rfl, rfl⟩ := mention_of_option mention_not_mem_slotMoves h
    exact .annotated (.inl hk) hname
  · obtain ⟨name, hname, rfl, rfl, rfl⟩ := mention_of_option mention_not_mem_slotMoves h
    exact .annotated (.inr hk) hname
  · rw [identifierMoves] at h
    split at h
    · cases h
    · next hno =>
      obtain ⟨-, rfl, rfl, rfl⟩ := Move.mention.inj (List.mem_singleton.mp h)
      exact .identifier hk (Bool.not_eq_true _ ▸ hno)
  · rw [typeIdentifierMoves] at h
    split at h
    · cases h
    · next hno =>
      obtain ⟨-, rfl, rfl, rfl⟩ := Move.mention.inj (List.mem_singleton.mp h)
      exact .typeIdentifier hk (by simpa using hno)
  · rw [scopedTypeMoves] at h
    split at h
    · cases h
    · next hno =>
      rcases List.mem_cons.mp h with h | h
      · obtain ⟨-, rfl, rfl, rfl⟩ := Move.mention.inj h
        exact .scopedType hk (by simpa using hno)
      · obtain ⟨c, -, hc⟩ := List.mem_flatMap.mp h
        rw [qualifierPart] at hc
        split at hc
        · exact absurd hc mention_not_mem_visits
        · cases hc

section Origins

/-- What a mention stands at is a part of the node that makes it. -/
lemma Mentions.closed {P : Node → Prop} (h : Mentions p n a role target)
    (hP : ∀ n c, P n → c ∈ n.children → P c) (hn : P n) : P a := by
  have hslot {c : Node} {s : Slot} (hc : n.child? s = some c) : P c :=
    hP n c hn (Node.mem_children_of_child? hc)
  cases h with
  | creation _ htype => exact typeAnchor_closed hP _ (hslot htype)
  | call _ hc => exact hslot hc
  | invocation _ hname => exact hslot hname
  | methodReference _ hch hm =>
    have hrest := ((List.tail_sublist _).trans (List.dropWhile_sublist _)).subset
      (List.mem_of_find?_eq_some hm)
    exact hP n a hn (hch ▸ List.mem_cons_of_mem _ hrest)
  | fieldAccess _ hfield => exact hslot hfield
  | @annotated name _ hname =>
    rw [annotationAnchor]
    split
    · cases hlast : name.child? .name with
      | none => exact hslot hname
      | some last => exact hP name last (hslot hname) (Node.mem_children_of_child? hlast)
    · exact hslot hname
  | identifier | typeIdentifier => exact hn
  | scopedType => exact typeAnchor_closed hP _ hn

lemma Mentions.kind_mem (h : Mentions p n a role target) : n.kind ∈ usingKinds := by
  cases h with
  | annotated hk =>
    rcases hk with hk | hk <;> rw [hk] <;> decide
  | creation hk | call hk | invocation hk | methodReference hk | fieldAccess hk
  | identifier hk | typeIdentifier hk | scopedType hk => rw [hk]; decide

/-- The name that a node gives is a part of it. -/
lemma DeclaredBy.closed {P : Node → Prop} {d : Declaration} (h : DeclaredBy p n x d)
    (hP : ∀ n c, P n → c ∈ n.children → P c) (hn : P n) : P x := by
  have hslot {c : Node} {s : Slot} (hc : n.child? s = some c) : P c :=
    hP n c hn (Node.mem_children_of_child? hc)
  cases h with
  | type _ hx | method _ hx | constant _ hx => exact hslot hx
  | field _ hx =>
    obtain ⟨c, hc, hname⟩ := List.mem_filterMap.mp hx
    exact hP c x (hP n c hn (mem_children_of_declarators hc)) (Node.mem_children_of_child? hname)
  | component _ hps _ hc _ hx =>
    exact hP _ x (hP _ _ (hP n _ hn hps) hc) (Node.mem_children_of_child? hx)

lemma DeclaredBy.kind_mem {d : Declaration} (h : DeclaredBy p n x d) :
    n.kind ∈ typeKinds ++ methodKinds ++ fieldKinds ++ [.enumConstant] := by
  simp only [List.mem_append, List.mem_singleton]
  cases h with
  | type ht | component ht => exact .inl (.inl (.inl (List.contains_iff_mem.mp ht)))
  | method hk => exact .inl (.inl (.inr hk))
  | field hk => exact .inl (.inr hk)
  | constant hk => exact .inr hk

lemma DeclaredBy.name_place {d : Declaration} (h : DeclaredBy p n x d) :
    d.element.nameOffset = some x.start ∧ d.element.nameLength = x.length := by
  cases h with
  | component _ _ _ _ _ _ _ hstart hlength => exact ⟨hstart, hlength⟩
  | type | method | field | constant => exact ⟨rfl, rfl⟩

/-- The walk over a tree with that source has come to the node. -/
structure Reaches (source : List Char) (tree : Node) (p : Place) (n : Node) : Prop where
  source_eq : p.source = source
  around : Around tree p.trail n

lemma Reaches.sends {source : List Char} {go : Visitor} {c : Node} {g'' : Gathered} {m : Move}
    (hp : Reaches source tree p n) (hm : m ∈ movesAt p n g) (hs : Sends go g' m q c g'') :
    Reaches source tree q c := by
  obtain ⟨j, -, hq⟩ := hs.through (of_moves _ _ _ _ _ hm)
  exact ⟨hq.source_eq.trans hp.source_eq, hs.around (keeps_moves hp.around _ _ m hm)⟩

/-- Where a mention of an outline comes from. -/
structure MadeAt (source : List Char) (tree : Node) (μ : Mention) (p : Place) (n a : Node) (role : Role)
    (target : Gathered → Option Target) (g : Gathered) : Prop where
  reaches : Reaches source tree p n
  mentions : Mentions p n a role target
  target_eq : target g = some μ.target
  mention_eq : μ = mentionAt p a role μ.target

theorem exists_madeAt {μ : Mention} (hμ : μ ∈ (JavaAtlas.Outline.ofTree unit i source tree).mentions) :
    ∃ p n a role target g, MadeAt source.toList tree μ p n a role target g := by
  obtain ⟨p, n, g, m, g', hp, hm, h₀, h₁⟩ := exists_move_where (R := Reaches source.toList tree)
    (P := fun g => μ ∈ g.mentions.toList) (fun hp hm hs => hp.sends hm hs) (fun _ _ => Iff.rfl)
    ⟨rfl, .root⟩ (by simp [Gathered.empty]) hμ
  obtain ⟨q, a, role, target, t, rfl, ht, rfl⟩ := alone_mentions h₀ h₁
  obtain ⟨rfl, hmentions⟩ := mentions_of_mem hm
  exact ⟨q, n, a, role, target, g', hp, hmentions, ht, rfl⟩

theorem exists_declaredBy {d : Declaration}
    (hd : d ∈ (JavaAtlas.Outline.ofTree unit i source tree).declarations) :
    ∃ p n x, Reaches source.toList tree p n ∧ DeclaredBy p n x d := by
  obtain ⟨p, n, g, m, g', hp, hm, h₀, h₁⟩ := exists_move_where (R := Reaches source.toList tree)
    (P := fun g => d ∈ g.declarations.toList) (fun hp hm hs => hp.sends hm hs) (fun _ _ => Iff.rfl)
    ⟨rfl, .root⟩ (by simp [Gathered.empty]) hd
  obtain ⟨x, hx⟩ := of_declares (of_moves p n _ _ m hm) (alone_declares h₀ h₁)
  exact ⟨p, n, x, hp, hx⟩

end Origins

end JavaAtlas.Outline

namespace JavaAtlas.Index

open Binding Outline Syntax

variable {files : List (String × String)} {u : Use} {trail : List Node} {n : Node}

/-- Where a use comes from: a mention of a file. -/
structure UsedIn (files : List (String × String)) (u : Use) (path source : String) (μ : Mention)
    (lex : Lexicon) (start : Nat) : Prop where
  file_eq : files[u.unit]? = some (path, source)
  mem : μ ∈ (Outline.ofSource ⟨path⟩ u.unit source).mentions
  bound : lex.bind? μ u.unit start = some u
  declarations_eq : lex.declarations = (ofFiles files).declarations

lemma exists_usedIn (h : u ∈ (ofFiles files).uses) :
    ∃ path source μ lex start, UsedIn files u path source μ lex start := by
  obtain ⟨i, o, μ, ho, hμ, hb⟩ := mem_uses_iff.mp h
  rw [List.getElem?_map, Option.map_eq_some_iff] at ho
  obtain ⟨⟨⟨path, source⟩, j⟩, hfile, rfl⟩ := ho
  obtain rfl := (Lexicon.bind?_boundFrom _ hb).unit_eq
  rw [List.getElem?_zipIdx, Option.map_eq_some_iff] at hfile
  obtain ⟨file, hfile, heq⟩ := hfile
  rw [Nat.zero_add, Prod.mk.injEq] at heq
  obtain ⟨rfl, rfl⟩ := heq
  exact ⟨path, source, μ, _, _, hfile, hμ, hb, rfl⟩

/-- The walk over the file of a use comes to the node, inside the nodes of the trail, and there it
mentions what the use was bound from. -/
inductive RecordedAt (files : List (String × String)) (u : Use) : List Node → Node → Prop
  | mk {path source : String} {μ : Mention} {lex : Lexicon} {start : Nat} {p : Place} {n a : Node}
      {role : Role} {target : Gathered → Option Target} {g : Gathered} :
      UsedIn files u path source μ lex start →
      MadeAt source.toList (parse source.toList) μ p n a role target g →
      RecordedAt files u p.trail n

lemma exists_recordedAt (h : u ∈ (ofFiles files).uses) : ∃ trail n, RecordedAt files u trail n := by
  obtain ⟨path, source, μ, lex, start, hused⟩ := exists_usedIn h
  obtain ⟨p, n, a, role, target, g, hmade⟩ := exists_madeAt hused.mem
  exact ⟨p.trail, n, .mk hused hmade⟩

lemma RecordedAt.stands (h : RecordedAt files u trail n) : ∃ path source,
    files[u.unit]? = some (path, source) ∧ Around (parse source.toList) trail n := by
  cases h with
  | mk hused hmade => exact ⟨_, _, hused.file_eq, hmade.reaches.around⟩

end JavaAtlas.Index
