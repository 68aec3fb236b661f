import JavaAtlas.Proofs.MentionVisits

/-! Types and created objects. The mention of a created object's constructor stands on the token that
names its type, where the type itself is mentioned again; visiting a type is therefore split into
that one mention and the rest. -/

namespace JavaAtlas.Outline

open Syntax Text

variable {tidy strict : Prop} {p : Place} {owner : Option Placed} {S T : Set Nat}
variable {g g' g'' : Gathered} {n c a : Node}

structure TypeMention (tidy strict : Prop) (owner : Option Placed) (a : Node) (m : Mention) :
    Prop where
  mentionedIn : MentionedIn tidy strict owner m
  offset_eq : m.offset = a.start
  length_eq : m.length = a.length
  target_eq : ∃ name, m.target = .type name

lemma TypeMention.bytes_subset {m : Mention} (h : TypeMention tidy strict owner a m) :
    m.bytes ⊆ a.bytes := by
  rintro i ⟨hi, hi'⟩
  rw [h.offset_eq] at hi hi'
  rw [h.length_eq, Node.length] at hi'
  exact ⟨hi, by omega⟩

/-- Between the two states at most one mention was made on the anchor, and a block elsewhere. -/
def Splits (tidy strict : Prop) (p : Place) (owner : Option Placed) (a : Node) (S : Set Nat)
    (g g' : Gathered) : Prop :=
  ∃ (own : Option Mention) (rest ms : List Mention) (ds : List Declaration),
    g'.declarations.toList = g.declarations.toList ++ ds ∧
    g'.mentions.toList = g.mentions.toList ++ ms ∧ ms.Perm (own.toList ++ rest) ∧
    (∀ m ∈ own, TypeMention tidy strict owner a m) ∧
    Block tidy strict p.unit p.unitIndex owner S g.declarations.size ds rest

namespace Splits

lemma of_gathers (h : Gathers tidy strict p owner S g g') : Splits tidy strict p owner a S g g' := by
  obtain ⟨ds, ms, hd, hm, hb⟩ := h
  exact ⟨none, ms, ms, ds, hd, hm, .refl ms, by simp, hb⟩

lemma mono (h : Splits tidy strict p owner a S g g') (hST : strict → S ⊆ T) :
    Splits tidy strict p owner a T g g' := by
  obtain ⟨own, rest, ms, ds, hd, hm, hp, ho, hb⟩ := h
  exact ⟨own, rest, ms, ds, hd, hm, hp, ho, hb.mono hST⟩

lemma record (hp : Stands tidy p owner n) (ha : Anchor tidy strict a n) {role : Role}
    (hr : role ≠ .declaration) (name : String) :
    Splits tidy strict p owner a ∅ g (g.record p a role (.type name)) := by
  refine ⟨some _, [], [_], [], by simp [Gathered.record], record_mentions g p a role _, .refl _,
    fun m hm => ?_, .nil⟩
  obtain rfl := Option.some.inj hm
  exact ⟨mentionAt_mentionedIn hp ha hr _, rfl, rfl, name, rfl⟩

lemma trans_gathers (h : Splits tidy strict p owner a S g g')
    (h' : Gathers tidy strict p owner T g' g'') (hST : strict → Disjoint S T) :
    Splits tidy strict p owner a (S ∪ T) g g'' := by
  obtain ⟨own, rest, ms, ds, hd, hm, hp, ho, hb⟩ := h
  obtain ⟨ds', ms', hd', hm', hb'⟩ := h'
  rw [declarations_size_eq hd] at hb'
  refine ⟨own, rest ++ ms', ms ++ ms', ds ++ ds', ?_, ?_, ?_, ho, hb.append hb' hST⟩
  · rw [hd', hd, List.append_assoc]
  · rw [hm', hm, List.append_assoc]
  · rw [← List.append_assoc]
    exact hp.append_right ms'

lemma gathers_trans (h : Gathers tidy strict p owner S g g')
    (h' : Splits tidy strict p owner a T g' g'') (hST : strict → Disjoint S T) :
    Splits tidy strict p owner a (S ∪ T) g g'' := by
  obtain ⟨ds, ms, hd, hm, hb⟩ := h
  obtain ⟨own, rest, ms', ds', hd', hm', hp, ho, hb'⟩ := h'
  rw [declarations_size_eq hd] at hb'
  refine ⟨own, ms ++ rest, ms ++ ms', ds ++ ds', ?_, ?_, ?_, ho, hb.append hb' hST⟩
  · rw [hd', hd, List.append_assoc]
  · rw [hm', hm, List.append_assoc]
  · calc (ms ++ ms').Perm (ms ++ (own.toList ++ rest)) := hp.append_left ms
      _ = (ms ++ own.toList) ++ rest := (List.append_assoc ..).symm
      List.Perm _ ((own.toList ++ ms) ++ rest) := List.perm_append_comm.append_right rest
      _ = own.toList ++ (ms ++ rest) := List.append_assoc ..

lemma gathers (h : Splits tidy strict p owner a S g g') (hS : strict → Disjoint a.bytes S) :
    Gathers tidy strict p owner (a.bytes ∪ S) g g' := by
  obtain ⟨own, rest, ms, ds, hd, hm, hp, ho, hb⟩ := h
  refine ⟨ds, ms, hd, hm, .perm hp.symm ?_⟩
  have hown : Block tidy strict p.unit p.unitIndex owner a.bytes g.declarations.size []
      own.toList := by
    cases own with
    | none => exact .nil
    | some m => exact .mention (ho m rfl).mentionedIn fun _ => (ho m rfl).bytes_subset
  exact hown.append hb hS

lemma creation (hp : Stands tidy p owner n) (ha : Anchor tidy strict a n) (name : String)
    (arity : Nat)
    (h : Splits tidy strict p owner a S (g.record p a .reference (.constructor name arity)) g')
    (hS : strict → Disjoint a.bytes S) : Gathers tidy strict p owner (a.bytes ∪ S) g g' := by
  obtain ⟨own, rest, ms, ds, hd, hm, hperm, ho, hb⟩ := h
  have hc := mentionAt_mentionedIn hp ha (show Role.reference ≠ .declaration by decide)
    (.constructor name arity)
  have hsub := mentionAt_bytes_subset p a .reference (.constructor name arity)
  refine ⟨ds, mentionAt p a .reference (.constructor name arity) :: ms, hd, ?_,
    .perm (hperm.symm.cons _) ?_⟩
  · rw [hm, record_mentions, List.append_assoc]
    rfl
  · have hown : Block tidy strict p.unit p.unitIndex owner a.bytes g.declarations.size []
        (mentionAt p a .reference (.constructor name arity) :: own.toList) := by
      cases own with
      | none => exact .mention hc fun _ => hsub
      | some m =>
        have hm := ho m rfl
        exact .creation hc hm.mentionedIn hm.offset_eq.symm hm.length_eq.symm ⟨name, arity, rfl⟩
          hm.target_eq fun _ => hsub
    exact hown.append hb hS

end Splits

lemma anchorOf_typeIdentifier (hk : n.kind = .typeIdentifier) : anchorOf n = n := by
  rw [← typeAnchor_eq_anchorOf (Nat.le_succ n.height), typeAnchor, hk]

lemma anchorOf_scopedType (hk : n.kind = .scopedType) (hn : n.Grammatical) :
    anchorOf n ∈ n.named ∧ (anchorOf n).kind = .typeIdentifier := by
  rw [← typeAnchor_eq_anchorOf (Nat.le_succ n.height), typeAnchor, hk]
  have hs := hn.shaped
  simp only [Node.shaped, hk, Bool.and_eq_true, List.any_eq_true] at hs
  obtain ⟨-, c, hc, hck⟩ := hs
  cases hf : n.named.reverse.find? (·.kind == .typeIdentifier) with
  | none => exact absurd hck (List.find?_eq_none.mp hf c (List.mem_reverse.mpr hc))
  | some a =>
    have ha := List.find?_some hf
    exact ⟨List.mem_reverse.mp (List.mem_of_find?_eq_some hf), by simpa using ha⟩

def namedTypeKinds : List Kind := [.typeIdentifier, .scopedType, .genericType, .primitiveType]

lemma anchorOf_genericType (hk : n.kind = .genericType) (hn : n.Grammatical) :
    ∃ c ∈ n.named, namedTypeKinds.contains c.kind = true ∧ anchorOf n = anchorOf c := by
  rw [← typeAnchor_eq_anchorOf (Nat.le_succ n.height), typeAnchor, hk]
  have hs := hn.shaped
  simp only [Node.shaped, hk, Bool.and_eq_true, List.any_eq_true] at hs
  obtain ⟨-, b, hb, hbk⟩ := hs
  cases hf : n.named.find? fun c =>
      [Kind.typeIdentifier, .scopedType, .genericType].contains c.kind with
  | none =>
    have hne := List.find?_eq_none.mp hf b hb
    simp_all
  | some c =>
    have hc := List.mem_of_find?_eq_some hf
    have hlt := Node.height_lt_of_mem (Node.mem_children_of_mem_named hc)
    have hck := List.find?_some hf
    refine ⟨c, hc, ?_, typeAnchor_eq_anchorOf hlt.le⟩
    simp only [namedTypeKinds, List.contains_cons, Bool.or_eq_true] at hck ⊢
    tauto

def SplitsTypes (go : Visitor) : Prop :=
  ∀ {tidy strict : Prop} {p : Place} {n : Node} {owner : Option Placed} (g : Gathered), strict →
    Fits tidy strict n → Stands tidy p owner n → namedTypeKinds.contains n.kind = true →
    Splits tidy strict p owner (anchorOf n) (n.bytes \ (anchorOf n).bytes) g (go p n g)

lemma visitTypeIdentifier_splits (hk : n.kind = .typeIdentifier) (hf : Fits tidy strict n)
    (hp : Stands tidy p owner n) :
    Splits tidy strict p owner n ∅ g (visitTypeIdentifier p n g) := by
  rw [visitTypeIdentifier]
  split
  · exact .of_gathers .refl
  · dsimp only
    split
    · exact .of_gathers .refl
    · refine .record hp (.self hf fun hs => ?_) (typeRole_ne_declaration n p.trail) _
      have hsh := (hf.grammatical hs).shaped
      simp only [Node.shaped, hk, Bool.and_eq_true, decide_eq_true_eq] at hsh
      exact hsh.2.2

lemma foldl_splits {step : Gathered → Node → Gathered} (hf : Fits tidy strict n) (hs : strict)
    (hc : c ∈ n.named) (ha : a.bytes ⊆ c.bytes)
    (hstep : ∀ b ∈ n.named, ∀ g, Gathers tidy strict p owner b.bytes g (step g b))
    (htype : ∀ g, Splits tidy strict p owner a (c.bytes \ a.bytes) g (step g c)) :
    Splits tidy strict p owner a (n.bytes \ a.bytes) g (n.named.foldl step g) := by
  obtain ⟨l, r, hlr⟩ := List.append_of_mem hc
  have hpw := pairwise_regions hf (named_sublist n) (fun _ => subset_rfl) hs
  rw [hlr, List.pairwise_append, List.pairwise_cons] at hpw
  obtain ⟨hl, ⟨hcr, hr⟩, hlc⟩ := hpw
  have hmem : ∀ b ∈ l ++ c :: r, b ∈ n.children := fun b hb =>
    Node.mem_children_of_mem_named (hlr ▸ hb)
  rw [hlr, List.foldl_append, List.foldl_cons]
  have hbefore := foldl_gathers (fun g => g)
    (fun b hb => hstep b (by rw [hlr]; exact List.mem_append_left _ hb)) (fun _ => hl) g
  have hafter (g : Gathered) := foldl_gathers (fun g => g)
    (fun b hb => hstep b (by rw [hlr]; exact List.mem_append_right _ (List.mem_cons_of_mem c hb)))
    (fun _ => hr) g
  have hdl : Disjoint (regions Node.bytes l) c.bytes :=
    (disjoint_regions fun b hb => (hlc b hb c List.mem_cons_self).symm).symm
  have hdr : Disjoint c.bytes (regions Node.bytes r) := disjoint_regions hcr
  have hdlr : Disjoint (regions Node.bytes l) (regions Node.bytes r) :=
    (disjoint_regions fun b hb => (disjoint_regions fun b' hb' =>
      hlc b hb b' (List.mem_cons_of_mem c hb')).symm).symm
  have hbytes : ∀ b ∈ l ++ c :: r, b.bytes ⊆ n.bytes := fun b hb => hf.bytes_subset (hmem b hb) hs
  have hupto := Splits.gathers_trans hbefore (htype _) fun _ => hdl.mono_right Set.sdiff_subset
  refine (hupto.trans_gathers (hafter _) fun _ => ?_).mono fun _ => ?_
  · exact Set.disjoint_union_left.mpr ⟨hdlr, hdr.mono_left Set.sdiff_subset⟩
  · refine Set.union_subset (Set.union_subset ?_ ?_) ?_
    · refine Set.subset_sdiff.mpr ⟨regions_subset fun b hb => ?_, hdl.mono_right ha⟩
      exact hbytes b (List.mem_append_left _ hb)
    · exact Set.sdiff_subset_sdiff_left (hbytes c (by simp))
    · refine Set.subset_sdiff.mpr ⟨regions_subset fun b hb => ?_, (hdr.mono_left ha).symm⟩
      exact hbytes b (List.mem_append_right _ (List.mem_cons_of_mem c hb))

def qualifierBytes (c : Node) : Set Nat := if c.kind = .genericType then c.bytes else ∅

lemma qualifierBytes_subset (c : Node) : qualifierBytes c ⊆ c.bytes := by
  rw [qualifierBytes]
  split
  · exact subset_rfl
  · exact Set.empty_subset _

lemma disjoint_qualifierBytes (hk : n.kind = .scopedType) (hf : Fits tidy strict n) (hs : strict) :
    Disjoint (anchorOf n).bytes (regions qualifierBytes n.named) := by
  obtain ⟨ha, hak⟩ := anchorOf_scopedType hk (hf.grammatical hs)
  refine disjoint_regions fun c hc => ?_
  rw [qualifierBytes]
  split
  · next hck =>
    have hne : anchorOf n ≠ c := by
      intro h
      rw [h, hck] at hak
      exact nomatch hak
    exact hf.disjoint hs (Node.mem_children_of_mem_named ha) (Node.mem_children_of_mem_named hc) hne
  · exact Set.disjoint_empty _

lemma qualifierBytes_within (hf : Fits tidy strict n) (hs : strict) :
    regions qualifierBytes n.named ⊆ n.bytes := regions_subset fun c hc =>
  (qualifierBytes_subset c).trans (hf.bytes_subset (Node.mem_children_of_mem_named hc) hs)

section

variable {go : Visitor} (hgo : Sound go)
include hgo

lemma visitScopedType_splits (hk : n.kind = .scopedType) (hf : Fits tidy strict n)
    (hp : Stands tidy p owner n) :
    Splits tidy strict p owner (anchorOf n) (regions qualifierBytes n.named) g
      (visitScopedType go p n g) := by
  rw [visitScopedType]
  split
  · exact .of_gathers .refl
  · have ha : Anchor tidy strict (anchorOf n) n := {
      within ht := anchorOf_within (hf.wellFormed ht)
      bytes_subset hs := (anchorOf_within (hf.grammatical hs).wellFormed).bytes_subset
      nonempty hs := (hf.grammatical hs).nonempty_child
        (Node.mem_children_of_mem_named (anchorOf_scopedType hk (hf.grammatical hs)).1) }
    have hrec : Splits tidy strict p owner (anchorOf n) ∅ g (g.record p (anchorOf n)
        (typeRole n p.trail) (.type (eraseType (p.text n)))) :=
      .record hp ha (typeRole_ne_declaration n p.trail) _
    refine (hrec.trans_gathers (foldl_gathers (fun g => g) (fun c hc g => ?_)
      (pairwise_regions hf (named_sublist n) qualifierBytes_subset) _)
      fun _ => Set.empty_disjoint _).mono fun _ => (Set.empty_union _).subset
    have hm := Node.mem_children_of_mem_named hc
    split
    · next hk =>
      have hsub := filter_named_sublist (fun b => b.kind == .typeArguments) c
      rw [qualifierBytes, if_pos (by simpa using hk)]
      exact (visitAll_gathers hgo (hf.child hm) (hp.child hf hm) hsub).mono
        (regions_bytes_subset (hf.child hm) hsub)
    · exact .refl

lemma visitScopedType_gathers (hk : n.kind = .scopedType) (hf : Fits tidy strict n)
    (hp : Stands tidy p owner n) :
    Gathers tidy strict p owner n.bytes g (visitScopedType go p n g) := by
  refine ((visitScopedType_splits hgo hk hf hp).gathers (disjoint_qualifierBytes hk hf)).mono
    fun hs => Set.union_subset ?_ (qualifierBytes_within hf hs)
  exact (anchorOf_within (hf.grammatical hs).wellFormed).bytes_subset

variable (htypes : SplitsTypes go)
include htypes

lemma visitGenericType_splits (hk : n.kind = .genericType) (hs : strict) (hf : Fits tidy strict n)
    (hp : Stands tidy p owner n) :
    Splits tidy strict p owner (anchorOf n) (n.bytes \ (anchorOf n).bytes) g
      (visitChildren go p n g) := by
  obtain ⟨c, hc, hck, ha⟩ := anchorOf_genericType hk (hf.grammatical hs)
  have hm := Node.mem_children_of_mem_named hc
  have hwf := ((hf.child hm).grammatical hs).wellFormed
  rw [ha]
  refine foldl_splits hf hs hc (anchorOf_within hwf).bytes_subset (fun b hb g => ?_) fun g => ?_
  · have hmb := Node.mem_children_of_mem_named hb
    exact hgo g (hf.child hmb) (hp.child hf hmb)
  · exact htypes g hs (hf.child hm) (hp.child hf hm) hck

lemma visitObjectCreation_gathers (hk : n.kind = .objectCreation) (hf : Fits tidy strict n)
    (hp : Stands tidy p owner n) :
    Gathers tidy strict p owner n.bytes g (visitObjectCreation go p n g) := by
  have hstep : ∀ b ∈ n.named, ∀ g, Gathers tidy strict p owner b.bytes g
      (if b.kind == .classBody then visitAnonymousBody go (p.inside n) b g
        else go (p.inside n) b g) := by
    intro b hb g
    have hm := Node.mem_children_of_mem_named hb
    split
    · exact visitAnonymousBody_gathers hgo (hf.child hm) (hp.child hf hm)
    · exact hgo g (hf.child hm) (hp.child hf hm)
  have hall (g : Gathered) := (foldl_gathers (fun g => g) hstep
    (pairwise_regions hf (named_sublist n) fun _ => subset_rfl) g).mono
    (regions_bytes_subset hf (named_sublist n))
  rw [visitObjectCreation]
  split
  · next type htype =>
    have hm := Node.mem_children_of_child? htype
    have hft := hf.child hm
    have hat : Anchor tidy strict (anchorOf type) n :=
      (Anchor.anchorOf hft fun hs => (hf.grammatical hs).nonempty_child hm).ascend hf hm
    by_cases hs : strict
    · have hg := hf.grammatical hs
      have hkind : namedTypeKinds.contains type.kind = true := by
        have hsh := hg.shaped
        simp only [Node.shaped, hk, htype, Option.all_some, Bool.and_eq_true] at hsh
        exact hsh.2
      have hne : type.kind ≠ .mark ∧ type.kind ≠ .classBody := by
        constructor <;> rintro h <;> rw [h] at hkind <;> exact absurd hkind (by decide)
      have hnamed : type ∈ n.named := List.mem_filter.mpr ⟨hm, by simpa using hne.1⟩
      have hsub := (anchorOf_within (hg.wellFormed.child hm)).bytes_subset
      refine (Splits.creation hp hat _ _
        (foldl_splits hf hs hnamed hsub hstep fun g => ?_) fun _ => Set.disjoint_sdiff_right).mono
        fun _ => Set.union_subset (hat.bytes_subset hs) Set.sdiff_subset
      rw [if_neg (by simpa using hne.2)]
      exact htypes g hs hft (hp.child hf hm) hkind
    · have hr (target : Target) : Gathers tidy strict p owner ∅ g
          (g.record p (anchorOf type) .reference target) :=
        (Gathers.record hp hat (by decide) target).mono
          fun h => absurd h hs
      exact ((hr _).trans (hall _) fun h => absurd h hs).mono fun h => absurd h hs
  · exact hall g

end

end JavaAtlas.Outline
