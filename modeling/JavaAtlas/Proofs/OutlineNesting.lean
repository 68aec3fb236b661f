import JavaAtlas.Proofs.OutlineBlocks
import Mathlib.Data.List.Chain

/-! What a block says about the order, the nesting and the places of what it holds. Each fact is an
induction over the block; for a whole file they hold with no owner around and positions from zero. -/

namespace JavaAtlas.Outline

open Syntax Text

variable {tidy strict : Prop} {ref : UnitRef} {unit : Nat} {owner o : Option Placed}
variable {S : Set Nat} {base : Nat} {ds ds' more : List Declaration} {ms : List Mention}
variable {d : Declaration}

def OwnerBefore (owner : Option Placed) (base : Nat) (ds : List Declaration) (k : Nat)
    (o : Option Placed) : Prop :=
  o = owner ∨ ∃ j e, j < k ∧ ds[j]? = some e ∧ o = some ⟨base + j, e⟩

namespace OwnerBefore

lemma append_left {k : Nat} (h : OwnerBefore owner base ds k o) :
    OwnerBefore owner base (ds ++ ds') k o := by
  rcases h with h | ⟨j, e, hj, he, h⟩
  · exact .inl h
  · have hlt : j < ds.length := (List.getElem?_eq_some_iff.mp he).1
    exact .inr ⟨j, e, hj, by rw [List.getElem?_append_left hlt, he], h⟩

lemma append_right {k : Nat} (h : OwnerBefore owner (base + ds.length) ds' k o) :
    OwnerBefore owner base (ds ++ ds') (ds.length + k) o := by
  rcases h with h | ⟨j, e, hj, he, h⟩
  · exact .inl h
  · refine .inr ⟨ds.length + j, e, by omega, ?_, by rw [h, Nat.add_assoc]⟩
    rw [List.getElem?_append_right (by omega), Nat.add_sub_cancel_left, he]

lemma declare {k : Nat}
    (h : OwnerBefore (some ⟨base, d⟩) (base + (d :: more).length) ds k o) :
    OwnerBefore owner base (d :: more ++ ds) ((d :: more).length + k) o := by
  have hpos : 0 < (d :: more).length + k := by
    rw [List.length_cons]
    omega
  rcases h.append_right with h | h
  · exact .inr ⟨0, d, hpos, rfl, h⟩
  · exact .inr h

lemma mono {k k' : Nat} (h : OwnerBefore owner base ds k o) (hk : k ≤ k') :
    OwnerBefore owner base ds k' o := by
  rcases h with h | ⟨j, e, hj, he, h⟩
  · exact .inl h
  · exact .inr ⟨j, e, hj.trans_le hk, he, h⟩

end OwnerBefore

def Creation (m type : Mention) : Prop :=
  m.offset = type.offset ∧ m.length = type.length ∧
    (∃ name arity, m.target = .constructor name arity) ∧ ∃ name, type.target = .type name

namespace Block

lemma declaration_owned (h : Block tidy strict ref unit owner S base ds ms) {k : Nat}
    (hk : ds[k]? = some d) :
    ∃ o, OwnerBefore owner base ds k o ∧ DeclaredIn tidy ref unit o d := by
  induction h generalizing k d with
  | nil => simp at hk
  | @append owner S T base ds ds' ms ms' _ _ _ ih ih' =>
    rcases Nat.lt_or_ge k ds.length with hlt | hge
    · rw [List.getElem?_append_left hlt] at hk
      obtain ⟨o, ho, hd⟩ := ih hk
      exact ⟨o, ho.append_left, hd⟩
    · rw [List.getElem?_append_right hge] at hk
      obtain ⟨o, ho, hd⟩ := ih' hk
      exact ⟨o, ho.append_right.mono (by omega), hd⟩
  | mono _ _ ih => exact ih hk
  | perm _ _ ih => exact ih hk
  | mention _ _ => simp at hk
  | creation _ _ _ _ _ _ _ => simp at hk
  | @declare owner S T base e more ds ms hd _ _ ih =>
    rcases Nat.lt_or_ge k (e :: more).length with hlt | hge
    · rw [List.getElem?_append_left hlt] at hk
      exact ⟨owner, .inl rfl, (hd d (List.mem_of_getElem? hk)).1⟩
    · rw [List.getElem?_append_right hge] at hk
      obtain ⟨o, ho, hd⟩ := ih hk
      exact ⟨o, ho.declare.mono (by omega), hd⟩

lemma mention_owned (h : Block tidy strict ref unit owner S base ds ms) {m : Mention}
    (hm : m ∈ ms) :
    ∃ o, OwnerBefore owner base ds ds.length o ∧ MentionedIn tidy strict o m := by
  induction h with
  | nil => simp at hm
  | @append owner S T base ds ds' ms ms' _ _ _ ih ih' =>
    rcases List.mem_append.mp hm with hm | hm
    · obtain ⟨o, ho, h⟩ := ih hm
      exact ⟨o, ho.append_left.mono (by simp), h⟩
    · obtain ⟨o, ho, h⟩ := ih' hm
      exact ⟨o, ho.append_right.mono (by simp), h⟩
  | mono _ _ ih => exact ih hm
  | perm hp _ ih => exact ih (hp.mem_iff.mpr hm)
  | mention h _ =>
    obtain rfl := List.mem_singleton.mp hm
    exact ⟨_, .inl rfl, h⟩
  | creation h h' _ _ _ _ _ =>
    obtain rfl | rfl : m = _ ∨ m = _ := by simpa using hm
    · exact ⟨_, .inl rfl, h⟩
    · exact ⟨_, .inl rfl, h'⟩
  | @declare owner S T base e more ds ms hd _ _ ih =>
    obtain ⟨o, ho, h⟩ := ih hm
    exact ⟨o, ho.declare.mono (List.length_append ▸ Nat.le_refl _), h⟩

lemma declaration_within (h : Block tidy strict ref unit owner S base ds ms) (hs : strict) :
    ∀ d ∈ ds, d.range ⊆ S := by
  induction h with
  | nil => simp
  | append _ _ _ ih ih' =>
    intro d hd
    rcases List.mem_append.mp hd with hd | hd
    · exact (ih d hd).trans Set.subset_union_left
    · exact (ih' d hd).trans Set.subset_union_right
  | mono hST _ ih => exact fun d hd => (ih d hd).trans (hST hs)
  | perm _ _ ih => exact ih
  | mention _ _ => simp
  | creation _ _ _ _ _ _ _ => simp
  | declare hd hT _ ih =>
    obtain ⟨-, -, hTd, hdS⟩ := hT hs
    intro d' hd'
    rcases List.mem_append.mp hd' with hd' | hd'
    · rw [(hd d' hd').2]
      exact hdS
    · exact (ih d' hd').trans (hTd.trans hdS)

lemma mention_within (h : Block tidy strict ref unit owner S base ds ms) (hs : strict) :
    ∀ m ∈ ms, m.bytes ⊆ S := by
  induction h with
  | nil => simp
  | append _ _ _ ih ih' =>
    intro m hm
    rcases List.mem_append.mp hm with hm | hm
    · exact (ih m hm).trans Set.subset_union_left
    · exact (ih' m hm).trans Set.subset_union_right
  | mono hST _ ih => exact fun m hm => (ih m hm).trans (hST hs)
  | perm hp _ ih => exact fun m hm => ih m (hp.mem_iff.mpr hm)
  | mention _ hS =>
    intro m hm
    obtain rfl := List.mem_singleton.mp hm
    exact hS hs
  | creation _ _ ho hl _ _ hS =>
    intro m hm
    obtain rfl | rfl : m = _ ∨ m = _ := by simpa using hm
    · exact hS hs
    · rw [Mention.bytes, ← ho, ← hl]
      exact hS hs
  | declare _ hT _ ih =>
    obtain ⟨-, -, hTd, hdS⟩ := hT hs
    exact fun m hm => (ih m hm).trans (hTd.trans hdS)

lemma nameBytes_subset_range (h : Block tidy strict ref unit owner S base ds ms) (ht : tidy) :
    ∀ d ∈ ds, d.nameBytes ⊆ d.range := by
  intro d hd
  obtain ⟨k, hk⟩ := List.mem_iff_getElem?.mp hd
  obtain ⟨o, -, hin⟩ := h.declaration_owned hk
  exact Set.Ico_subset_Ico (hin.name_within ht).1 (hin.name_within ht).2

lemma nameBytes_within (h : Block tidy strict ref unit owner S base ds ms) (ht : tidy)
    (hs : strict) : ∀ d ∈ ds, d.nameBytes ⊆ S := fun d hd =>
  (h.nameBytes_subset_range ht d hd).trans (h.declaration_within hs d hd)

lemma names_apart (h : Block tidy strict ref unit owner S base ds ms) (ht : tidy) (hs : strict) :
    ds.Pairwise fun a b => Disjoint a.nameBytes b.nameBytes := by
  induction h with
  | nil => exact .nil
  | append h h' hST ih ih' =>
    refine List.pairwise_append.mpr ⟨ih, ih', fun a ha b hb => ?_⟩
    exact (hST hs).mono (h.nameBytes_within ht hs a ha) (h'.nameBytes_within ht hs b hb)
  | mono _ _ ih => exact ih
  | perm _ _ ih => exact ih
  | mention _ _ => exact .nil
  | creation _ _ _ _ _ _ _ => exact .nil
  | declare _ hT h ih =>
    obtain ⟨hpw, hdis, -, -⟩ := hT hs
    refine List.pairwise_append.mpr ⟨hpw, ih, fun a ha b hb => ?_⟩
    exact (hdis a ha).mono_right (h.nameBytes_within ht hs b hb)

lemma name_mention_apart (h : Block tidy strict ref unit owner S base ds ms) (ht : tidy)
    (hs : strict) : ∀ d ∈ ds, ∀ m ∈ ms, Disjoint d.nameBytes m.bytes := by
  induction h with
  | nil => simp
  | append h h' hST ih ih' =>
    intro d hd m hm
    rcases List.mem_append.mp hd with hd | hd <;> rcases List.mem_append.mp hm with hm | hm
    · exact ih d hd m hm
    · exact (hST hs).mono (h.nameBytes_within ht hs d hd) (h'.mention_within hs m hm)
    · exact ((hST hs).mono (h.mention_within hs m hm) (h'.nameBytes_within ht hs d hd)).symm
    · exact ih' d hd m hm
  | mono _ _ ih => exact ih
  | perm hp _ ih => exact fun d hd m hm => ih d hd m (hp.mem_iff.mpr hm)
  | mention _ _ => simp
  | creation _ _ _ _ _ _ _ => simp
  | declare _ hT h ih =>
    obtain ⟨-, hdis, -, -⟩ := hT hs
    intro d hd m hm
    rcases List.mem_append.mp hd with hd | hd
    · exact (hdis d hd).mono_right (h.mention_within hs m hm)
    · exact ih d hd m hm

lemma mention_index (h : Block tidy strict ref unit owner S base ds ms) {m : Mention}
    (hm : m ∈ ms) : m.enclosing = owner.map (·.index) ∨
      ∃ k < ds.length, m.enclosing = some (base + k) := by
  obtain ⟨o, ho, hin⟩ := h.mention_owned hm
  rw [hin.enclosing_eq]
  rcases ho with rfl | ⟨k, _, hk, _, rfl⟩
  · exact .inl rfl
  · exact .inr ⟨k, hk, rfl⟩

/-- What the owner of a block mentions itself stands in none of the declarations of the block. -/
lemma mention_outside (h : Block tidy strict ref unit owner S base ds ms) (hs : strict)
    (hb : ∀ o ∈ owner, o.index < base) {m : Mention} (hm : m ∈ ms)
    (he : m.enclosing = owner.map (·.index)) : ∀ d ∈ ds, Disjoint m.bytes d.range := by
  induction h with
  | nil => simp
  | @append owner S T base ds ds' ms ms' h h' hST ih ih' =>
    have hb' : ∀ o ∈ owner, o.index < base + ds.length := fun o ho =>
      (hb o ho).trans_le (Nat.le_add_right _ _)
    intro d hd
    rcases List.mem_append.mp hd with hd | hd <;> rcases List.mem_append.mp hm with hm | hm
    · exact ih hb hm he d hd
    · exact ((hST hs).mono (h.declaration_within hs d hd) (h'.mention_within hs m hm)).symm
    · exact (hST hs).mono (h.mention_within hs m hm) (h'.declaration_within hs d hd)
    · exact ih' hb' hm he d hd
  | mono _ _ ih => exact ih hb hm he
  | perm hp _ ih => exact ih hb (hp.mem_iff.mpr hm) he
  | mention _ _ => simp
  | creation _ _ _ _ _ _ _ => simp
  | @declare owner S T base d more ds ms _ _ h _ =>
    -- what stands in a declaration is owned by it or by one inside it
    have hlt (i : Nat) (hi : m.enclosing = some i) : i < base := by
      obtain ⟨o, ho, rfl⟩ := Option.map_eq_some_iff.mp (he.symm.trans hi)
      exact hb o ho
    rcases h.mention_index hm with hi | ⟨k, -, hi⟩
    · exact absurd (hlt _ hi) (Nat.lt_irrefl base)
    · have hk := hlt _ hi
      omega

/-- Two mentions stand apart, unless they are the two of one created object. -/
lemma mentions_apart (h : Block tidy strict ref unit owner S base ds ms) (hs : strict) :
    ms.Pairwise fun a b => Disjoint a.bytes b.bytes ∨ Creation a b ∨ Creation b a := by
  induction h with
  | nil => exact .nil
  | append h h' hST ih ih' =>
    refine List.pairwise_append.mpr ⟨ih, ih', fun a ha b hb => .inl ?_⟩
    exact (hST hs).mono (h.mention_within hs a ha) (h'.mention_within hs b hb)
  | mono _ _ ih => exact ih
  | perm hp _ ih =>
    refine hp.pairwise ih fun {a b} hab => ?_
    exact hab.imp (fun hd => hd.symm) Or.symm
  | mention _ _ => exact List.pairwise_singleton _ _
  | creation _ _ ho hl hc ht _ => exact List.pairwise_pair.mpr (.inr (.inl ⟨ho, hl, hc, ht⟩))
  | declare _ _ _ ih => exact ih

end Block

/-- A chain of types, outermost first, each declared before a position and named after the one
around it. -/
structure Nested (ds : List Declaration) (k : Nat) (chain : List String) : Prop where
  declared : ∀ t ∈ chain, ∃ j e, j < k ∧ ds[j]? = some e ∧ e.element.kind.isType = true ∧ e.id = t
  linked : chain.IsChain fun outer t => ∃ name, t = outer ++ "." ++ name

namespace Nested

variable {chain : List String} {k k' : Nat}

lemma nil (ds : List Declaration) (k : Nat) : Nested ds k [] := ⟨by simp, .nil⟩

lemma mono (h : Nested ds k chain) (hk : k ≤ k') : Nested ds k' chain where
  declared t ht := by
    obtain ⟨j, e, hj, he⟩ := h.declared t ht
    exact ⟨j, e, hj.trans_le hk, he⟩
  linked := h.linked

lemma inner (h : Nested ds k d.chain) (hk : ds[k]? = some d) (hd : DeclaredIn tidy ref unit o d) :
    Nested ds (k + 1) d.inner := by
  rw [Declaration.inner]
  split
  · next ht =>
    refine ⟨fun t hm => ?_, List.isChain_append.mpr ⟨h.linked, .singleton _, ?_⟩⟩
    · rcases List.mem_append.mp hm with hm | hm
      · exact (h.mono k.le_succ).declared t hm
      · exact ⟨k, d, k.lt_succ_self, hk, ht, (List.mem_singleton.mp hm).symm⟩
    · rintro outer ho t hm
      obtain rfl : d.id = t := by simpa using hm
      exact ⟨_, hd.id_eq ht outer ho⟩
  · exact h.mono k.le_succ

lemma innerChain (ho : OwnerBefore none 0 ds k o)
    (ih : ∀ j < k, ∀ e, ds[j]? = some e → Nested ds (j + 1) e.inner) :
    Nested ds k (innerChain o) := by
  rcases ho with rfl | ⟨j, e, hj, he, rfl⟩
  · exact nil ds k
  · exact (ih j hj e he).mono hj

end Nested

namespace Block

variable {d : Declaration} {k : Nat}

lemma inner_nested (h : Block tidy strict ref unit none S 0 ds ms) (hk : ds[k]? = some d) :
    Nested ds k d.chain ∧ Nested ds (k + 1) d.inner := by
  induction k using Nat.strong_induction_on generalizing d with
  | _ k ih =>
    obtain ⟨o, ho, hd⟩ := h.declaration_owned hk
    have hn : Nested ds k d.chain := by
      rw [hd.chain_eq]
      exact .innerChain ho fun j hj e he => (ih j hj he).2
    exact ⟨hn, hn.inner hk hd⟩

lemma mention_nested (h : Block tidy strict ref unit none S 0 ds ms) {m : Mention} (hm : m ∈ ms) :
    Nested ds ds.length m.chain := by
  obtain ⟨o, ho, hin⟩ := h.mention_owned hm
  rw [hin.chain_eq]
  exact .innerChain ho fun j _ e he => (h.inner_nested he).2

end Block

end JavaAtlas.Outline
