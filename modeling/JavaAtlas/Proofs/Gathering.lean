import JavaAtlas.Proofs.TreeShape

/-! What the walk over a tree gathers, as blocks inside blocks: a declaration opens a block for all
that is found in its node, and blocks of different nodes follow one another. Every fact about where
declarations and mentions stand is then an induction over blocks. -/

namespace JavaAtlas.Outline

open Syntax

namespace Declaration

def range (d : Declaration) : Set Nat := Set.Ico d.start d.stop

def nameStart (d : Declaration) : Nat := d.element.nameOffset.getD d.start

def nameBytes (d : Declaration) : Set Nat :=
  Set.Ico d.nameStart (d.nameStart + d.element.nameLength)

def inner (d : Declaration) : List String :=
  if d.element.kind.isType then d.chain ++ [d.id] else d.chain

end Declaration

def Mention.bytes (m : Mention) : Set Nat := Set.Ico m.offset (m.offset + m.length)

structure Placed where
  index : Nat
  declaration : Declaration

def innerChain : Option Placed → List String
  | none => []
  | some o => o.declaration.inner

/-- A declaration directly inside its owner. Ranges are compared only when the tree is `tidy`. -/
structure DeclaredIn (tidy : Prop) (ref : UnitRef) (unit : Nat) (owner : Option Placed)
    (d : Declaration) : Prop where
  unit_eq : d.unit = unit
  ref_eq : d.element.unit = some ref
  chain_eq : d.chain = innerChain owner
  declaringType_eq : d.element.declaringType = d.chain.getLast?
  id_eq : d.element.kind.isType = true → ∀ outer, d.chain.getLast? = some outer →
    d.id = outer ++ "." ++ d.element.name
  chain_ne : d.element.kind.isType = false → d.chain ≠ []
  nameOffset_eq : d.element.nameOffset = some d.nameStart
  name_within : tidy → d.start ≤ d.nameStart ∧ d.nameStart + d.element.nameLength ≤ d.stop
  within : tidy → ∀ o ∈ owner, o.declaration.start ≤ d.start ∧ d.stop ≤ o.declaration.stop

structure MentionedIn (tidy strict : Prop) (owner : Option Placed) (m : Mention) : Prop where
  enclosing_eq : m.enclosing = owner.map (·.index)
  chain_eq : m.chain = innerChain owner
  role_ne : m.role ≠ .declaration
  nonempty : strict → 0 < m.length
  within : tidy → ∀ o ∈ owner,
    o.declaration.start ≤ m.offset ∧ m.offset + m.length ≤ o.declaration.stop

/-- What is found inside an owner, in the bytes of a region: declarations, the first of which has
position `base` in the file, and mentions. Regions are kept apart only when `strict` holds. The
mention of a created object's type shares its place with that of the constructor. One node may
declare several names; the first of them owns what else stands in the node. -/
inductive Block (tidy strict : Prop) (ref : UnitRef) (unit : Nat) :
    Option Placed → Set Nat → Nat → List Declaration → List Mention → Prop
  | nil {owner S base} : Block tidy strict ref unit owner S base [] []
  | append {owner S T base ds ds' ms ms'} :
      Block tidy strict ref unit owner S base ds ms →
      Block tidy strict ref unit owner T (base + ds.length) ds' ms' →
      (strict → Disjoint S T) →
      Block tidy strict ref unit owner (S ∪ T) base (ds ++ ds') (ms ++ ms')
  | mono {owner S T base ds ms} : (strict → S ⊆ T) →
      Block tidy strict ref unit owner S base ds ms → Block tidy strict ref unit owner T base ds ms
  | perm {owner S base ds ms ms'} : ms.Perm ms' →
      Block tidy strict ref unit owner S base ds ms → Block tidy strict ref unit owner S base ds ms'
  | mention {owner S base m} : MentionedIn tidy strict owner m → (strict → m.bytes ⊆ S) →
      Block tidy strict ref unit owner S base [] [m]
  | creation {owner S base m type} :
      MentionedIn tidy strict owner m → MentionedIn tidy strict owner type →
      m.offset = type.offset → m.length = type.length →
      (∃ name arity, m.target = .constructor name arity) → (∃ name, type.target = .type name) →
      (strict → m.bytes ⊆ S) → Block tidy strict ref unit owner S base [] [m, type]
  | declare {owner S T base d more ds ms} :
      (∀ e ∈ d :: more, DeclaredIn tidy ref unit owner e ∧ e.range = d.range) →
      (strict → (d :: more).Pairwise (fun a b => Disjoint a.nameBytes b.nameBytes) ∧
        (∀ e ∈ d :: more, Disjoint e.nameBytes T) ∧ T ⊆ d.range ∧ d.range ⊆ S) →
      Block tidy strict ref unit (some ⟨base, d⟩) T (base + (d :: more).length) ds ms →
      Block tidy strict ref unit owner S base (d :: more ++ ds) ms

/-- Between the two states of the walk a block was gathered. -/
def Gathers (tidy strict : Prop) (p : Place) (owner : Option Placed) (S : Set Nat)
    (g g' : Gathered) : Prop :=
  ∃ ds ms, g'.declarations.toList = g.declarations.toList ++ ds ∧
    g'.mentions.toList = g.mentions.toList ++ ms ∧
    Block tidy strict p.unit p.unitIndex owner S g.declarations.size ds ms

/-- The walk stands inside the owner and is about to visit the node. -/
structure Stands (tidy : Prop) (p : Place) (owner : Option Placed) (n : Node) : Prop where
  owner_eq : p.owner = owner.map (·.index)
  chain_eq : p.chain = innerChain owner
  covers : tidy → ∀ o ∈ owner, o.declaration.start ≤ n.start ∧ n.stop ≤ o.declaration.stop

structure Fits (tidy strict : Prop) (n : Node) : Prop where
  wellFormed : tidy → n.WellFormed
  grammatical : strict → n.Grammatical

variable {tidy strict : Prop} {p : Place} {owner : Option Placed} {S T : Set Nat}
variable {g g' g'' : Gathered} {n c : Node}

namespace Fits

lemma of_grammatical (h : n.Grammatical) : Fits True True n := ⟨fun _ => h.wellFormed, fun _ => h⟩

lemma child (h : Fits tidy strict n) (hc : c ∈ n.children) : Fits tidy strict c :=
  ⟨fun ht => (h.wellFormed ht).child hc, fun hs => (h.grammatical hs).child hc⟩

lemma within (h : Fits tidy strict n) (hc : c ∈ n.children) (ht : tidy) : c.Within n :=
  (h.wellFormed ht).within hc

lemma bytes_subset (h : Fits tidy strict n) (hc : c ∈ n.children) (hs : strict) :
    c.bytes ⊆ n.bytes := ((h.grammatical hs).wellFormed.within hc).bytes_subset

lemma disjoint (h : Fits tidy strict n) (hs : strict) {a b : Node} (ha : a ∈ n.children)
    (hb : b ∈ n.children) (hne : a ≠ b) : Disjoint a.bytes b.bytes :=
  (h.grammatical hs).wellFormed.disjoint ha hb hne

end Fits

structure Anchor (tidy strict : Prop) (a n : Node) : Prop where
  within : tidy → a.Within n
  bytes_subset : strict → a.bytes ⊆ n.bytes
  nonempty : strict → a.start < a.stop

namespace Anchor

lemma child (hf : Fits tidy strict n) (hc : c ∈ n.children) : Anchor tidy strict c n :=
  ⟨hf.within hc, hf.bytes_subset hc, fun hs => (hf.grammatical hs).nonempty_child hc⟩

lemma ascend {a : Node} (h : Anchor tidy strict a c) (hf : Fits tidy strict n)
    (hc : c ∈ n.children) : Anchor tidy strict a n where
  within ht := (h.within ht).trans (hf.within hc ht)
  bytes_subset hs := (h.bytes_subset hs).trans (hf.bytes_subset hc hs)
  nonempty := h.nonempty

lemma self (hf : Fits tidy strict n) (hn : strict → n.start < n.stop) : Anchor tidy strict n n :=
  ⟨fun ht => (hf.wellFormed ht).refl, fun _ => subset_rfl, hn⟩

lemma anchorOf (hf : Fits tidy strict n) (hn : strict → n.start < n.stop) :
    Anchor tidy strict (anchorOf n) n where
  within ht := anchorOf_within (hf.wellFormed ht)
  bytes_subset hs := (anchorOf_within (hf.grammatical hs).wellFormed).bytes_subset
  nonempty hs := anchorOf_nonempty (hf.grammatical hs) (hn hs)

end Anchor

namespace Stands

lemma descend (h : Stands tidy p owner n) (hc : tidy → c.Within n) : Stands tidy p owner c where
  owner_eq := h.owner_eq
  chain_eq := h.chain_eq
  covers ht o ho :=
    ⟨(h.covers ht o ho).1.trans (hc ht).1, (hc ht).2.2.trans (h.covers ht o ho).2⟩

lemma inside (h : Stands tidy p owner c) (n : Node) : Stands tidy (p.inside n) owner c :=
  ⟨h.owner_eq, h.chain_eq, h.covers⟩

lemma child (h : Stands tidy p owner n) (hf : Fits tidy strict n) (hc : c ∈ n.children) :
    Stands tidy (p.inside n) owner c := (h.descend (hf.within hc)).inside n

end Stands

lemma declarations_size_eq {ds : List Declaration}
    (h : g'.declarations.toList = g.declarations.toList ++ ds) :
    g'.declarations.size = g.declarations.size + ds.length := by
  have hh := congrArg List.length h
  simpa using hh

namespace Gathers

lemma of_eq (hd : g'.declarations = g.declarations) (hm : g'.mentions = g.mentions) :
    Gathers tidy strict p owner S g g' := ⟨[], [], by simp [hd], by simp [hm], .nil⟩

lemma refl : Gathers tidy strict p owner S g g := of_eq rfl rfl

lemma mono (h : Gathers tidy strict p owner S g g') (hS : strict → S ⊆ T) :
    Gathers tidy strict p owner T g g' := by
  obtain ⟨ds, ms, hd, hm, hb⟩ := h
  exact ⟨ds, ms, hd, hm, hb.mono hS⟩

lemma trans (h : Gathers tidy strict p owner S g g') (h' : Gathers tidy strict p owner T g' g'')
    (hST : strict → Disjoint S T) : Gathers tidy strict p owner (S ∪ T) g g'' := by
  obtain ⟨ds, ms, hd, hm, hb⟩ := h
  obtain ⟨ds', ms', hd', hm', hb'⟩ := h'
  rw [declarations_size_eq hd] at hb'
  exact ⟨ds ++ ds', ms ++ ms', by rw [hd', hd, List.append_assoc], by
    rw [hm', hm, List.append_assoc], hb.append hb' hST⟩

lemma inScope {walk : Gathered → Gathered} (h : ∀ g, Gathers tidy strict p owner S g (walk g)) :
    Gathers tidy strict p owner S g (g.inScope walk) := by
  obtain ⟨ds, ms, hd, hm, hb⟩ := h { g with scopes := [] :: g.scopes }
  exact ⟨ds, ms, hd, hm, hb⟩

lemma bind (h : Gathers tidy strict p owner S g g') (name : String) (l : Local) :
    Gathers tidy strict p owner S g (g'.bind name l) := by
  obtain ⟨ds, ms, hd, hm, hb⟩ := h
  rw [Gathered.bind]
  split
  · exact ⟨ds, ms, hd, hm, hb⟩
  · exact ⟨ds, ms, hd, hm, hb⟩

end Gathers

def mentionAt (p : Place) (a : Node) (role : Role) (target : Target) : Mention :=
  ⟨a.start, a.length, role, target, p.owner, p.chain⟩

lemma record_mentions (g : Gathered) (p : Place) (a : Node) (role : Role) (target : Target) :
    (g.record p a role target).mentions.toList =
      g.mentions.toList ++ [mentionAt p a role target] := Array.toList_push

lemma mentionAt_bytes_subset (p : Place) (a : Node) (role : Role) (target : Target) :
    (mentionAt p a role target).bytes ⊆ a.bytes := by
  rintro i ⟨hi, hi'⟩
  simp only [mentionAt, Node.length] at hi hi'
  exact ⟨hi, by omega⟩

lemma mentionAt_mentionedIn {a : Node} (hp : Stands tidy p owner n) (ha : Anchor tidy strict a n)
    {role : Role} (hr : role ≠ .declaration) (target : Target) :
    MentionedIn tidy strict owner (mentionAt p a role target) where
  enclosing_eq := hp.owner_eq
  chain_eq := hp.chain_eq
  role_ne := hr
  nonempty hs := Nat.sub_pos_of_lt (ha.nonempty hs)
  within ht o ho := by
    obtain ⟨h₁, h₂, h₃⟩ := ha.within ht
    obtain ⟨h₄, h₅⟩ := hp.covers ht o ho
    simp only [mentionAt, Node.length]
    omega

lemma Gathers.record {a : Node} (hp : Stands tidy p owner n) (ha : Anchor tidy strict a n)
    {role : Role} (hr : role ≠ .declaration) (target : Target) :
    Gathers tidy strict p owner a.bytes g (g.record p a role target) :=
  ⟨[], [_], by simp [Gathered.record], record_mentions g p a role target,
    .mention (mentionAt_mentionedIn hp ha hr target)
      fun _ => mentionAt_bytes_subset p a role target⟩

lemma Gathers.declareAll (g' : Gathered) (d : Declaration) (more : List Declaration)
    (hg : g'.declarations.toList = g.declarations.toList ++ d :: more)
    (hm : g'.mentions = g.mentions)
    (hd : ∀ e ∈ d :: more, DeclaredIn tidy p.unit p.unitIndex owner e ∧ e.range = d.range)
    (hT : strict → (d :: more).Pairwise (fun a b => Disjoint a.nameBytes b.nameBytes) ∧
      (∀ e ∈ d :: more, Disjoint e.nameBytes T) ∧ T ⊆ d.range ∧ d.range ⊆ S)
    (h : Gathers tidy strict p (some ⟨g.declarations.size, d⟩) T g' g'') :
    Gathers tidy strict p owner S g g'' := by
  obtain ⟨ds, ms, hds, hms, hb⟩ := h
  rw [declarations_size_eq hg] at hb
  exact ⟨d :: more ++ ds, ms, by rw [hds, hg, List.append_assoc], by rw [hms, hm],
    .declare hd hT hb⟩

lemma Gathers.declare {d : Declaration} (hd : DeclaredIn tidy p.unit p.unitIndex owner d)
    (hT : strict → Disjoint d.nameBytes T ∧ T ⊆ d.range ∧ d.range ⊆ S)
    (h : Gathers tidy strict p (some ⟨g.declarations.size, d⟩) T (g.declare d) g') :
    Gathers tidy strict p owner S g g' :=
  Gathers.declareAll (g.declare d) d [] (by simp [Gathered.declare]) rfl (by simpa using hd)
    (fun hs => by simpa using hT hs) h

def regions (R : Node → Set Nat) (cs : List Node) : Set Nat := {i | ∃ c ∈ cs, i ∈ R c}

lemma regions_subset {R : Node → Set Nat} {cs : List Node} (h : ∀ c ∈ cs, R c ⊆ S) :
    regions R cs ⊆ S := by
  rintro i ⟨c, hc, hi⟩
  exact h c hc hi

lemma disjoint_regions {R : Node → Set Nat} {cs : List Node} (h : ∀ c ∈ cs, Disjoint S (R c)) :
    Disjoint S (regions R cs) := by
  rw [Set.disjoint_left]
  rintro i hi ⟨c, hc, hi'⟩
  exact Set.disjoint_left.mp (h c hc) hi hi'

lemma foldl_gathers {σ : Type} (gathered : σ → Gathered) {step : σ → Node → σ}
    {R : Node → Set Nat} {cs : List Node}
    (hstep : ∀ c ∈ cs, ∀ s, Gathers tidy strict p owner (R c) (gathered s) (gathered (step s c)))
    (hR : strict → cs.Pairwise fun a b => Disjoint (R a) (R b)) (s : σ) :
    Gathers tidy strict p owner (regions R cs) (gathered s) (gathered (cs.foldl step s)) := by
  induction cs generalizing s with
  | nil => exact .refl
  | cons c cs ih =>
    have hc := hstep c List.mem_cons_self s
    have hcs := ih (fun b hb => hstep b (List.mem_cons_of_mem _ hb))
      (fun hs => (List.pairwise_cons.mp (hR hs)).2) (step s c)
    refine (hc.trans hcs fun hs => ?_).mono fun _ => ?_
    · exact disjoint_regions (List.pairwise_cons.mp (hR hs)).1
    · rintro i (hi | ⟨b, hb, hi⟩)
      · exact ⟨c, List.mem_cons_self, hi⟩
      · exact ⟨b, List.mem_cons_of_mem _ hb, hi⟩

end JavaAtlas.Outline
