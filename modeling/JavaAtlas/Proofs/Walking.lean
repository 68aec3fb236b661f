import JavaAtlas.Proofs.Gathering

/-! The walk gathers blocks: what visiting a node adds to the outline lies in that node and is owned
by the declaration around it, whatever the node is. -/

namespace JavaAtlas.Outline

open Syntax Text

/-- A visitor gathers a block in every node that it is sent to. -/
def Sound (go : Visitor) : Prop :=
  ∀ {tidy strict : Prop} {p : Place} {n : Node} {owner : Option Placed} (g : Gathered),
    Fits tidy strict n → Stands tidy p owner n → Gathers tidy strict p owner n.bytes g (go p n g)

variable {tidy strict : Prop} {p : Place} {owner : Option Placed} {S T : Set Nat}
variable {g g' : Gathered} {n c : Node}

def slotBytes (n : Node) (s : Slot) : Set Nat := {i | ∃ c, n.child? s = some c ∧ i ∈ c.bytes}

lemma slotBytes_of_some {s : Slot} (h : n.child? s = some c) : slotBytes n s = c.bytes := by
  ext i
  simp [slotBytes, h]

lemma slotBytes_subset (hf : Fits tidy strict n) (s : Slot) (hs : strict) :
    slotBytes n s ⊆ n.bytes := by
  rintro i ⟨c, hc, hi⟩
  exact hf.bytes_subset (Node.mem_children_of_child? hc) hs hi

lemma disjoint_slotBytes (hf : Fits tidy strict n) (hs : strict) {s t : Slot} (hst : s ≠ t) :
    Disjoint (slotBytes n s) (slotBytes n t) := by
  rw [Set.disjoint_left]
  rintro i ⟨a, ha, hi⟩ ⟨b, hb, hi'⟩
  have hd := hf.disjoint hs (Node.mem_children_of_child? ha) (Node.mem_children_of_child? hb)
    (Node.ne_of_child? ha hb hst)
  exact Set.disjoint_left.mp hd hi hi'

lemma pairwise_regions (hf : Fits tidy strict n) {cs : List Node} (hcs : cs.Sublist n.children)
    {R : Node → Set Nat} (hR : ∀ c, R c ⊆ c.bytes) (hs : strict) :
    cs.Pairwise fun a b => Disjoint (R a) (R b) :=
  ((hf.grammatical hs).wellFormed.pairwise_disjoint.sublist hcs).imp
    fun h => h.mono (hR _) (hR _)

lemma named_sublist (n : Node) : n.named.Sublist n.children := List.filter_sublist

lemma filter_named_sublist (test : Node → Bool) (n : Node) :
    (n.named.filter test).Sublist n.children := List.filter_sublist.trans (named_sublist n)

lemma regions_bytes_subset (hf : Fits tidy strict n) {cs : List Node}
    (hcs : cs.Sublist n.children) (hs : strict) : regions Node.bytes cs ⊆ n.bytes :=
  regions_subset fun _ hc => hf.bytes_subset (hcs.subset hc) hs

section Visitors

variable {go : Visitor} (hgo : Sound go)
include hgo

lemma visitAll_gathers (hf : Fits tidy strict n) (hp : Stands tidy p owner n) {cs : List Node}
    (hcs : cs.Sublist n.children) :
    Gathers tidy strict p owner (regions Node.bytes cs) g (visitAll go (p.inside n) cs g) := by
  refine foldl_gathers id (fun c hc s => ?_) (pairwise_regions hf hcs fun _ => subset_rfl) g
  exact hgo s (hf.child (hcs.subset hc)) (hp.child hf (hcs.subset hc))

lemma visitChildren_gathers (hf : Fits tidy strict n) (hp : Stands tidy p owner n) :
    Gathers tidy strict p owner n.bytes g (visitChildren go p n g) :=
  (visitAll_gathers hgo hf hp (named_sublist n)).mono (regions_bytes_subset hf (named_sublist n))

lemma visitSlot_gathers (hf : Fits tidy strict n) (hp : Stands tidy p owner n) (s : Slot) :
    Gathers tidy strict p owner (slotBytes n s) g (visitSlot go s p n g) := by
  rw [visitSlot]
  split
  · next c hc =>
    rw [slotBytes_of_some hc]
    have hm := Node.mem_children_of_child? hc
    exact hgo g (hf.child hm) (hp.child hf hm)
  · exact .refl

lemma visitExcept_gathers (hf : Fits tidy strict n) (hp : Stands tidy p owner n) (kind : Kind) :
    Gathers tidy strict p owner (regions Node.bytes (n.named.filter (·.kind != kind))) g
      (visitExcept go kind p n g) :=
  visitAll_gathers hgo hf hp (filter_named_sublist _ n)

lemma visitAnonymousBody_gathers (hf : Fits tidy strict n) (hp : Stands tidy p owner n) :
    Gathers tidy strict p owner n.bytes g (visitAnonymousBody go p n g) :=
  Gathers.inScope fun g => visitChildren_gathers (p := { p with anonymous := p.anonymous + 1 })
    (g := g) hgo hf ⟨hp.owner_eq, hp.chain_eq, hp.covers⟩

end Visitors

lemma visitPackage_gathers : Gathers tidy strict p owner S g (visitPackage p n g) := by
  rw [visitPackage]
  split
  · exact .of_eq rfl rfl
  · exact .refl

lemma visitImport_gathers : Gathers tidy strict p owner S g (visitImport p n g) := by
  rw [visitImport]
  split
  · exact .refl
  · exact .of_eq rfl rfl

structure DeclaredAt (p : Place) (n nameNode : Node) (id : String) (kind : ElementKind)
    (d : Declaration) : Prop where
  element_eq : d.element = (declarationAt p n nameNode id kind).element
  start_eq : d.start = n.start
  stop_eq : d.stop = n.stop
  chain_eq : d.chain = p.chain
  unit_eq : d.unit = p.unitIndex

lemma chain_ne_nil_of_typeId? {id : String} (h : p.typeId? = some id) : p.chain ≠ [] := by
  intro hnil
  rw [Place.typeId?, hnil] at h
  exact nomatch h

namespace DeclaredAt

variable {nameNode : Node} {id : String} {kind : ElementKind} {d : Declaration}

lemma range_eq (h : DeclaredAt p n nameNode id kind d) : d.range = n.bytes := by
  rw [Declaration.range, Node.bytes, h.start_eq, h.stop_eq]

lemma nameStart_eq (h : DeclaredAt p n nameNode id kind d) : d.nameStart = nameNode.start := by
  rw [Declaration.nameStart, h.element_eq]
  rfl

lemma nameBytes_subset (h : DeclaredAt p n nameNode id kind d) : d.nameBytes ⊆ nameNode.bytes := by
  rintro i ⟨hi, hi'⟩
  have hl : d.element.nameLength = nameNode.stop - nameNode.start := by rw [h.element_eq]; rfl
  rw [h.nameStart_eq] at hi hi'
  exact ⟨hi, by omega⟩

lemma declaredIn (h : DeclaredAt p n nameNode id kind d) (hp : Stands tidy p owner n)
    (hn : tidy → nameNode.Within n)
    (hid : kind.isType = true → ∀ outer, p.typeId? = some outer →
      id = outer ++ "." ++ p.text nameNode)
    (hne : kind.isType = false → p.chain ≠ []) :
    DeclaredIn tidy p.unit p.unitIndex owner d where
  unit_eq := h.unit_eq
  ref_eq := by rw [h.element_eq]; rfl
  chain_eq := h.chain_eq.trans hp.chain_eq
  declaringType_eq := by rw [h.element_eq, h.chain_eq]; rfl
  id_eq ht outer ho := by
    rw [Declaration.id]
    rw [h.element_eq] at ht ⊢
    rw [h.chain_eq] at ho
    exact hid ht outer ho
  chain_ne ht := by
    rw [h.element_eq] at ht
    rw [h.chain_eq]
    exact hne ht
  nameOffset_eq := by rw [h.nameStart_eq, h.element_eq]; rfl
  name_within ht := by
    obtain ⟨h₁, h₂, h₃⟩ := hn ht
    have hl : d.element.nameLength = nameNode.stop - nameNode.start := by rw [h.element_eq]; rfl
    rw [h.nameStart_eq, h.start_eq, h.stop_eq, hl]
    omega
  within ht o ho := by
    rw [h.start_eq, h.stop_eq]
    exact hp.covers ht o ho

lemma stands (h : DeclaredAt p n nameNode id kind d) {q : Place} {index : Nat}
    (ho : q.owner = some index) (hc : q.chain = d.inner) :
    Stands tidy q (some ⟨index, d⟩) n where
  owner_eq := ho
  chain_eq := hc
  covers _ o hm := by
    obtain rfl := Option.some.inj hm
    rw [h.start_eq, h.stop_eq]
    exact ⟨Nat.le_refl _, Nat.le_refl _⟩

lemma inner_eq (h : DeclaredAt p n nameNode id kind d) :
    d.inner = if kind.isType then p.chain ++ [id] else p.chain := by
  rw [Declaration.inner, Declaration.id, h.element_eq, h.chain_eq]
  rfl

lemma gathers (h : DeclaredAt p n nameNode id kind d) (hf : Fits tidy strict n)
    (hp : Stands tidy p owner n) (hm : nameNode ∈ n.children)
    (hid : kind.isType = true → ∀ outer, p.typeId? = some outer →
      id = outer ++ "." ++ p.text nameNode)
    (hne : kind.isType = false → p.chain ≠ [])
    (hT : strict → Disjoint nameNode.bytes T ∧ T ⊆ n.bytes)
    (hg : Gathers tidy strict p (some ⟨g.declarations.size, d⟩) T (g.declare d) g') :
    Gathers tidy strict p owner n.bytes g g' := by
  refine Gathers.declare (h.declaredIn hp (hf.within hm) hid hne) (fun hs => ?_) hg
  rw [h.range_eq]
  exact ⟨(hT hs).1.mono_left h.nameBytes_subset, (hT hs).2, subset_rfl⟩

end DeclaredAt

def beyondNames (c : Node) : Set Nat := if c.kind = .identifier then ∅ else c.bytes

lemma beyondNames_eq (h : c.kind ≠ .identifier) : beyondNames c = c.bytes := if_neg h

lemma beyondNames_subset (c : Node) : beyondNames c ⊆ c.bytes := by
  rw [beyondNames]
  split
  · exact Set.empty_subset _
  · exact subset_rfl

lemma disjoint_beyondNames (hf : Fits tidy strict n) (hs : strict) (hc : c ∈ n.children)
    (hk : c.kind = .identifier) : Disjoint c.bytes (regions beyondNames n.named) := by
  refine disjoint_regions fun b hb => ?_
  rw [beyondNames]
  split
  · exact Set.disjoint_empty _
  · next hk' =>
    have hne : c ≠ b := fun h => hk' (h ▸ hk)
    exact hf.disjoint hs hc (Node.mem_children_of_mem_named hb) hne

lemma beyondNames_within (hf : Fits tidy strict n) (hs : strict) :
    regions beyondNames n.named ⊆ n.bytes := regions_subset fun c hc =>
  (beyondNames_subset c).trans (hf.bytes_subset (Node.mem_children_of_mem_named hc) hs)

lemma regions_filter_identifier (n : Node) :
    regions Node.bytes (n.named.filter (·.kind != .identifier)) ⊆ regions beyondNames n.named := by
  rintro i ⟨c, hc, hi⟩
  obtain ⟨hm, hk⟩ := List.mem_filter.mp hc
  refine ⟨c, hm, ?_⟩
  rw [beyondNames_eq (by simpa using hk)]
  exact hi

end JavaAtlas.Outline
