import JavaAtlas.Proofs.Walking

/-! The nodes that mention something or bind a local name. Most of them visit some of their parts
one after the other, so what they gather lies in the bytes of those parts. -/

namespace JavaAtlas.Outline

open Syntax Text

variable {tidy strict : Prop} {p : Place} {owner : Option Placed} {S T : Set Nat}
variable {g g' : Gathered} {n c : Node}

def partsBytes (n : Node) (u : List Slot) : Set Nat := {i | ∃ s ∈ u, i ∈ slotBytes n s}

lemma partsBytes_subset (hf : Fits tidy strict n) (u : List Slot) (hs : strict) :
    partsBytes n u ⊆ n.bytes := by
  rintro i ⟨s, -, hi⟩
  exact slotBytes_subset hf s hs hi

lemma disjoint_partsBytes (hf : Fits tidy strict n) (hs : strict) {s : Slot} {u : List Slot}
    (h : s ∉ u) : Disjoint (partsBytes n u) (slotBytes n s) := by
  rw [Set.disjoint_left]
  rintro i ⟨t, ht, hi⟩ hi'
  have hne : t ≠ s := fun hts => h (hts ▸ ht)
  exact Set.disjoint_left.mp (disjoint_slotBytes hf hs hne) hi hi'

lemma Gathers.within_node (hf : Fits tidy strict n) {u : List Slot}
    (h : Gathers tidy strict p owner (partsBytes n u) g g') :
    Gathers tidy strict p owner n.bytes g g' := h.mono (partsBytes_subset hf u)

lemma Gathers.record_part {a : Node} {s : Slot} (hf : Fits tidy strict n)
    (hp : Stands tidy p owner n) (hc : n.child? s = some c) (ha : Anchor tidy strict a c)
    {role : Role} (hr : role ≠ .declaration) (target : Target) :
    Gathers tidy strict p owner (partsBytes n [s]) g (g.record p a role target) := by
  have hm := Node.mem_children_of_child? hc
  refine (Gathers.record hp (ha.ascend hf hm) hr target).mono fun hs i hi => ?_
  exact ⟨s, List.mem_singleton_self s, c, hc, ha.bytes_subset hs hi⟩

lemma child?_anchor {s : Slot} (hf : Fits tidy strict n) (hc : n.child? s = some c) :
    Anchor tidy strict c c := by
  have hm := Node.mem_children_of_child? hc
  exact .self (hf.child hm) fun hs => (hf.grammatical hs).nonempty_child hm

/-- What a type can be named for. -/
def typeRoles : List Role :=
  [.reference, .implementation, .instantiation, .cast, .instanceTest, .throwsClause, .catchClause,
   .typeArgument]

lemma typeRole_mem (n : Node) (trail : List Node) : typeRole n trail ∈ typeRoles := by
  induction trail generalizing n with
  | nil => exact List.mem_cons_self
  | cons parent trail ih =>
    rw [typeRole]
    split
    all_goals try decide
    all_goals try exact ih parent
    all_goals split
    all_goals try decide
    all_goals exact ih parent

lemma typeRole_ne_declaration (n : Node) (trail : List Node) :
    typeRole n trail ≠ .declaration :=
  ne_of_mem_of_not_mem (typeRole_mem n trail) (by decide)

/-- What a variable or field can be named for. -/
def accessRoles : List Role := [.read, .write, .readWrite]

lemma accessRole_mem (p : Place) (n : Node) : accessRole p n ∈ accessRoles := by
  rw [accessRole]
  split
  · decide
  · split
    · split
      · split
        · split <;> decide
        · decide
      · decide
    · decide
    · decide

lemma accessRole_ne_declaration (p : Place) (n : Node) : accessRole p n ≠ .declaration :=
  ne_of_mem_of_not_mem (accessRole_mem p n) (by decide)

lemma visitIdentifier_gathers (hk : n.kind = .identifier) (hf : Fits tidy strict n)
    (hp : Stands tidy p owner n) :
    Gathers tidy strict p owner n.bytes g (visitIdentifier p n g) := by
  rw [visitIdentifier]
  split
  · exact .refl
  · dsimp only
    split
    · exact .refl
    · refine .record hp (.self hf fun hs => ?_) (accessRole_ne_declaration p n) _
      have hsh := (hf.grammatical hs).shaped
      simp only [Node.shaped, hk, Bool.and_eq_true, decide_eq_true_eq] at hsh
      exact hsh.2

section

variable {go : Visitor} (hgo : Sound go)
include hgo

lemma visitSlot_after (hf : Fits tidy strict n) (hp : Stands tidy p owner n) {u : List Slot}
    {s : Slot} (h : Gathers tidy strict p owner (partsBytes n u) g g') (hs : s ∉ u) :
    Gathers tidy strict p owner (partsBytes n (s :: u)) g (visitSlot go s p n g') := by
  refine (h.trans (visitSlot_gathers hgo hf hp s) fun h => disjoint_partsBytes hf h hs).mono
    fun _ => ?_
  rintro i (⟨t, ht, hi⟩ | hi)
  · exact ⟨t, List.mem_cons_of_mem s ht, hi⟩
  · exact ⟨s, List.mem_cons_self, hi⟩

lemma visitSlot_part (hf : Fits tidy strict n) (hp : Stands tidy p owner n) (s : Slot) :
    Gathers tidy strict p owner (partsBytes n [s]) g (visitSlot go s p n g) :=
  visitSlot_after hgo hf hp .refl List.not_mem_nil

lemma visitPart_gathers (hf : Fits tidy strict n) (hp : Stands tidy p owner n) (s : Slot) :
    Gathers tidy strict p owner n.bytes g (visitSlot go s p n g) :=
  (visitSlot_gathers hgo hf hp s).mono (slotBytes_subset hf s)

lemma visitLocal_gathers (hf : Fits tidy strict n) (hp : Stands tidy p owner n) :
    Gathers tidy strict p owner n.bytes g (visitLocal go p n g) := by
  rw [visitLocal]
  refine (foldl_gathers (R := Node.bytes) Prod.fst (fun c hc s => ?_)
    (pairwise_regions hf (named_sublist n) fun _ => subset_rfl) _).mono
    (regions_bytes_subset hf (named_sublist n))
  have hm := Node.mem_children_of_mem_named hc
  dsimp only
  split
  · have hv : Gathers tidy strict p owner c.bytes s.1 (visitSlot go .value (p.inside n) c s.1) :=
      visitPart_gathers hgo (hf.child hm) (hp.child hf hm) .value
    split
    · exact hv.bind _ _
    · exact hv
  · exact hgo s.1 (hf.child hm) (hp.child hf hm)

lemma visitParameter_gathers (hf : Fits tidy strict n) (hp : Stands tidy p owner n) :
    Gathers tidy strict p owner n.bytes g (visitParameter go p n g) := by
  have hsub := filter_named_sublist
    (fun c => c.kind != .identifier && c.kind != .variableDeclarator) n
  have hv := (visitAll_gathers (g := g) hgo hf hp hsub).mono (regions_bytes_subset hf hsub)
  rw [visitParameter]
  split
  · exact hv.bind _ _
  · exact hv

lemma visitResource_gathers (hf : Fits tidy strict n) (hp : Stands tidy p owner n) :
    Gathers tidy strict p owner n.bytes g (visitResource go p n g) := by
  rw [visitResource]
  split
  · exact visitChildren_gathers hgo hf hp
  · have ht := visitSlot_part (g := g) hgo hf hp .type
    have hv := visitSlot_after (s := .value) hgo hf hp ht (by decide)
    exact (hv.within_node hf).bind _ _

lemma visitEnhancedFor_gathers (hf : Fits tidy strict n) (hp : Stands tidy p owner n) :
    Gathers tidy strict p owner n.bytes g (visitEnhancedFor go p n g) := by
  refine Gathers.inScope fun g => ?_
  have ht := visitSlot_part (g := g) hgo hf hp .type
  have hv := visitSlot_after (s := .value) hgo hf hp ht (by decide)
  dsimp only
  split
  · exact (visitSlot_after hgo hf hp (hv.bind _ _) (by decide)).within_node hf
  · exact (visitSlot_after hgo hf hp hv (by decide)).within_node hf

lemma visitInstanceTest_gathers (hf : Fits tidy strict n) (hp : Stands tidy p owner n) :
    Gathers tidy strict p owner n.bytes g (visitInstanceTest go p n g) := by
  have hl := visitSlot_part (g := g) hgo hf hp .left
  have hr := visitSlot_after (s := .right) hgo hf hp hl (by decide)
  have hq := visitSlot_after (s := .pattern) hgo hf hp hr (by decide)
  rw [visitInstanceTest]
  split
  · exact (hq.within_node hf).bind _ _
  · exact hq.within_node hf

lemma visitLambda_gathers (hf : Fits tidy strict n) (hp : Stands tidy p owner n) :
    Gathers tidy strict p owner n.bytes g (visitLambda go p n g) := by
  refine Gathers.inScope fun g => ?_
  dsimp only
  refine Gathers.within_node hf (visitSlot_after (u := [.parameters]) hgo hf hp ?_ (by decide))
  split
  · exact .refl
  · next parameters hpar =>
    split
    · exact Gathers.refl.bind _ _
    · exact (foldl_gathers (R := fun _ => ∅) (fun g => g)
        (fun c _ s => Gathers.refl.bind (p.text c) (.variable none))
        (fun _ => List.pairwise_of_forall fun _ _ => Set.empty_disjoint _) g).mono
        fun _ => regions_subset fun _ _ => Set.empty_subset _
    · have hm := Node.mem_children_of_child? hpar
      refine (hgo g (hf.child hm) (hp.child hf hm)).mono fun _ i hi => ?_
      exact ⟨.parameters, List.mem_singleton_self _, parameters, hpar, hi⟩

lemma visitTypeParameter_gathers (hf : Fits tidy strict n) (hp : Stands tidy p owner n) :
    Gathers tidy strict p owner n.bytes g (visitTypeParameter go p n g) := by
  have hsub := filter_named_sublist (fun c => c.kind == .typeBound) n
  have hv (g : Gathered) := (visitAll_gathers (g := g) hgo hf hp hsub).mono
    (regions_bytes_subset hf hsub)
  rw [visitTypeParameter]
  split
  · next name _ =>
    have hb : Gathers tidy strict p owner ∅ g (g.bind (p.text name) .typeParameter) :=
      Gathers.refl.bind _ _
    refine (hb.trans (hv _) fun _ => Set.empty_disjoint _).mono fun _ => ?_
    exact (Set.empty_union _).subset
  · exact hv g

lemma visitConstructorCall_gathers (hf : Fits tidy strict n) (hp : Stands tidy p owner n) :
    Gathers tidy strict p owner n.bytes g (visitConstructorCall go p n g) := by
  rw [visitConstructorCall]
  refine Gathers.within_node hf (u := [.arguments, .object, .constructor]) ?_
  refine visitSlot_after hgo hf hp (visitSlot_after hgo hf hp ?_ (by decide)) (by decide)
  split
  · next constructor _ hc _ =>
    split
    · exact .record_part hf hp hc (child?_anchor hf hc) (by decide) _
    · exact .refl
  · exact .refl

lemma visitInvocation_gathers (hf : Fits tidy strict n) (hp : Stands tidy p owner n) :
    Gathers tidy strict p owner n.bytes g (visitInvocation go p n g) := by
  rw [visitInvocation]
  refine Gathers.within_node hf (u := [.arguments, .typeArguments, .object, .name]) ?_
  refine visitSlot_after hgo hf hp (visitSlot_after hgo hf hp (visitSlot_after hgo hf hp ?_
    (by decide)) (by decide)) (by decide)
  split
  · next name hc =>
    exact .record_part hf hp hc (child?_anchor hf hc) (by decide) _
  · exact .refl

lemma visitFieldAccess_gathers (hf : Fits tidy strict n) (hp : Stands tidy p owner n) :
    Gathers tidy strict p owner n.bytes g (visitFieldAccess go p n g) := by
  rw [visitFieldAccess]
  refine Gathers.within_node hf (visitSlot_after (u := [.field]) hgo hf hp ?_ (by decide))
  split
  · next field hc =>
    exact .record_part hf hp hc (child?_anchor hf hc) (accessRole_ne_declaration p n) _
  · exact .refl

lemma visitAnnotationUse_gathers (hf : Fits tidy strict n) (hp : Stands tidy p owner n) :
    Gathers tidy strict p owner n.bytes g (visitAnnotationUse go p n g) := by
  rw [visitAnnotationUse]
  dsimp only
  refine Gathers.within_node hf (visitSlot_after (u := [.name]) hgo hf hp ?_ (by decide))
  split
  · next name hc =>
    have hfn := hf.child (Node.mem_children_of_child? hc)
    refine .record_part hf hp hc ?_ (by decide) _
    split
    · cases hn : name.child? .name with
      | none => exact child?_anchor hf hc
      | some last => exact .child hfn (Node.mem_children_of_child? hn)
    · exact child?_anchor hf hc
  · exact .refl

lemma visitMethodReference_gathers (hf : Fits tidy strict n) (hp : Stands tidy p owner n) :
    Gathers tidy strict p owner n.bytes g (visitMethodReference go p n g) := by
  rw [visitMethodReference]
  split
  · exact .refl
  · next qualifier rest hch =>
    have hsub : (qualifier :: rest.filter (·.kind == .typeArguments)).Sublist n.children := by
      rw [hch]
      exact List.filter_sublist.cons_cons qualifier
    have hv (g : Gathered) := visitAll_gathers (g := g) hgo hf hp hsub
    dsimp only
    split
    · exact (hv g).mono (regions_bytes_subset hf hsub)
    · next member hmem =>
      have hk := List.find?_some hmem
      have hin : member ∈ rest := (List.dropWhile_sublist _).subset
        ((List.tail_sublist _).subset (List.mem_of_find?_eq_some hmem))
      have hm : member ∈ n.children := hch ▸ List.mem_cons_of_mem _ hin
      have hr (target : Target) : Gathers tidy strict p owner member.bytes g
          (g.record p member .methodReference target) :=
        .record hp (.child hf hm) (by decide) target
      refine ((hr _).trans (hv _) fun hs => ?_).mono fun hs => ?_
      · refine disjoint_regions fun b hb => ?_
        have hpw := (hf.grammatical hs).wellFormed.pairwise_disjoint
        rw [hch] at hpw
        rcases List.mem_cons.mp hb with rfl | hb
        · exact ((List.pairwise_cons.mp hpw).1 member hin).symm
        · obtain ⟨hbm, hbk⟩ := List.mem_filter.mp hb
          have hne : member ≠ b := by
            rintro rfl
            simp_all
          exact hf.disjoint hs hm (hch ▸ List.mem_cons_of_mem _ hbm) hne
      · exact Set.union_subset (hf.bytes_subset hm hs) (regions_bytes_subset hf hsub hs)

end

end JavaAtlas.Outline
