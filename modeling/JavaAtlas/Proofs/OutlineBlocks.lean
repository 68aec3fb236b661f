import JavaAtlas.Proofs.DeclarationVisits
import JavaAtlas.Proofs.TypeVisits

/-! The outline of a tree is one block, and what follows from that about the order and the nesting
of its declarations and mentions. -/

namespace JavaAtlas.Outline

open Syntax Text

variable {tidy strict : Prop} {p : Place} {owner : Option Placed} {S T : Set Nat}
variable {g g' : Gathered} {n c : Node}

def declaringKinds : List Kind :=
  [.classDeclaration, .interfaceDeclaration, .enumDeclaration, .recordDeclaration,
   .annotationDeclaration, .methodDeclaration, .constructorDeclaration, .annotationElement,
   .enumConstant]

lemma Fits.namedByIdentifier (hf : Fits tidy strict n) (hk : n.kind ∈ declaringKinds) :
    NamedByIdentifier strict n := by
  intro hs c hc
  have hsh := (hf.grammatical hs).shaped
  simp only [declaringKinds, List.mem_cons, List.not_mem_nil, or_false] at hk
  rcases hk with hk | hk | hk | hk | hk | hk | hk | hk | hk
  all_goals
    simp only [Node.shaped, hk, hc, Option.all_some, Bool.and_eq_true, beq_iff_eq] at hsh
    exact hsh.2

lemma visitNode_sound {go : Visitor} (hgo : Sound go) (htypes : SplitsTypes go) :
    Sound (visitNode go) := by
  intro tidy strict p n owner g hf hp
  have hname := hf.namedByIdentifier
  have hscope (g : Gathered) : Gathers tidy strict p owner n.bytes g
      (g.inScope (visitChildren go p n)) :=
    .inScope fun g => visitChildren_gathers (g := g) hgo hf hp
  rw [visitNode]
  split
  · exact .refl
  · exact visitPackage_gathers
  · exact visitImport_gathers
  · next hk => exact visitType_gathers hgo hf hp (hname (by rw [hk]; decide))
  · next hk => exact visitType_gathers hgo hf hp (hname (by rw [hk]; decide))
  · next hk => exact visitType_gathers hgo hf hp (hname (by rw [hk]; decide))
  · next hk => exact visitType_gathers hgo hf hp (hname (by rw [hk]; decide))
  · next hk => exact visitType_gathers hgo hf hp (hname (by rw [hk]; decide))
  · next hk => exact visitMethod_gathers hgo hf hp (hname (by rw [hk]; decide))
  · next hk => exact visitMethod_gathers hgo hf hp (hname (by rw [hk]; decide))
  · next hk => exact visitMethod_gathers hgo hf hp (hname (by rw [hk]; decide))
  · exact visitField_gathers hgo hf hp
  · exact visitField_gathers hgo hf hp
  · next hk => exact visitEnumConstant_gathers hgo hf hp (hname (by rw [hk]; decide))
  · exact hscope g
  · exact hscope g
  · exact hscope g
  · exact hscope g
  · exact hscope g
  · exact hscope g
  · exact hscope g
  · exact visitLambda_gathers hgo hf hp
  · exact visitEnhancedFor_gathers hgo hf hp
  · exact visitLocal_gathers hgo hf hp
  · exact visitParameter_gathers hgo hf hp
  · exact visitParameter_gathers hgo hf hp
  · exact visitParameter_gathers hgo hf hp
  · exact visitResource_gathers hgo hf hp
  · exact visitInstanceTest_gathers hgo hf hp
  · exact visitTypeParameter_gathers hgo hf hp
  · next hk => exact visitObjectCreation_gathers hgo htypes hk hf hp
  · exact visitConstructorCall_gathers hgo hf hp
  · exact visitInvocation_gathers hgo hf hp
  · exact visitMethodReference_gathers hgo hf hp
  · exact visitFieldAccess_gathers hgo hf hp
  · exact visitAnnotationUse_gathers hgo hf hp
  · exact visitAnnotationUse_gathers hgo hf hp
  · exact visitPart_gathers hgo hf hp .value
  · exact (visitExcept_gathers hgo hf hp .identifier).mono
      (regions_bytes_subset hf (filter_named_sublist _ n))
  · exact .refl
  · exact .refl
  · exact .refl
  · next hk => exact visitIdentifier_gathers hk hf hp
  · next hk =>
    refine ((visitTypeIdentifier_splits hk hf hp).gathers fun _ => Set.disjoint_empty _).mono
      fun _ => ?_
    exact (Set.union_empty _).subset
  · next hk => exact visitScopedType_gathers hgo hk hf hp
  · exact visitChildren_gathers hgo hf hp

lemma visitNode_splitsTypes {go : Visitor} (hgo : Sound go) (htypes : SplitsTypes go) :
    SplitsTypes (visitNode go) := by
  intro tidy strict p n owner g hs hf hp hk
  simp only [namedTypeKinds, List.contains_iff_mem, List.mem_cons, List.not_mem_nil, or_false] at hk
  rcases hk with hk | hk | hk | hk
  · rw [visitNode, hk, anchorOf_typeIdentifier hk]
    exact (visitTypeIdentifier_splits hk hf hp).mono fun _ => Set.empty_subset _
  · rw [visitNode, hk]
    refine (visitScopedType_splits hgo hk hf hp).mono fun hs => Set.subset_sdiff.mpr ?_
    exact ⟨qualifierBytes_within hf hs, (disjoint_qualifierBytes hk hf hs).symm⟩
  · rw [visitNode, hk]
    exact visitGenericType_splits hgo htypes hk hs hf hp
  · rw [visitNode, hk]
    have hnone : n.named = [] := by
      have hsh := (hf.grammatical hs).shaped
      simp only [Node.shaped, hk, Bool.and_eq_true] at hsh
      exact List.isEmpty_iff.mp hsh.2
    rw [visitChildren, hnone]
    exact .of_gathers .refl

lemma visit_sound (height : Nat) : Sound (visit height) ∧ SplitsTypes (visit height) := by
  induction height with
  | zero => exact ⟨fun _ _ _ => .refl, fun _ _ _ _ _ => .of_gathers .refl⟩
  | succ height ih => exact ⟨visitNode_sound ih.1 ih.2, visitNode_splitsTypes ih.1 ih.2⟩

lemma ofTree_block (hf : Fits tidy strict n) (unit : UnitRef) (unitIndex : Nat) (source : String) :
    Block tidy strict unit unitIndex none n.bytes 0
      (Outline.ofTree unit unitIndex source n).declarations
      (Outline.ofTree unit unitIndex source n).mentions := by
  have hp : Stands tidy ⟨source.toList, unit, unitIndex, [], none, 0, []⟩ none n :=
    ⟨rfl, rfl, fun _ o ho => nomatch ho⟩
  obtain ⟨ds, ms, hd, hm, hb⟩ := (visit_sound n.height).1 .empty hf hp
  rw [Outline.ofTree, hd, hm]
  exact hb

end JavaAtlas.Outline
