import JavaAtlas.Outline.Collect
import Mathlib.Data.List.Pairwise
import Mathlib.Order.CompletePartialOrder
import Mathlib.Order.Interval.Set.Disjoint
import Mathlib.Tactic.Common

/-! Trees whose nodes lie inside their parents and beside their siblings, and the few facts of the
grammar that keep the names of a tree apart. -/

namespace JavaAtlas.Syntax.Node

def bytes (n : Node) : Set Nat := Set.Ico n.start n.stop

mutual

def everywhere (test : Node → Bool) : Node → Bool
  | mk kind slot start stop children =>
    test (mk kind slot start stop children) && everywhereList test children

def everywhereList (test : Node → Bool) : List Node → Bool
  | [] => true
  | n :: ns => everywhere test n && everywhereList test ns

end

def Orderly (n : Node) : Prop :=
  n.start ≤ n.stop ∧ (∀ c ∈ n.children, n.start ≤ c.start ∧ c.stop ≤ n.stop) ∧
    n.children.Pairwise fun a b => a.stop ≤ b.start

instance : DecidablePred Orderly := fun _ => inferInstanceAs (Decidable (_ ∧ _ ∧ _))

/-- What the grammar says about the parts that name something. No part of a node and no name is
empty; what a declaration declares is named by an identifier; the type of a created object is a
plain, qualified or generic name or a primitive type, and it ends in one token. -/
def shaped (n : Node) : Bool :=
  n.children.all (fun c => decide (c.start < c.stop)) &&
  match n.kind with
  | .classDeclaration | .interfaceDeclaration | .enumDeclaration | .recordDeclaration
  | .annotationDeclaration | .methodDeclaration | .constructorDeclaration | .annotationElement
  | .enumConstant => (n.child? .name).all (·.kind == .identifier)
  | .objectCreation => (n.child? .type).all fun t =>
      [Kind.typeIdentifier, .scopedType, .genericType, .primitiveType].contains t.kind
  | .identifier => decide (n.start < n.stop)
  | .typeIdentifier => n.named.isEmpty && decide (n.start < n.stop)
  | .primitiveType => n.named.isEmpty
  | .scopedType => n.named.any (·.kind == .typeIdentifier)
  | .genericType => n.named.any fun c => [Kind.typeIdentifier, .scopedType].contains c.kind
  | _ => true

def WellFormed (n : Node) : Prop := n.everywhere (fun n => decide n.Orderly) = true

def Grammatical (n : Node) : Prop := n.everywhere (fun n => decide n.Orderly && n.shaped) = true

instance : DecidablePred WellFormed := fun _ => inferInstanceAs (Decidable (_ = true))

instance : DecidablePred Grammatical := fun _ => inferInstanceAs (Decidable (_ = true))

lemma everywhereList_iff (test : Node → Bool) (ns : List Node) :
    everywhereList test ns = true ↔ ∀ n ∈ ns, n.everywhere test = true := by
  induction ns with
  | nil => simp [everywhereList]
  | cons n ns ih => simp [everywhereList, ih]

lemma everywhere_iff (test : Node → Bool) (n : Node) :
    n.everywhere test = true ↔ test n = true ∧ ∀ c ∈ n.children, c.everywhere test = true := by
  cases n
  simp [everywhere, everywhereList_iff, children]

lemma heightList_le {ns : List Node} {n : Node} (h : n ∈ ns) : n.height ≤ heightList ns := by
  induction ns with
  | nil => simp at h
  | cons m ns ih =>
    rw [heightList]
    rcases List.mem_cons.mp h with rfl | h
    · exact Nat.le_max_left _ _
    · exact (ih h).trans (Nat.le_max_right _ _)

lemma height_lt_of_mem {n c : Node} (h : c ∈ n.children) : c.height < n.height := by
  cases n
  rw [height]
  exact Nat.lt_succ_of_le (heightList_le h)

lemma induct {motive : Node → Prop} (step : ∀ n, (∀ c ∈ n.children, motive c) → motive n)
    (n : Node) : motive n := by
  induction h : n.height using Nat.strong_induction_on generalizing n with
  | _ height ih => exact step n fun c hc => ih c.height (h ▸ height_lt_of_mem hc) c rfl

lemma everywhere_mono {test weaker : Node → Bool} (h : ∀ n, test n = true → weaker n = true)
    (n : Node) (hn : n.everywhere test = true) : n.everywhere weaker = true := by
  induction n using induct with
  | _ n ih =>
    obtain ⟨ht, hc⟩ := (everywhere_iff test n).mp hn
    exact (everywhere_iff weaker n).mpr ⟨h n ht, fun c hm => ih c hm (hc c hm)⟩

lemma Grammatical.wellFormed {n : Node} (h : n.Grammatical) : n.WellFormed :=
  everywhere_mono (fun _ hm => (Bool.and_eq_true_iff.mp hm).1) n h

lemma Grammatical.child {n c : Node} (h : n.Grammatical) (hc : c ∈ n.children) : c.Grammatical :=
  ((everywhere_iff _ n).mp h).2 c hc

lemma Grammatical.shaped {n : Node} (h : n.Grammatical) : n.shaped = true :=
  (Bool.and_eq_true_iff.mp ((everywhere_iff _ n).mp h).1).2

lemma Grammatical.nonempty_child {n c : Node} (h : n.Grammatical) (hc : c ∈ n.children) :
    c.start < c.stop := by
  have hs := (Bool.and_eq_true_iff.mp h.shaped).1
  exact of_decide_eq_true (List.all_eq_true.mp hs c hc)

lemma WellFormed.child {n c : Node} (h : n.WellFormed) (hc : c ∈ n.children) : c.WellFormed :=
  ((everywhere_iff _ n).mp h).2 c hc

lemma WellFormed.orderly {n : Node} (h : n.WellFormed) : n.Orderly :=
  of_decide_eq_true ((everywhere_iff _ n).mp h).1

def Within (a n : Node) : Prop := n.start ≤ a.start ∧ a.start ≤ a.stop ∧ a.stop ≤ n.stop

lemma Within.trans {a b c : Node} (h : a.Within b) (h' : b.Within c) : a.Within c :=
  ⟨h'.1.trans h.1, h.2.1, h.2.2.trans h'.2.2⟩

lemma Within.bytes_subset {a n : Node} (h : a.Within n) : a.bytes ⊆ n.bytes :=
  Set.Ico_subset_Ico h.1 h.2.2

lemma WellFormed.refl {n : Node} (h : n.WellFormed) : n.Within n :=
  ⟨Nat.le_refl _, h.orderly.1, Nat.le_refl _⟩

lemma WellFormed.within {n c : Node} (h : n.WellFormed) (hc : c ∈ n.children) : c.Within n :=
  ⟨(h.orderly.2.1 c hc).1, (h.child hc).orderly.1, (h.orderly.2.1 c hc).2⟩

lemma disjoint_bytes_of_le {a b : Node} (h : a.stop ≤ b.start) : Disjoint a.bytes b.bytes :=
  Set.disjoint_left.mpr fun _ ha hb => Nat.lt_irrefl _ (ha.2.trans_le (h.trans hb.1))

lemma WellFormed.pairwise_disjoint {n : Node} (h : n.WellFormed) :
    n.children.Pairwise fun a b => Disjoint a.bytes b.bytes :=
  h.orderly.2.2.imp disjoint_bytes_of_le

lemma WellFormed.disjoint {n a b : Node} (h : n.WellFormed) (ha : a ∈ n.children)
    (hb : b ∈ n.children) (hne : a ≠ b) : Disjoint a.bytes b.bytes :=
  h.pairwise_disjoint.forall ha hb hne

lemma mem_children_of_mem_named {n c : Node} (h : c ∈ n.named) : c ∈ n.children :=
  (List.mem_filter.mp h).1

lemma mem_children_of_child? {n c : Node} {s : Slot} (h : n.child? s = some c) : c ∈ n.children :=
  List.mem_of_find?_eq_some h

lemma slot?_of_child? {n c : Node} {s : Slot} (h : n.child? s = some c) : c.slot? = some s := by
  simpa using List.find?_some h

lemma ne_of_child? {n a b : Node} {s t : Slot} (ha : n.child? s = some a) (hb : n.child? t = some b)
    (hst : s ≠ t) : a ≠ b := by
  rintro rfl
  have hh := (slot?_of_child? ha).symm.trans (slot?_of_child? hb)
  exact hst (Option.some.inj hh)

end JavaAtlas.Syntax.Node

namespace JavaAtlas.Outline

open Syntax

lemma typeAnchor_succ {fuel : Nat} {n : Node} (h : n.height ≤ fuel) :
    typeAnchor (fuel + 1) n = typeAnchor fuel n := by
  induction fuel generalizing n with
  | zero =>
    cases n
    simp [Node.height] at h
  | succ fuel ih =>
    rw [typeAnchor, typeAnchor]
    cases hf : n.named.find? fun c =>
        [Kind.typeIdentifier, .scopedType, .genericType].contains c.kind with
    | none => rfl
    | some c =>
      have hc := Node.height_lt_of_mem
        (Node.mem_children_of_mem_named (List.mem_of_find?_eq_some hf))
      simp only [ih (show c.height ≤ fuel by omega)]

lemma typeAnchor_eq_anchorOf {fuel : Nat} {n : Node} (h : n.height ≤ fuel) :
    typeAnchor fuel n = anchorOf n := by
  induction fuel, h using Nat.le_induction with
  | base => rfl
  | succ fuel h ih => rw [typeAnchor_succ h, ih]

lemma typeAnchor_closed {P : Node → Prop} (hP : ∀ n c, P n → c ∈ n.children → P c) (fuel : Nat)
    {n : Node} (h : P n) : P (typeAnchor fuel n) := by
  induction fuel generalizing n with
  | zero => exact h
  | succ fuel ih =>
    rw [typeAnchor]
    split
    all_goals try exact h
    all_goals try
      split
      · next c hf =>
        have hc := Node.mem_children_of_mem_named (List.mem_of_find?_eq_some hf)
        exact ih (hP n c h hc)
      · exact h
    cases hf : n.named.reverse.find? (·.kind == .typeIdentifier) with
    | none => exact h
    | some c =>
      have hm := List.mem_reverse.mp (List.mem_of_find?_eq_some hf)
      exact hP n c h (Node.mem_children_of_mem_named hm)

lemma anchorOf_within {n : Node} (h : n.WellFormed) : (anchorOf n).Within n := by
  have hc := typeAnchor_closed (P := fun a => a.WellFormed ∧ a.Within n)
    (fun a c ha hc => ⟨ha.1.child hc, (ha.1.within hc).trans ha.2⟩) n.height ⟨h, h.refl⟩
  exact hc.2

lemma anchorOf_nonempty {n : Node} (h : n.Grammatical) (hn : n.start < n.stop) :
    (anchorOf n).start < (anchorOf n).stop := by
  have hc := typeAnchor_closed (P := fun a => a.Grammatical ∧ a.start < a.stop)
    (fun a c ha hc => ⟨ha.1.child hc, ha.1.nonempty_child hc⟩) n.height ⟨h, hn⟩
  exact hc.2

end JavaAtlas.Outline
