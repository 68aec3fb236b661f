import JavaAtlas.Proofs.LikeWalks
import JavaAtlas.Proofs.TokenTexts

/-! The walk is local. A node with a scope of its own leaves no name behind, and when its content is
replaced by other content of the same length, nothing that is gathered outside the node changes. -/

namespace JavaAtlas.Text

lemma takeBytes_append_dropBytes (n : Nat) (cs : List Char) :
    takeBytes n cs ++ dropBytes n cs = cs := by
  induction cs generalizing n with
  | nil => cases n <;> simp [takeBytes, dropBytes]
  | cons c cs ih =>
    cases n with
    | zero => simp [takeBytes, dropBytes]
    | succ n => rw [takeBytes, dropBytes, List.cons_append, ih]

lemma takeBytes_of_le {n : Nat} {a : List Char} (h : n ≤ byteLength a) (b : List Char) :
    takeBytes n (a ++ b) = takeBytes n a := by
  induction a generalizing n with
  | nil =>
    obtain rfl : n = 0 := Nat.le_zero.mp h
    rw [takeBytes, takeBytes]
  | cons c a ih =>
    cases n with
    | zero => rw [takeBytes, takeBytes]
    | succ n =>
      rw [byteLength] at h
      rw [List.cons_append, takeBytes, takeBytes, ih (by omega)]

lemma dropBytes_of_le {n : Nat} {a : List Char} (h : byteLength a ≤ n) (b : List Char) :
    dropBytes n (a ++ b) = dropBytes (n - byteLength a) b := by
  induction a generalizing n with
  | nil => rfl
  | cons c a ih =>
    have hc := c.utf8Size_pos
    rw [byteLength] at h ⊢
    cases n with
    | zero => omega
    | succ n => rw [List.cons_append, dropBytes, ih (by omega), Nat.sub_sub]

/-- Whether a character of the text begins at the byte. -/
def beginsAt (cs : List Char) (i : Nat) : Bool := byteLength (takeBytes i cs) == i

lemma slice_before {a x y : List Char} {i j : Nat} (hi : beginsAt (a ++ x) i = true)
    (hij : i ≤ j) (hj : j ≤ byteLength a) : slice (a ++ x) i j = slice (a ++ y) i j := by
  have hlen : byteLength (takeBytes i a) = i := by
    rw [← takeBytes_of_le (hij.trans hj) x]
    exact eq_of_beq hi
  have hsplit := takeBytes_append_dropBytes i a
  have hrest : byteLength (takeBytes i a) + byteLength (dropBytes i a) = byteLength a := by
    rw [← byteLength_append, hsplit]
  have hdrop (z : List Char) : dropBytes i (a ++ z) = dropBytes i a ++ z := by
    have hd := dropBytes_append (takeBytes i a) (dropBytes i a ++ z)
    rwa [hlen, ← List.append_assoc, hsplit] at hd
  rw [slice, slice, sliceBytes, sliceBytes, hdrop, hdrop, takeBytes_of_le (by omega),
    takeBytes_of_le (by omega)]

lemma slice_after {a b x : List Char} {i : Nat} (hab : byteLength a = byteLength b)
    (hi : byteLength a ≤ i) (j : Nat) : slice (a ++ x) i j = slice (b ++ x) i j := by
  rw [slice, slice, sliceBytes, sliceBytes, dropBytes_of_le hi, dropBytes_of_le (hab ▸ hi), hab]

end JavaAtlas.Text

namespace JavaAtlas.Outline

open Syntax Text

variable {h k : Nat} {p : Place} {n c t t' : Node} {g g' : Gathered}

section Effects

/-- The second outline comes from the first one by gathering at the given bytes. -/
structure Adds (S : Set Nat) (g g' : Gathered) : Prop where
  declarations : ∃ ds, g'.declarations.toList = g.declarations.toList ++ ds ∧
    ∀ d ∈ ds, ∃ i ∈ S, d.element.nameOffset = some i
  mentions : ∃ ms, g'.mentions.toList = g.mentions.toList ++ ms ∧ ∀ m ∈ ms, m.offset ∈ S

lemma exists_appended {α : Type} {l l' : List α} (h : l <+: l') {P : α → Prop}
    (hP : ∀ k a, l.length ≤ k → l'[k]? = some a → P a) :
    ∃ more, l' = l ++ more ∧ ∀ a ∈ more, P a := by
  obtain ⟨more, rfl⟩ := h
  refine ⟨more, rfl, fun a ha => ?_⟩
  obtain ⟨k, hk⟩ := List.mem_iff_getElem?.mp ha
  refine hP (l.length + k) a (Nat.le_add_right _ _) ?_
  rwa [List.getElem?_append_right (Nat.le_add_right _ _), Nat.add_sub_cancel_left]

/-- What a walk gathers from a node stands in its bytes. -/
lemma visit_adds (hn : n.Grammatical) (hp : Plain n) : Adds n.bytes g (visit h p n g) := by
  have hgrows := visit_grows h p n g
  constructor
  · refine exists_appended hgrows.1 fun k d hk hd => ?_
    have h₀ : g.declarations.toList[k]? ≠ some d := by
      rw [List.getElem?_eq_none hk]
      simp
    obtain ⟨p', n', j, m, g', hu, -, hm, hno, hyes⟩ :=
      exists_move (P := fun g => g.declarations.toList[k]? = some d) (fun _ _ => Iff.rfl) h₀ hd
    obtain ⟨x, hx⟩ := of_declares hm (alone_declares_at hno hyes)
    obtain ⟨-, hoff, -⟩ := declaredBy_token hx (hu.everywhere hn) (hu.everywhere hp)
    exact ⟨x.start, (traced_declaration_at hoff k).within hn hp h₀ hd, hoff⟩
  · refine exists_appended hgrows.2 fun k μ hk hμ => ?_
    have h₀ : g.mentions.toList[k]? ≠ some μ := by
      rw [List.getElem?_eq_none hk]
      simp
    obtain ⟨p', n', j, m, g', hu, -, hm, hno, hyes⟩ :=
      exists_move (P := fun g => g.mentions.toList[k]? = some μ) (fun _ _ => Iff.rfl) h₀ hμ
    obtain ⟨q, a, role, target, t, rfl, -, rfl⟩ := alone_mentions_at hno hyes
    cases hm with
    | mention _ htok _ _ =>
      have hne := (htok (hu.everywhere hn) (hu.everywhere hp)).nonempty
      refine (traced_mention_at ⟨Nat.le_refl _, ?_⟩ k).within hn hp h₀ hμ
      change a.start < a.start + (a.stop - a.start)
      omega

namespace Adds

variable {S T : Set Nat}

lemma refl (S : Set Nat) (g : Gathered) : Adds S g g := ⟨⟨[], by simp⟩, ⟨[], by simp⟩⟩

lemma mono (ha : Adds S g g') (hs : S ⊆ T) : Adds T g g' := by
  obtain ⟨⟨ds, hd, hds⟩, ⟨ms, hm, hms⟩⟩ := ha
  refine ⟨⟨ds, hd, fun d hmem => ?_⟩, ⟨ms, hm, fun m hmem => hs (hms m hmem)⟩⟩
  obtain ⟨i, hi, hoff⟩ := hds d hmem
  exact ⟨i, hs hi, hoff⟩

lemma trans {g'' : Gathered} (ha : Adds S g g') (ha' : Adds S g' g'') : Adds S g g'' := by
  obtain ⟨⟨ds, hd, hds⟩, ⟨ms, hm, hms⟩⟩ := ha
  obtain ⟨⟨ds', hd', hds'⟩, ⟨ms', hm', hms'⟩⟩ := ha'
  refine ⟨⟨ds ++ ds', by rw [hd', hd, List.append_assoc], fun d h => ?_⟩,
    ⟨ms ++ ms', by rw [hm', hm, List.append_assoc], fun m h => ?_⟩⟩
  · exact (List.mem_append.mp h).elim (hds d) (hds' d)
  · exact (List.mem_append.mp h).elim (hms m) (hms' m)

end Adds

lemma visitAll_adds (hn : n.Grammatical) (hp : Plain n) {ns : List Node} (hns : ns ⊆ n.children) :
    Adds n.bytes g (visitAll (visit h) p ns g) := by
  induction ns generalizing g with
  | nil => exact .refl _ g
  | cons c ns ih =>
    have hc := hns List.mem_cons_self
    refine .trans ?_ (ih fun b hb => hns (List.mem_cons_of_mem c hb))
    exact (visit_adds (hn.child hc) (hp.child hc)).mono (hn.wellFormed.within hc).bytes_subset

/-- The package is named in no part of the node. -/
def noPackage (n : Node) : Bool := n.everywhere (·.kind != .packageDeclaration)

lemma visit_package (hn : noPackage n = true) : (visit h p n g).package = g.package := by
  by_contra hne
  obtain ⟨p', n', k, m, g', hu, -, hm, hno, hyes⟩ := exists_move
    (P := fun g' => g'.package ≠ g.package) (fun _ _ => Iff.rfl) (fun h => h rfl) hne
  have hkeeps (hm : ∀ name, m ≠ .package name) : (m.alone g').package = g'.package := by
    cases m with
    | package name => exact absurd rfl (hm name)
    | body q c => rw [alone_body]
    | bind name l =>
      rw [Move.alone, Move.perform, Gathered.bind]
      split <;> rfl
    | mention p a role target =>
      rw [Move.alone, Move.perform]
      split <;> rfl
    | visit | declare | component | imported => rfl
  by_cases hpack : ∃ name, m = .package name
  · obtain ⟨name, rfl⟩ := hpack
    cases hm with
    | package hk =>
      have hat := ((Node.everywhere_iff _ n').mp (hu.everywhere hn)).1
      simp [hk] at hat
  · rw [hkeeps fun name h => hpack ⟨name, h⟩] at hyes
    exact hno hyes

lemma visitAll_package (hn : noPackage n = true) {ns : List Node} (hns : ns ⊆ n.children) :
    (visitAll (visit h) p ns g).package = g.package := by
  induction ns generalizing g with
  | nil => rfl
  | cons c ns ih =>
    rw [visitAll, List.foldl_cons]
    refine (ih fun b hb => hns (List.mem_cons_of_mem c hb)).trans (visit_package ?_)
    exact ((Node.everywhere_iff _ n).mp hn).2 c (hns List.mem_cons_self)

/-- A node with a scope of its own leaves the scopes around it as they were. -/
lemma visit_scopes (ho : opensScope n = true) : (visit h p n g).scopes = g.scopes := by
  cases h with
  | zero => rfl
  | succ h =>
    change (visitNode (visit h) p n g).scopes = g.scopes
    rw [visitNode_eq_enter, if_pos ho]

lemma Adds.unseen {seen : Nat → Bool} (ha : Adds n.bytes g g') (hk : g'.package = g.package)
    (hs : g'.scopes = g.scopes) (hseen : ∀ i ∈ n.bytes, seen i = false) : Unseen seen g g' := by
  obtain ⟨⟨ds, hd, hds⟩, ⟨ms, hm, hms⟩⟩ := ha
  refine ⟨hk, hs, ⟨ds, hd, fun d h => ?_⟩, ⟨ms, hm, fun m h => hseen _ (hms m h)⟩⟩
  obtain ⟨i, hi, hoff⟩ := hds d h
  rw [hoff]
  exact hseen i hi

lemma veiled (hn : n.Grammatical) (hp : Plain n) (hk : noPackage n = true) {seen : Nat → Bool}
    (hseen : ∀ i ∈ n.bytes, seen i = false) : Veiled seen n := by
  refine ⟨fun ho h p g => ?_, fun h p g => ?_⟩
  · exact (visit_adds hn hp).unseen (visit_package hk) (visit_scopes ho) hseen
  · have hsub : n.named ⊆ n.children := fun c => Node.mem_children_of_mem_named
    have ha := visitAll_adds (h := h) (p := p) (g := { g with scopes := [] :: g.scopes }) hn hp hsub
    exact Adds.unseen (n := n) ⟨ha.1, ha.2⟩ (visitAll_package hk hsub) rfl hseen

end Effects

section Swap

/-- Kinds of nodes whose text is read as a type, or that hold such types. -/
def writtenKinds : List Kind :=
  [.thisName, .scopedType, .genericType, .arrayType, .superclass, .superInterfaces,
   .extendsInterfaces, .catchType, .inferredParameters]

/-- The text of the node is read as a name or as a type, or as a part of one. -/
def isRead (n : Node) : Bool :=
  n.isSpelled || [some Slot.type, some .dimensions].contains n.slot? || writtenKinds.contains n.kind

/-- Whether the node can stand beside the type of a parameter of variable arity. -/
def besideSpread (n : Node) : Bool :=
  [Kind.modifiers, .variableDeclarator, .markerUse, .annotationUse].contains n.kind

/-- The text of the part is read in its parent. -/
def readsPart (n c : Node) : Bool :=
  n.kind == .instanceTest && c.slot? == some .right || n.kind == .spreadParameter && !besideSpread c

/-- The second tree is the first one with the node `t'` in the place of `t`, which is walked in a
scope of its own and stands in no name and no written type. -/
inductive Swapped (t t' : Node) : Node → Node → Prop
  | here {k : Kind} {s : Option Slot} {i j : Nat} (before after : List Node) :
      isRead (.mk k s i j (before ++ t :: after)) = false →
      readsPart (.mk k s i j (before ++ t :: after)) t = false →
      (isBody (.mk k s i j (before ++ t :: after)) t = true ∨
        opensScope t = true ∧ opensScope t' = true) →
      Swapped t t' (.mk k s i j (before ++ t :: after)) (.mk k s i j (before ++ t' :: after))
  | inside {k : Kind} {s : Option Slot} {i j : Nat} (before after : List Node) {c c' : Node} :
      isRead (.mk k s i j (before ++ c :: after)) = false →
      readsPart (.mk k s i j (before ++ c :: after)) c = false → Swapped t t' c c' →
      Swapped t t' (.mk k s i j (before ++ c :: after)) (.mk k s i j (before ++ c' :: after))

lemma not_read (hr : isRead n = false) : n.isSpelled = false ∧
    (∀ s ∈ [Slot.type, .dimensions], n.slot? ≠ some s) ∧ n.kind ∉ writtenKinds := by
  simp only [isRead, Bool.or_eq_false_iff, List.contains_eq_mem, decide_eq_false_iff_not,
    List.mem_cons, List.not_mem_nil, or_false] at hr
  refine ⟨hr.1.1, fun s hs => ?_, hr.2⟩
  simp only [List.mem_cons, List.not_mem_nil, or_false] at hs
  rcases hs with rfl | rfl
  · exact fun h => hr.1.2 (.inl h)
  · exact fun h => hr.1.2 (.inr h)

section Replaced

open List

variable {kind : Kind} {slot : Option Slot} {i j : Nat} {before after : List Node} {c c' : Node}
variable {text text' : Node → String} {part : Node → Node → Prop} {s : Slot} {x x' : Node}

lemma mem_replaced : c ∈ (Node.mk kind slot i j (before ++ c :: after)).children :=
  mem_append_right _ mem_cons_self

lemma find?_replaced {test : Node → Bool} (hc : test c = false) :
    (before ++ c :: after).find? test = (before ++ after).find? test := by
  rw [find?_append, find?_append, find?_cons_of_neg (by simp [hc])]

lemma child?_replaced (hc : c.slot? ≠ some s) :
    (Node.mk kind slot i j (before ++ c :: after)).child? s =
      (before ++ after).find? (·.slot? == some s) :=
  find?_replaced (beq_eq_false_iff_ne.mpr hc)

lemma child_text_replaced (ht : ∀ b ∈ before ++ after, text b = text' b) (hs : c.slot? = c'.slot?)
    (hc : c.slot? ≠ some s)
    (hx : (Node.mk kind slot i j (before ++ c :: after)).child? s = some x)
    (hx' : (Node.mk kind slot i j (before ++ c' :: after)).child? s = some x') :
    text x = text' x' := by
  rw [child?_replaced hc] at hx
  rw [child?_replaced (hs ▸ hc)] at hx'
  obtain rfl := Option.some.inj (hx.symm.trans hx')
  exact ht x (List.mem_of_find?_eq_some hx)

lemma bracketText_replaced (ht : ∀ b ∈ before ++ after, text b = text' b) (hs : c.slot? = c'.slot?)
    (hc : c.slot? ≠ some .dimensions) :
    Node.bracketText text (.mk kind slot i j (before ++ c :: after)) =
      Node.bracketText text' (.mk kind slot i j (before ++ c' :: after)) := by
  rw [Node.bracketText, Node.bracketText, child?_replaced hc, child?_replaced (hs ▸ hc)]
  cases hd : (before ++ after).find? (·.slot? == some Slot.dimensions) with
  | none => rfl
  | some d => rw [Option.map_some, Option.map_some, ht d (List.mem_of_find?_eq_some hd)]

lemma spreadType?_replaced (hc : besideSpread c = true) :
    spreadType? (.mk kind slot i j (before ++ c :: after)) =
      (before ++ after).find? fun b => b.kind != .mark && !besideSpread b := by
  rw [spreadType?, Node.named, find?_filter]
  refine Eq.trans ?_ (find?_replaced (c := c) (by rw [hc]; simp))
  congr 1
  funext b
  rw [Bool.decide_and, Bool.decide_eq_true, Bool.decide_eq_true]
  rfl

lemma parts_replaced (hb : ∀ b ∈ before ++ after, part b b) (hc : part c c') {test : Node → Bool}
    (htest : test c = test c') :
    Forall₂ part ((before ++ c :: after).filter test) ((before ++ c' :: after).filter test) := by
  have hbefore : Forall₂ part (before.filter test) (before.filter test) :=
    forall₂_same.mpr fun b hm => hb b (mem_append_left _ (mem_of_mem_filter hm))
  have hafter : Forall₂ part (after.filter test) (after.filter test) :=
    forall₂_same.mpr fun b hm => hb b (mem_append_right _ (mem_of_mem_filter hm))
  rw [filter_append, filter_append]
  refine rel_append hbefore ?_
  cases hct : test c with
  | true =>
    rw [filter_cons_of_pos hct, filter_cons_of_pos (by rw [← htest, hct])]
    exact .cons hc hafter
  | false =>
    rw [filter_cons_of_neg (by simp [hct]), filter_cons_of_neg (by simp [← htest, hct])]
    exact hafter

/-- A node that reads nothing of the part in which it differs is like the other one. -/
lemma LikeAt.replaced {exact : Prop} {seen seen' : Nat → Bool}
    (hb : ∀ b ∈ before ++ after, part b b) (ht : ∀ b ∈ before ++ after, text b = text' b)
    (hc : part c c') (hk : c.kind = c'.kind) (hs : c.slot? = c'.slot?)
    (hcode : c.isRemark = false) (hcode' : c'.isRemark = false)
    (hslot : ∀ s ∈ [Slot.type, .dimensions], c.slot? ≠ some s)
    (hr : isRead (.mk kind slot i j (before ++ c :: after)) = false)
    (hp : readsPart (.mk kind slot i j (before ++ c :: after)) c = false) :
    LikeAt text text' exact seen seen' Eq part (.mk kind slot i j (before ++ c :: after))
      (.mk kind slot i j (before ++ c' :: after)) := by
  obtain ⟨hspelled, hn, hkind⟩ := not_read hr
  have hno (k : Kind) (hk : k ∈ writtenKinds) : kind ≠ k := fun h => hkind (h ▸ hk)
  have hanchor : ¬(slot = some .type ∨ kind = .scopedType) := fun h =>
    h.elim (hn .type (by simp)) (hno .scopedType (by decide))
  have hbeside (hk' : kind = .spreadParameter) :
      besideSpread c = true ∧ besideSpread c' = true := by
    subst hk'
    have hbeside : besideSpread c = true := by
      cases hbeside : besideSpread c with
      | true => rfl
      | false => simp [readsPart, hbeside, Node.kind] at hp
    exact ⟨hbeside, by rwa [besideSpread, ← hk]⟩
  constructor
  case kind_eq | slot_eq | start_eq | stop_eq => intros; rfl
  case code_children => exact parts_replaced hb hc (by rw [hcode, hcode'])
  case anchor_eq => exact fun h => absurd h hanchor
  case seen_anchor => exact fun h => absurd h hanchor
  case spelled_eq => exact fun h => absurd h (by simp [hspelled])
  case seen_word =>
    exact fun h => absurd h (not_or.mpr ⟨by simp [hspelled], hno .thisName (by decide)⟩)
  case type_text => exact fun _ _ => child_text_replaced ht hs (hslot .type (by simp))
  case test_text =>
    intro hk' _ _
    have hk' : kind = .instanceTest := hk'
    refine child_text_replaced ht hs fun h => ?_
    simp [readsPart, Node.kind, hk', h] at hp
  case super_texts =>
    have hnone (text : Node → String) (cs : List Node) :
        heirTexts text (.mk kind slot i j cs) = [] := by
      rw [heirTexts]
      split
      · next h => exact absurd h (hno _ (by decide))
      · next h => exact absurd h (hno _ (by decide))
      · next h => exact absurd h (hno _ (by decide))
      · rfl
    rw [hnone, hnone]
    exact .nil
  case spread_text =>
    intro hk'
    rw [spreadType?_replaced (hbeside hk').1, spreadType?_replaced (hbeside hk').2]
    cases hd : (before ++ after).find? fun b => b.kind != .mark && !besideSpread b with
    | none => exact .none
    | some d => exact .some (ht d (List.mem_of_find?_eq_some hd))
  case spread_eq =>
    intro hk'
    rw [spreadType?_replaced (hbeside hk').1, spreadType?_replaced (hbeside hk').2]
    cases hd : (before ++ after).find? fun b => b.kind != .mark && !besideSpread b with
    | none => rw [Option.map_none, Option.map_none]
    | some d => rw [Option.map_some, Option.map_some, ht d (List.mem_of_find?_eq_some hd)]
  case caught_text => exact fun h => absurd h (hno .catchType (by decide))
  case erased_eq =>
    intro h
    simp only [contains_eq_mem, mem_cons, not_mem_nil, or_false, decide_eq_true_eq] at h
    rcases h with h | h | h | h
    · simp [Node.isSpelled, h] at hspelled
    · exact absurd h (hno .scopedType (by decide))
    · exact absurd h (hno .genericType (by decide))
    · exact absurd h (hno .arrayType (by decide))
  case parameter_eq =>
    intro _ _ _ hx hx'
    rw [child_text_replaced ht hs (hslot .type (by simp)) hx hx',
      bracketText_replaced ht hs (hslot .dimensions (by simp))]
  case inner_head =>
    intro _
    have hnamed : Forall₂ part ((before ++ c :: after).filter (·.kind != .mark))
        ((before ++ c' :: after).filter (·.kind != .mark)) := parts_replaced hb hc (by rw [hk])
    change Option.Rel part ((before ++ c :: after).filter _).head?
      ((before ++ c' :: after).filter _).head?
    generalize (before ++ c :: after).filter (·.kind != .mark) = cs,
      (before ++ c' :: after).filter (·.kind != .mark) = cs' at hnamed
    cases hnamed with
    | nil => exact .none
    | cons h _ => exact .some h
  case inferred_eq => exact fun h => absurd h (hno .inferredParameters (by decide))
  case qualifier =>
    intro _
    have hcut (b : Node) (ns : List Node) : Node.code ns = (Node.code (b :: ns)).drop
        (if b.isRemark then 0 else 1) := by
      cases hbr : b.isRemark with
      | true => rw [Node.code, Node.code, filter_cons_of_neg (by simp [hbr])]; rfl
      | false => rw [Node.code, Node.code, filter_cons_of_pos (by simp [hbr])]; rfl
    refine .inr ?_
    cases before with
    | nil =>
      refine ⟨c, c', after, after, rfl, rfl, hc, forall₂_same.mpr fun b hm => ?_⟩
      exact hb b (mem_of_mem_filter hm)
    | cons b before =>
      refine ⟨b, b, before ++ c :: after, before ++ c' :: after, rfl, rfl, hb b (by simp), ?_⟩
      rw [hcut b, hcut b (before ++ c' :: after)]
      exact forall₂_drop _ (parts_replaced hb hc (by rw [hcode, hcode']))

end Replaced

namespace Swapped

lemma kind_eq (hs : Swapped t t' n c) : n.kind = c.kind := by
  cases hs <;> rfl

lemma slot_eq (hs : Swapped t t' n c) : n.slot? = c.slot? := by
  cases hs <;> rfl

lemma isRead_eq (hs : Swapped t t' n c) : isRead n = false := by
  cases hs with
  | here _ _ hr _ _ => exact hr
  | inside _ _ hr _ _ => exact hr

lemma isRemark_eq (hs : Swapped t t' n c) : n.isRemark = false ∧ c.isRemark = false := by
  cases hs <;> simp [Node.isRemark, Node.children]

lemma under (hs : Swapped t t' n c) : (∃ k, Under t k n) ∧ ∃ k, Under t' k c := by
  induction hs with
  | here => exact ⟨⟨_, .child mem_replaced .self⟩, ⟨_, .child mem_replaced .self⟩⟩
  | inside _ _ _ _ _ ih =>
    obtain ⟨⟨k, hu⟩, ⟨k', hu'⟩⟩ := ih
    exact ⟨⟨_, .child mem_replaced hu⟩, ⟨_, .child mem_replaced hu'⟩⟩

end Swapped

/-- Two nodes of one kind at one place, with texts of the same length, to be exchanged. -/
structure Exchange (t t' : Node) (u v v' : String) : Prop where
  kind_eq : t.kind = t'.kind
  slot_eq : t.slot? = t'.slot?
  start_eq : t.start = t'.start
  stop_eq : t.stop = t'.stop
  unread : ∀ s ∈ textSlots, t.slot? ≠ some s
  noPackage : noPackage t = true ∧ noPackage t' = true
  before : byteLength u.toList = t.start
  content : byteLength u.toList + byteLength v.toList = t.stop
  content' : byteLength v'.toList = byteLength v.toList

/-- The bytes that are not those of the node. -/
def outside (t : Node) (i : Nat) : Bool := !(t.start ≤ i && i < t.stop)

structure Untouched (t : Node) (source : String) (n : Node) : Prop where
  grammatical : n.Grammatical
  aligned : n.everywhere (beginsAt source.toList ·.start) = true
  nonempty : n.start < n.stop
  disjoint : Disjoint n.bytes t.bytes

section Exchanged

variable {u v v' w : String} {unit : UnitRef} {i : Nat}

lemma Swapped.nonempty (hs : Swapped t t' n c) (hn : n.Grammatical) : t.start < t.stop := by
  induction hs with
  | here => exact hn.nonempty_child mem_replaced
  | inside _ _ _ _ _ ih => exact ih (hn.child mem_replaced)

lemma apart_of_disjoint (hn : n.start < n.stop) (ht : t.start < t.stop)
    (hd : Disjoint n.bytes t.bytes) : n.stop ≤ t.start ∨ t.stop ≤ n.start := by
  by_contra hno
  obtain ⟨h, h'⟩ := not_or.mp hno
  have hmax : max n.start t.start ∈ n.bytes := ⟨Nat.le_max_left _ _, by omega⟩
  exact Set.disjoint_left.mp hd hmax ⟨Nat.le_max_right _ _, by omega⟩

lemma Under.nonempty (hu : Under c k n) (hn : n.Grammatical) (hne : n.start < n.stop) :
    c.start < c.stop := by
  induction hu with
  | self => exact hne
  | child hc _ ih => exact ih (hn.child hc) (hn.nonempty_child hc)

namespace Untouched

lemma child (hn : Untouched t (u ++ v ++ w) n) (hc : c ∈ n.children) :
    Untouched t (u ++ v ++ w) c where
  grammatical := hn.grammatical.child hc
  aligned := ((Node.everywhere_iff _ n).mp hn.aligned).2 c hc
  nonempty := hn.grammatical.nonempty_child hc
  disjoint := hn.disjoint.mono_left (hn.grammatical.wellFormed.within hc).bytes_subset

/-- A node that the exchange does not touch reads the same before and after it. -/
lemma slice_eq (hn : Untouched t (u ++ v ++ w) n) (hx : Exchange t t' u v v')
    (ht : t.start < t.stop) (hu : Under c k n) :
    slice (u ++ v ++ w).toList c.start c.stop = slice (u ++ v' ++ w).toList c.start c.stop := by
  have hne := hu.nonempty hn.grammatical hn.nonempty
  have hsub := (hu.within hn.grammatical.wellFormed).bytes_subset
  have haligned : beginsAt (u ++ v ++ w).toList c.start = true :=
    ((Node.everywhere_iff _ c).mp (hu.everywhere hn.aligned)).1
  have hlen := hx.content'
  simp only [String.toList_append] at haligned ⊢
  rcases apart_of_disjoint hne ht (hn.disjoint.mono_left hsub) with h | h
  · rw [List.append_assoc] at haligned
    rw [List.append_assoc, List.append_assoc]
    exact slice_before haligned hne.le (hx.before ▸ h)
  · refine slice_after ?_ ?_ _
    · rw [byteLength_append, byteLength_append, hlen]
    · rwa [byteLength_append, hx.content]

end Untouched

lemma untouched_beside {kind : Kind} {slot : Option Slot} {i j : Nat} {before after : List Node}
    {b : Node} {source : String} (hn : (Node.mk kind slot i j (before ++ c :: after)).Grammatical)
    (ha : (Node.mk kind slot i j (before ++ c :: after)).everywhere
      (beginsAt source.toList ·.start) = true)
    (ht : t.bytes ⊆ c.bytes) (hb : b ∈ before ++ after) : Untouched t source b := by
  have hmem : b ∈ (Node.mk kind slot i j (before ++ c :: after)).children := by
    rcases List.mem_append.mp hb with h | h
    · exact List.mem_append_left _ h
    · exact List.mem_append_right _ (List.mem_cons_of_mem _ h)
  have hpairs : (before ++ c :: after).Pairwise fun a b => Disjoint a.bytes b.bytes :=
    hn.wellFormed.pairwise_disjoint
  have hdisjoint : Disjoint b.bytes c.bytes := by
    obtain ⟨-, hafter, hcross⟩ := List.pairwise_append.mp hpairs
    rcases List.mem_append.mp hb with h | h
    · exact hcross b h c List.mem_cons_self
    · exact ((List.pairwise_cons.mp hafter).1 b h).symm
  exact ⟨hn.child hmem, ((Node.everywhere_iff _ _).mp ha).2 b hmem, hn.nonempty_child hmem,
    hdisjoint.mono_right ht⟩

/-- Two nodes that read the same, but for the content of the node `t`. -/
def AlikeAround (t t' : Node) (source : String) (n n' : Node) : Prop :=
  n = n' ∧ Untouched t source n ∨
    Swapped t t' n n' ∧ n.Grammatical ∧ n.everywhere (beginsAt source.toList ·.start) = true

def GapAt (t t' n c c' : Node) : Prop :=
  c = t ∧ c' = t' ∧ (isBody n t = true ∨ opensScope t = true ∧ opensScope t' = true)

lemma GapAt.kind_mem (hg : GapAt t t' n c c') : t.kind ∈ scopeKinds := by
  rcases hg.2.2 with hb | ⟨ho, -⟩
  · simp only [isBody, Bool.and_eq_true, beq_iff_eq] at hb
    rw [hb.2]
    decide
  · simp only [opensScope, isTypeDeclaration, List.contains_eq_mem, Bool.or_eq_true,
      Bool.and_eq_true, decide_eq_true_eq] at ho
    rw [scopeKinds, List.mem_append]
    rcases ho with ⟨ho, -⟩ | ho
    · exact .inl ho
    · exact .inr ((by decide : ∀ k ∈ _, k ∈ _) _ ho)

lemma GapAt.code (hg : GapAt t t' n c c') (hx : Exchange t t' u v v') :
    t.isRemark = false ∧ t'.isRemark = false := by
  have hk : t.kind ≠ .comment := fun h => absurd (h ▸ hg.kind_mem) (by decide)
  exact ⟨by simp [Node.isRemark, hk], by simp [Node.isRemark, ← hx.kind_eq, hk]⟩

lemma Swapped.likeAt (hs : Swapped t t' n c) (hx : Exchange t t' u v v') (ht : t.start < t.stop)
    (hn : n.Grammatical) (ha : n.everywhere (beginsAt (u ++ v ++ w).toList ·.start) = true) :
    LikeAt (rootPlace unit i (u ++ v ++ w)).text (rootPlace unit i (u ++ v' ++ w)).text True
      (outside t) (outside t) Eq
      (fun c c' => AlikeAround t t' (u ++ v ++ w) c c' ∨ GapAt t t' n c c') n c := by
  cases hs with
  | here before after hr hp ho =>
    have hg : GapAt t t' _ t t' := ⟨rfl, rfl, ho⟩
    have hbeside {b : Node} := untouched_beside (b := b) hn ha (Set.Subset.refl t.bytes)
    refine .replaced (fun b hb => .inl (.inl ⟨rfl, hbeside hb⟩))
      (fun b hb => (hbeside hb).slice_eq hx ht .self) (.inr hg) hx.kind_eq hx.slot_eq (hg.code hx).1
      (hg.code hx).2 (fun s hs => hx.unread s ?_) hr hp
    exact (by decide : ∀ s ∈ [Slot.type, .dimensions], s ∈ textSlots) s hs
  | inside before after hr hp hs =>
    obtain ⟨⟨k, hu⟩, -⟩ := hs.under
    have hsub := (hu.within (hn.child mem_replaced).wellFormed).bytes_subset
    have hbeside {b : Node} := untouched_beside (b := b) hn ha hsub
    refine .replaced (fun b hb => .inl (.inl ⟨rfl, hbeside hb⟩))
      (fun b hb => (hbeside hb).slice_eq hx ht .self) (.inl (.inr ⟨hs, hn.child mem_replaced, ?_⟩))
      hs.kind_eq hs.slot_eq hs.isRemark_eq.1 hs.isRemark_eq.2 (not_read hs.isRead_eq).2.1 hr hp
    exact ((Node.everywhere_iff _ _).mp ha).2 _ mem_replaced

end Exchanged

end Swap

section Locality

variable {tree tree' : Node} {u v v' : String} (unit : UnitRef) (i : Nat) (w : String)

/-- A mention with the declaration that encloses it in the place of its position. -/
def enclosed (o : JavaAtlas.Outline) (m : Mention) : Mention × Option Declaration :=
  ({ m with enclosing := none }, m.enclosing.bind (o.declarations[·]?))

end Locality

end JavaAtlas.Outline
