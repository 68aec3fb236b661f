import JavaAtlas.Proofs.LegibleNames
import JavaAtlas.Proofs.LikeWalks
import JavaAtlas.Proofs.OutlineNesting

/-! The outline of a file depends on its position in the project only where its declarations say that
position, and the identifier of a member shows which type it belongs to. -/

namespace JavaAtlas.Outline

open Syntax Text List

def readable (source : List Char) (n : Node) : Prop :=
  n.All fun m => m.isName = true → NameText (slice source m.start m.stop).toList

/-- A file read twice, for two positions of the project. -/
def renumbering (unit : UnitRef) (i k : Nat) (source : String) : Likeness where
  left := rootPlace unit i source
  right := rootPlace unit k source
  exact := True
  seen _ := true
  seen' _ := true
  written := Eq
  legible s := NameText s.toList
  node n n' := n = n' ∧ readable source.toList n
  gap _ _ _ := False
  gap_at := .of_false
  veiled := veiled_of_false
  alike := by
    rintro n _ ⟨rfl, hn⟩
    have hc := ((Node.all_iff n).mp hn).2
    exact .same (fun _ => rfl) (fun _ => rfl) (fun c hm => .inl ⟨rfl, hc c hm⟩)
      (fun _ => ⟨rfl, rfl⟩) fun _ => ⟨rfl, rfl⟩
  legible_name := by
    rintro n _ ⟨rfl, hn⟩ hname
    exact ((Node.all_iff n).mp hn).1 hname
  legible_append := by
    intro a b ha hb
    rw [String.toList_append, String.toList_append]
    exact ha.append hb
  written_refl _ := rfl
  written_erase := congrArg eraseType
  written_var := Eq.congr_left

variable {unit : UnitRef} {i k : Nat} {source : String} {d d' : Declaration}

lemma ofSource_alike (unit : UnitRef) (i k : Nat) (source : String) :
    Alike (renumbering unit i k source) (JavaAtlas.Outline.ofSource unit i source)
      (JavaAtlas.Outline.ofSource unit k source) :=
  ofTree_alike _ rfl rfl ⟨rfl, parse_nameText source.toList⟩

lemma renumbering_whole (unit : UnitRef) (i k : Nat) (source : String) :
    (renumbering unit i k source).Whole := ⟨fun _ => rfl, fun _ => rfl, fun _ _ _ h => h⟩

lemma renumbering_literal (unit : UnitRef) (i k : Nat) (source : String) :
    (renumbering unit i k source).Literal := ⟨trivial, id, rfl⟩

lemma declarations_ofSource (unit : UnitRef) (i k : Nat) (source : String) :
    (JavaAtlas.Outline.ofSource unit k source).declarations =
      (JavaAtlas.Outline.ofSource unit i source).declarations.map (·.inUnit k) := by
  have hd := ((ofSource_alike unit i k source).declarations_of_whole
    (renumbering_whole unit i k source)).imp fun _ _ h => h.eq (renumbering_literal unit i k source)
  have heq := forall₂_map_left_iff.mpr hd
  rw [forall₂_eq_eq_eq] at heq
  exact heq.symm

lemma mentions_ofSource (unit : UnitRef) (i k : Nat) (source : String) :
    (JavaAtlas.Outline.ofSource unit k source).mentions =
      (JavaAtlas.Outline.ofSource unit i source).mentions := by
  have hm := ((ofSource_alike unit i k source).mentions_of_whole
    (renumbering_whole unit i k source)).imp fun m m' h => (show m = m' from ?_)
  · rw [forall₂_eq_eq_eq] at hm
    exact hm.symm
  · have henclosing : m.enclosing = m'.enclosing := by
      have ho := h.enclosing
      generalize m.enclosing = o, m'.enclosing = o' at ho
      cases ho with
      | none => rfl
      | some ho => exact congrArg some ho
    rw [← h.eq (renumbering_literal unit i k source), ← henclosing]

/-- What the identifier of a declaration shows. -/
structure Marked (d : Declaration) : Prop where
  type : d.element.kind.isType = true → NameText d.id.toList
  member : d.element.kind.isType = false → ∃ type tail, d.element.declaringType = some type ∧
    NameText type.toList ∧ NameText d.element.name.toList ∧
    d.id = type ++ "#" ++ d.element.name ++ tail ∧ IsTail d.element.kind tail

lemma marked_of_mem (h : d ∈ (JavaAtlas.Outline.ofSource unit i source).declarations) : Marked d := by
  have hd := (ofSource_alike unit i i source).declarations_of_whole (renumbering_whole unit i i source)
  generalize (JavaAtlas.Outline.ofSource unit i source).declarations = ds at h hd
  have hall : ∀ d ∈ ds, Marked d := by
    intro d hd'
    have hself := forall₂_same.mp hd d hd'
    exact ⟨hself.legible, hself.member⟩
  exact hall d h

lemma append_hash (a b c : String) : (a ++ "#" ++ b ++ c).toList = a.toList ++ '#' :: (b ++ c).toList := by
  simp [String.toList_append]

/-- Declarations with one identifier are of one type or members of one type. -/
lemma Marked.same_type (hd : Marked d) (hd' : Marked d') (hid : d.id = d'.id) :
    (d.element.kind.isType = true ∧ d'.element.kind.isType = true) ∨
      (d.element.kind.isType = false ∧ d'.element.kind.isType = false ∧
        d.element.declaringType = d'.element.declaringType) := by
  have hnever {e e' : Declaration} (he : Marked e) (he' : Marked e') (hid : e.id = e'.id)
      (ht : e.element.kind.isType = true) (ht' : e'.element.kind.isType = false) : False := by
    obtain ⟨type, tail, -, hl, -, hid', -⟩ := he'.member ht'
    have htext : e.id.toList ++ '#' :: [] =
        type.toList ++ '#' :: ((e'.element.name ++ tail).toList ++ ['#']) := by
      rw [hid, hid', append_hash]
      simp
    have heq := (he.type ht).legible.cancel hl.legible htext
    have hlen := congrArg List.length htext
    rw [heq] at hlen
    simp at hlen
  cases ht : d.element.kind.isType with
  | true =>
    cases ht' : d'.element.kind.isType with
    | true => exact .inl ⟨rfl, rfl⟩
    | false => exact (hnever hd hd' hid ht ht').elim
  | false =>
    cases ht' : d'.element.kind.isType with
    | true => exact (hnever hd' hd hid.symm ht' ht).elim
    | false =>
      obtain ⟨type, tail, htype, hl, -, hid₁, -⟩ := hd.member ht
      obtain ⟨type', tail', htype', hl', -, hid₂, -⟩ := hd'.member ht'
      have htext : type.toList ++ '#' :: (d.element.name ++ tail).toList =
          type'.toList ++ '#' :: (d'.element.name ++ tail').toList := by
        rw [← append_hash, ← append_hash, ← hid₁, ← hid₂, hid]
      have heq : type = type' := String.toList_injective (hl.legible.cancel hl'.legible htext)
      exact .inr ⟨rfl, rfl, by rw [htype, htype', heq]⟩

end JavaAtlas.Outline
