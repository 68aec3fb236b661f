import JavaAtlas.Workspace
import JavaAtlas.Proofs.Confinement
import Mathlib.Data.Set.Insert

/-! What is taken away when a project is taken out of the workspace. The name of the project is put
behind the path of the session as it is, and a link that the whole path names is looked through: what
stands in the directory it leads to goes too, wherever that is. -/

namespace JavaAtlas

namespace FileTree

/-- The entries at some places go, and no other entry changes. -/
structure Loses (Z : Set Location) (fs fs' : FileTree) : Prop where
  gone : ∀ l ∈ Z, FileTree.entry? fs' l = none
  kept : ∀ l ∉ Z, FileTree.entry? fs' l = fs.entry? l

namespace Loses

variable {Z Z' : Set Location} {fs fs' fs'' : FileTree}

lemma refl : Loses ∅ fs fs := ⟨fun _ hl => hl.elim, fun _ _ => rfl⟩

lemma trans (h : Loses Z fs fs') (h' : Loses Z' fs' fs'') : Loses (Z' ∪ Z) fs fs'' := by
  refine ⟨fun l hl => ?_, fun l hl => ?_⟩
  · by_cases hz : l ∈ Z'
    · exact h'.gone l hz
    · rw [h'.kept l hz, h.gone l (hl.resolve_left hz)]
  · rw [Set.mem_union, not_or] at hl
    rw [h'.kept l hl.1, h.kept l hl.2]

/-- Entries are left out where `keep` says so; the root has none. -/
lemma of_keep (keep : Location → Bool) : Loses {l | l ≠ [] ∧ keep l = false} fs
    { fs with entries := fs.entries.filter fun (l, _) => keep l } := by
  refine ⟨fun l ⟨hl, hk⟩ => ?_, fun l hl => ?_⟩
  · rw [entry?_keep keep hl, hk]
    rfl
  · by_cases hnil : l = []
    · rw [hnil]
      rfl
    · have hk : keep l = true := by simpa [hnil] using hl
      rw [entry?_keep keep hnil, hk]
      rfl

lemma erase {loc : Location} (hl : loc ≠ []) : Loses {loc} fs (fs.erase loc) := by
  have h : Loses _ fs (fs.erase loc) := of_keep (· != loc)
  have hz : {l : Location | l ≠ [] ∧ (l != loc) = false} = {loc} := by
    ext l
    simp only [Set.mem_ofPred_eq, Set.mem_singleton_iff, bne_eq_false_iff_eq]
    exact ⟨And.right, fun h => ⟨h ▸ hl, h⟩⟩
  exact hz ▸ h

lemma clearBelow (target : Location) :
    Loses {l | target <+: l ∧ l ≠ target} fs (fs.clearBelow target) := by
  have h : Loses _ fs (fs.clearBelow target) :=
    of_keep fun l => !(target.isPrefixOf l && l != target)
  have hz : {l : Location | l ≠ [] ∧ (!(target.isPrefixOf l && l != target)) = false} =
      {l | target <+: l ∧ l ≠ target} := by
    ext l
    have hnil : target <+: l → l ≠ target → l ≠ [] := by
      rintro hp hne rfl
      exact hne (List.prefix_nil.mp hp).symm
    simp only [Set.mem_ofPred_eq, Bool.not_eq_false', Bool.and_eq_true, bne_iff_ne,
      List.isPrefixOf_iff_prefix]
    exact ⟨And.right, fun h => ⟨hnil h.1 h.2, h⟩⟩
  exact hz ▸ h

end Loses

variable (fs : FileTree)

variable {fs} {path : String} {place l : Location}

end FileTree

namespace Workspace

open FileTree

/-- A name that leads on to a linked source directory empties that directory. -/
example :
    let files : FileTree := ⟨[(["t"], .dir), (["t", "A.java"], .file [] false), (["s"], .dir),
      (["s", "projects"], .dir), (["s", "projects", "t"], .dir),
      (["s", "projects", "t", "src"], .link "/t")], []⟩
    let w : Workspace := ⟨files, ⟨"0badcafe", "/s", false⟩, .ofWorkspace "/s", .link⟩
    (w.unbind "t/src").files.entry? ["t", "A.java"] = none := by
  decide +kernel

end Workspace

end JavaAtlas
