import JavaAtlas.Proofs.DeclaredMembers
import JavaAtlas.Proofs.SearchSelection

/-! Two ways to the element around a use: the walk keeps the owner of what it mentions, and the index
looks for the shortest declaration around a byte. They lead to the same element. -/

namespace JavaAtlas.Outline

variable {tidy strict : Prop} {ref : UnitRef} {unit : Nat} {owner : Option Placed} {S : Set Nat}
variable {base i k : Nat} {ds ds' : List Declaration} {ms : List Mention} {d e : Declaration}
variable {m : Mention}

/-- Of the declarations around a byte the one at position `k` is the shortest, and the first of the
shortest. -/
def Innermost (ds : List Declaration) (i k : Nat) (d : Declaration) : Prop :=
  ∀ (j : Nat) (e : Declaration), ds[j]? = some e → i ∈ e.range →
    d.stop - d.start < e.stop - e.start ∨ e.start = d.start ∧ e.stop = d.stop ∧ k ≤ j

namespace Innermost

lemma append_left (h : Innermost ds i k d) (hout : ∀ e ∈ ds', i ∉ e.range) :
    Innermost (ds ++ ds') i k d := by
  intro j e hj hi
  rcases Nat.lt_or_ge j ds.length with hlt | hge
  · exact h j e ((List.getElem?_append_left hlt).symm.trans hj) hi
  · rw [List.getElem?_append_right hge] at hj
    exact (hout e (List.mem_of_getElem? hj) hi).elim

lemma append_right (h : Innermost ds' i k d)
    (hlong : ∀ e ∈ ds, i ∈ e.range → d.stop - d.start < e.stop - e.start) :
    Innermost (ds ++ ds') i (ds.length + k) d := by
  intro j e hj hi
  rcases Nat.lt_or_ge j ds.length with hlt | hge
  · rw [List.getElem?_append_left hlt] at hj
    exact .inl (hlong e (List.mem_of_getElem? hj) hi)
  · rw [List.getElem?_append_right hge] at hj
    refine (h _ e hj hi).imp_right fun ⟨hstart, hstop, hle⟩ => ⟨hstart, hstop, ?_⟩
    omega

end Innermost

end JavaAtlas.Outline

namespace JavaAtlas.Index

open Binding Outline

variable {files : List ParsedFile} {d e : Declaration} {u : Use} {index : Index}

def around (unit offset : Nat) (d : Declaration) : Bool :=
  d.unit == unit && d.start ≤ offset && offset < d.stop

end JavaAtlas.Index
