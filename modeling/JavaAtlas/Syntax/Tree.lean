import JavaAtlas.Syntax.Grammar
import JavaAtlas.Syntax.Lexer

/-!
From the text of a source file to its syntax tree. The grammar sees no comments; they are put into
the finished tree.
-/

namespace JavaAtlas.Syntax

namespace Node

mutual

/-- Puts comments, given in order, among the children of a node. -/
def weave (comments : List Token) : Node → Node
  | mk kind slot start stop children => mk kind slot start stop (weaveList comments children)

/-- Puts comments, given in order, before, into and between neighbouring nodes. -/
def weaveList (comments : List Token) : List Node → List Node
  | [] => comments.map (·.leaf .comment)
  | n :: ns =>
    let before := comments.takeWhile (·.start < n.start)
    let others := comments.dropWhile (·.start < n.start)
    before.map (·.leaf .comment) ++
      weave (others.takeWhile (·.start < n.stop)) n ::
        weaveList (others.dropWhile (·.start < n.stop)) ns

end

/-- Widens a node to cover all its children. -/
def covering : Node → Node
  | mk kind slot start stop children =>
    mk kind slot (min start ((children.head?.map Node.start).getD start))
      (max stop ((children.getLast?.map Node.stop).getD stop)) children

end Node

/-- Enough fuel to read any file with that many tokens. -/
def fuelFor (tokens : List Token) : Nat := 400 * (tokens.length + 4)

/-- The tree of the tokens, as far as they follow the grammar. -/
def parseTokens (tokens : List Token) : Node :=
  match Form.read Rule.body (fuelFor tokens) (.rule .program) [] tokens with
  | some (tree :: _, _) => tree
  | _ => .mk .program none 0 0 []

/-- The tree is one of the nodes that the rule for a whole file leaves, or the empty program. -/
theorem parseTokens_of {P : Node → Prop} {tokens : List Token} (hempty : P (.mk .program none 0 0 []))
    (h : ∀ fuel r, Form.Reads Rule.body fuel (.rule .program) [] tokens r → ∀ m ∈ r.1, P m) :
    P (parseTokens tokens) := by
  unfold parseTokens
  split
  · next hread => exact h _ _ (Form.reads_of_read hread) _ List.mem_cons_self
  · exact hempty

theorem kind_parseTokens (tokens : List Token) :
    (parseTokens tokens).kind = .program ∧ (parseTokens tokens).slot? = none := by
  refine parseTokens_of (P := fun n => n.kind = .program ∧ n.slot? = none) ⟨rfl, rfl⟩ fun _ _ h => ?_
  cases h with
  | rule hbody =>
    cases hbody with
    | node => exact List.forall_mem_singleton.mpr ⟨rfl, rfl⟩

/-- The children of the tree are what is read as the parts of a file. -/
theorem children_parseTokens (tokens : List Token) : (parseTokens tokens).children =
    ((Form.read Rule.body (fuelFor tokens - 2) (.many (.rule .topLevel)) [] tokens).elim []
      fun r => r.1.reverse) := by
  obtain ⟨k, hk⟩ : ∃ k, fuelFor tokens = k + 2 := ⟨400 * (tokens.length + 4) - 2, by rw [fuelFor]; omega⟩
  have hroot : Form.read Rule.body (k + 2) (.rule .program) [] tokens =
      (Form.read Rule.body k (.many (.rule .topLevel)) [] tokens).map fun r =>
        ([Node.ofReversed .program ((tokens.head?.map (·.start)).getD 0) r.1], r.2) := by
    simp only [Form.read, Rule.body]
    cases Form.read Rule.body k (.many (.rule .topLevel)) [] tokens <;> rfl
  unfold parseTokens
  rw [hk, hroot, Nat.add_sub_cancel]
  cases Form.read Rule.body k (.many (.rule .topLevel)) [] tokens <;> rfl

/-- The syntax tree of a source file. Its root also covers the comments before and after all else. -/
def parse (source : List Char) : Node :=
  let (comments, tokens) := (lex source).partition (·.cls == .comment)
  ((parseTokens tokens).weave comments).covering

end JavaAtlas.Syntax
