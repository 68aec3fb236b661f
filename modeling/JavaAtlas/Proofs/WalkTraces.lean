import JavaAtlas.Proofs.OutlineBlocks
import JavaAtlas.Proofs.WalkParts

/-! Where something was gathered. A fact that comes to hold while a node is visited comes to hold at one
of its moves: either the node itself gathers something, or one of the nodes that are visited from it
does. Followed down the tree this leads to the node in whose bytes the thing stands. -/

namespace JavaAtlas.Outline

open Syntax Text

variable {go : Visitor} {p q : Place} {n c b t x : Node} {g g' : Gathered} {h i j k : Nat}
variable {P : Gathered → Prop}

/-- The move, done in that state, sends the walk to a node. -/
inductive Sends (go : Visitor) (g : Gathered) : Move → Place → Node → Gathered → Prop
  | visit {q : Place} {c : Node} : Sends go g (.visit q c) q c g
  | component {d : Declaration} {q : Place} {c : Node} :
      Sends go g (.component d q c) (q.withOwner g.declarations.size) c (g.declare d)
  | body {q : Place} {c b : Node} {before after : List Node} : c.named = before ++ b :: after →
      Sends go g (.body q c) q b (visitAll go q before { g with scopes := [] :: g.scopes })

/-- What the move does of itself. -/
def Move.alone (m : Move) (g : Gathered) : Gathered := m.perform (fun _ _ g => g) g

/-- The state after a list of moves is reached move by move. -/
lemma exists_first {σ α : Type} {step : σ → α → σ} {P : σ → Prop} {l : List α} {s : σ} (h₀ : ¬P s)
    (h₁ : P (l.foldl step s)) : ∃ before a after, l = before ++ a :: after ∧
      ¬P (before.foldl step s) ∧ P (step (before.foldl step s) a) := by
  induction l generalizing s with
  | nil => exact absurd h₁ h₀
  | cons a l ih =>
    by_cases h : P (step s a)
    · exact ⟨[], a, l, rfl, h₀, h⟩
    · obtain ⟨before, b, after, rfl, hb⟩ := ih h h₁
      exact ⟨a :: before, b, after, rfl, hb⟩

def Blind (P : Gathered → Prop) : Prop := ∀ g s, P { g with scopes := s } ↔ P g

lemma Move.first (hP : Blind P) {m : Move} (h₀ : ¬P g) (h₁ : P (m.perform go g)) :
    P (m.alone g) ∨ ∃ q c g', Sends go g m q c g' ∧ ¬P g' ∧ P (go q c g') := by
  cases m with
  | visit q c => exact .inr ⟨q, c, g, .visit, h₀, h₁⟩
  | body q c =>
    have hin : P (visitAll go q c.named { g with scopes := [] :: g.scopes }) := (hP _ g.scopes).mp h₁
    obtain ⟨before, b, after, hb, h, h'⟩ := exists_first (mt (hP g _).mp h₀) hin
    exact .inr ⟨q, b, _, .body hb, h, h'⟩
  | component d q c =>
    by_cases h : P (g.declare d)
    · exact .inl h
    · exact .inr ⟨_, c, _, .component, h, h₁⟩
  | bind | mention | declare | package | imported => exact .inl h₁

/-- The state in which the moves of a node begin. -/
def enter (n : Node) (g : Gathered) : Gathered :=
  if opensScope n then { g with scopes := [] :: g.scopes } else g

def movesAt (p : Place) (n : Node) (g : Gathered) : List Move :=
  moves p n g.declarations.size g.package

lemma visitNode_eq_enter (go : Visitor) (p : Place) (n : Node) (g : Gathered) :
    visitNode go p n g = { perform go (movesAt p n g) (enter n g) with
      scopes := if opensScope n then g.scopes
        else (perform go (movesAt p n g) (enter n g)).scopes } := by
  rw [visitNode_eq, enter]
  split <;> rfl

lemma visitNode_first (hP : Blind P) (h₀ : ¬P g) (h₁ : P (visitNode go p n g)) :
    ∃ before m after, movesAt p n g = before ++ m :: after ∧
      ¬P (perform go before (enter n g)) ∧ P (m.perform go (perform go before (enter n g))) := by
  rw [visitNode_eq_enter, hP] at h₁
  refine exists_first (fun h => h₀ ?_) h₁
  rw [enter] at h
  split at h
  · exact (hP g _).mp h
  · exact h

def Grows (g g' : Gathered) : Prop :=
  g.declarations.toList <+: g'.declarations.toList ∧ g.mentions.toList <+: g'.mentions.toList

namespace Grows

lemma refl (g : Gathered) : Grows g g := ⟨List.prefix_rfl, List.prefix_rfl⟩

lemma trans {g g' g'' : Gathered} (h : Grows g g') (h' : Grows g' g'') : Grows g g'' :=
  ⟨h.1.trans h'.1, h.2.trans h'.2⟩

lemma bind (g : Gathered) (name : String) (l : Local) : Grows g (g.bind name l) := by
  rw [Gathered.bind]
  split <;> exact refl g

lemma record (g : Gathered) (p : Place) (a : Node) (role : Role) (target : Target) :
    Grows g (g.record p a role target) := by
  refine ⟨List.prefix_rfl, ?_⟩
  rw [record_mentions]
  exact List.prefix_append _ _

lemma declare (g : Gathered) (d : Declaration) : Grows g (g.declare d) := by
  refine ⟨?_, List.prefix_rfl⟩
  rw [Gathered.declare, Array.toList_push]
  exact List.prefix_append _ _

lemma foldl {α : Type} {step : Gathered → α → Gathered} (h : ∀ g a, Grows g (step g a)) (l : List α)
    (g : Gathered) : Grows g (l.foldl step g) := by
  induction l generalizing g with
  | nil => exact refl g
  | cons a l ih => exact (h g a).trans (ih (step g a))

end Grows

def Growing (go : Visitor) : Prop := ∀ p n g, Grows g (go p n g)

lemma Move.perform_grows (hgo : Growing go) (m : Move) (g : Gathered) :
    Grows g (m.perform go g) := by
  cases m with
  | visit q c => exact hgo q c g
  | body q c => exact Grows.foldl (fun g b => hgo q b g) c.named { g with scopes := [] :: g.scopes }
  | bind name l => exact .bind g name l
  | mention p a role target =>
    rw [Move.perform]
    split
    · exact .record g p a role _
    · exact .refl g
  | declare d => exact .declare g d
  | component d q c => exact (Grows.declare g d).trans (hgo _ c _)
  | package | imported => exact .refl g

lemma perform_grows (hgo : Growing go) (ms : List Move) (g : Gathered) :
    Grows g (perform go ms g) := Grows.foldl (fun g m => m.perform_grows hgo g) ms g

lemma enter_grows (n : Node) (g : Gathered) : Grows g (enter n g) := by
  rw [enter]
  split <;> exact .refl g

lemma visitNode_grows (hgo : Growing go) : Growing (visitNode go) := by
  intro p n g
  rw [visitNode_eq_enter]
  exact (enter_grows n g).trans (perform_grows hgo (movesAt p n g) (enter n g))

lemma visit_grows (h : Nat) : Growing (visit h) := by
  induction h with
  | zero => exact fun _ _ g => .refl g
  | succ h ih => exact visitNode_grows ih

/-- The walk never leaves its outermost scope. -/
def Open (g : Gathered) : Prop := g.scopes ≠ []

def Opening (go : Visitor) : Prop := ∀ p n g, Open g → Open (go p n g)

lemma Open.bind (hg : Open g) (name : String) (l : Local) : Open (g.bind name l) := by
  rw [Gathered.bind]
  split
  · exact List.cons_ne_nil _ _
  · exact hg

lemma Open.foldl {α : Type} {step : Gathered → α → Gathered} (h : ∀ g a, Open g → Open (step g a))
    (l : List α) (hg : Open g) : Open (l.foldl step g) := by
  induction l generalizing g with
  | nil => exact hg
  | cons a l ih => exact ih (h g a hg)

lemma Move.perform_open (hgo : Opening go) (m : Move) (hg : Open g) : Open (m.perform go g) := by
  cases m with
  | visit q c => exact hgo q c g hg
  | body q c => exact hg
  | bind name l => exact hg.bind name l
  | mention p a role target =>
    rw [Move.perform]
    split <;> exact hg
  | component d q c => exact hgo _ c _ hg
  | declare | package | imported => exact hg

lemma perform_open (hgo : Opening go) (ms : List Move) (hg : Open g) : Open (perform go ms g) :=
  Open.foldl (fun _ m => m.perform_open hgo) ms hg

lemma enter_open (n : Node) (hg : Open g) : Open (enter n g) := by
  rw [enter]
  split
  · exact List.cons_ne_nil _ _
  · exact hg

lemma visitNode_open (hgo : Opening go) : Opening (visitNode go) := by
  intro p n g hg
  rw [visitNode_eq_enter]
  change (if opensScope n then g.scopes else _) ≠ []
  split
  · exact hg
  · exact perform_open hgo _ (enter_open n hg)

lemma visit_open (h : Nat) : Opening (visit h) := by
  induction h with
  | zero => exact fun _ _ _ hg => hg
  | succ h ih => exact visitNode_open ih

namespace Sends

variable {m : Move}

lemma through (hs : Sends go g m q c g') (hm : m.Of p n) : ∃ j, Through n j c ∧ Deeper p j q := by
  cases hs with
  | visit =>
    cases hm with
    | visit ht hq => exact ⟨_, ht, hq⟩
  | component =>
    cases hm with
    | component _ ht hq => exact ⟨0, ht, hq.1, hq.2⟩
  | body hb =>
    cases hm with
    | @body _ c hc hbody hq =>
      have hthrough := Through.child hc
      rw [bodies, if_pos hbody] at hthrough
      refine ⟨1, .next hthrough ?_ (Node.mem_children_of_mem_named (hb ▸ by simp)), hq⟩
      simp only [isBody, Bool.and_eq_true, beq_iff_eq] at hbody
      rw [hbody.2]
      decide

lemma grows (hs : Sends go g m q c g') (hgo : Growing go) : Grows (go q c g') (m.perform go g) := by
  cases hs with
  | visit => exact .refl _
  | component => exact .refl _
  | body hb =>
    rw [Move.perform, hb]
    simp only [visitAll, Gathered.inScope, List.foldl_append, List.foldl_cons]
    exact Grows.foldl (fun g b => hgo q b g) _ _

lemma «open» (hs : Sends go g m q c g') (hgo : Opening go) (hg : Open g) : Open g' := by
  cases hs with
  | visit => exact hg
  | component => exact hg
  | body _ => exact Open.foldl (fun g b hg => hgo q b g hg) _ (List.cons_ne_nil _ _)

end Sends

/-- What comes to hold is done by one of the moves, or below one of them. -/
lemma visit_first (hP : Blind P) (h₀ : ¬P g) (h₁ : P (visit (h + 1) p n g)) :
    ∃ before m after, movesAt p n g = before ++ m :: after ∧
      ¬P (perform (visit h) before (enter n g)) ∧
      (P (m.alone (perform (visit h) before (enter n g))) ∨
        ∃ q c g', Sends (visit h) (perform (visit h) before (enter n g)) m q c g' ∧ ¬P g' ∧
          P (visit h q c g') ∧ Grows (visit h q c g') (visit (h + 1) p n g) ∧
          (Open g → Open g')) := by
  obtain ⟨before, m, after, heq, hb, hm⟩ := visitNode_first hP h₀ h₁
  refine ⟨before, m, after, heq, hb, ?_⟩
  rcases Move.first hP hb hm with hown | ⟨q, c, g', hs, hno, hyes⟩
  · exact .inl hown
  · refine .inr ⟨q, c, g', hs, hno, hyes, (hs.grows (visit_grows _)).trans ?_, fun hg => ?_⟩
    · change Grows _ (visitNode (visit h) p n g)
      rw [visitNode_eq_enter, heq, perform_append, perform_cons]
      exact perform_grows (visit_grows _) after _
    · exact hs.«open» (visit_open _) (perform_open (visit_open _) before (enter_open n hg))

/-- What comes to hold is done by a move of a node at which the walk stands. Whatever is handed on from
move to move, beginning where the walk begins, holds there. -/
lemma exists_move_where {R : Place → Node → Prop}
    (hR : ∀ {go : Visitor} {p q : Place} {n c : Node} {g g' g'' : Gathered} {m : Move}, R p n →
      m ∈ movesAt p n g → Sends go g' m q c g'' → R q c)
    (hP : Blind P) (hr : R p n) (h₀ : ¬P g) (h₁ : P (visit h p n g)) :
    ∃ p' n' g' m g'', R p' n' ∧ m ∈ movesAt p' n' g' ∧ ¬P g'' ∧ P (m.alone g'') := by
  induction h generalizing p n g with
  | zero => exact absurd h₁ h₀
  | succ h ih =>
    obtain ⟨before, m, after, heq, hb, hm⟩ := visit_first hP h₀ h₁
    have hmem : m ∈ movesAt p n g := heq ▸ by simp
    rcases hm with hown | ⟨q, c, g', hs, hno, hyes, -, -⟩
    · exact ⟨p, n, g, m, _, hr, hmem, hb, hown⟩
    · exact ih (hR hr hmem hs) hno hyes

/-- What comes to hold is done by a move of some node. -/
lemma exists_move (hP : Blind P) (h₀ : ¬P g) (h₁ : P (visit h p n g)) :
    ∃ p' n' k m g', Under n' k n ∧ Deeper p k p' ∧ Move.Of p' n' m ∧ ¬P g' ∧ P (m.alone g') := by
  obtain ⟨p', n', g', m, g'', ⟨k, hu, hd⟩, hm, hno, hyes⟩ := exists_move_where
    (R := fun q c => ∃ k, Under c k n ∧ Deeper p k q) (fun ⟨k, hu, hd⟩ hm hs => by
      obtain ⟨j, hthrough, hq⟩ := hs.through (of_moves _ _ _ _ _ hm)
      exact ⟨k + j, hu.trans hthrough.isUnder, hd.trans hq⟩)
    hP ⟨0, .self, deeper_self p⟩ h₀ h₁
  exact ⟨p', n', k, m, g'', hu, hd, of_moves p' n' _ _ m hm, hno, hyes⟩

/-- What comes to hold stands at a byte: that of a word in the node that does it. -/
structure Traced (P : Gathered → Prop) (i : Nat) : Prop where
  blind : Blind P
  alone : ∀ {p : Place} {n : Node} {m : Move} {g : Gathered}, n.Grammatical → Plain n → m.Of p n →
    ¬P g → P (m.alone g) → ∃ a, TokenOf n a ∧ i ∈ a.bytes

namespace Traced

lemma within (hP : Traced P i) (hn : n.Grammatical) (hp : Plain n) (h₀ : ¬P g)
    (h₁ : P (visit h p n g)) : i ∈ n.bytes := by
  induction h generalizing p n g with
  | zero => exact absurd h₁ h₀
  | succ h ih =>
    obtain ⟨before, m, after, heq, hb, hm⟩ := visit_first hP.blind h₀ h₁
    have hof : m.Of p n := of_moves p n _ _ m (show m ∈ movesAt p n g from heq ▸ by simp)
    rcases hm with hown | ⟨q, c, g', hs, hno, hyes, -, -⟩
    · obtain ⟨a, ha, hi⟩ := hP.alone hn hp hof hb hown
      exact (ha.within hn.wellFormed).bytes_subset hi
    · obtain ⟨j, hthrough, -⟩ := hs.through hof
      have hi := ih (hthrough.everywhere hn) (hthrough.everywhere hp) hno hyes
      exact (hthrough.within hn.wellFormed).bytes_subset hi

/-- What comes to hold in the bytes of a node comes to hold when that node is visited. -/
theorem reaches (hP : Traced P i) (hn : n.Grammatical) (hp : Plain n) (ht : Under t k n)
    (hkids : t.children ≠ []) (hkind : t.kind ∉ passedKinds) (hi : i ∈ t.bytes)
    (hh : n.height ≤ h) (hg : Open g) (h₀ : ¬P g) (h₁ : P (visit h p n g)) :
    ∃ h' q g', t.height ≤ h' ∧ Deeper p k q ∧ Open g' ∧ ¬P g' ∧ P (visit h' q t g') ∧
      Grows (visit h' q t g') (visit h p n g) := by
  induction h generalizing p n g k with
  | zero => exact absurd h₁ h₀
  | succ h ih =>
    by_cases hself : t = n ∧ k = 0
    · obtain ⟨rfl, rfl⟩ := hself
      exact ⟨h + 1, p, g, hh, deeper_self p, hg, h₀, h₁, .refl _⟩
    obtain ⟨before, m, after, heq, hb, hm⟩ := visit_first hP.blind h₀ h₁
    have hof : m.Of p n := of_moves p n _ _ m (show m ∈ movesAt p n g from heq ▸ by simp)
    rcases hm with hown | ⟨q, c, g', hs, hno, hyes, hgrows, hopen⟩
    · obtain ⟨a, ha, hia⟩ := hP.alone hn hp hof hb hown
      exact absurd (ha.absurd_under hn.wellFormed ht hkids hkind hi hia) hself
    · obtain ⟨j, hthrough, hq⟩ := hs.through hof
      have hgc : c.Grammatical := hthrough.everywhere hn
      have hpc : Plain c := hthrough.everywhere hp
      have hic := hP.within hgc hpc hno hyes
      rcases hthrough.under hn.wellFormed ht hi hic with he | hpass | ⟨l, rfl, hl⟩
      · exact absurd he hself
      · exact absurd hpass hkind
      · have hlt := hthrough.height_lt
        obtain ⟨h₂, q₂, g₂, hh₂, hq₂, hg₂, hno₂, hyes₂, hgrows₂⟩ :=
          ih hgc hpc hl (by omega) (hopen hg) hno hyes
        exact ⟨h₂, q₂, g₂, hh₂, hq.trans hq₂, hg₂, hno₂, hyes₂, hgrows₂.trans hgrows⟩

end Traced

section Instances

lemma mem_declare {d e : Declaration} :
    e ∈ (g.declare d).declarations.toList ↔ e ∈ g.declarations.toList ∨ e = d := by
  simp [Gathered.declare]

lemma eq_of_getElem?_concat {α : Type} {l : List α} {a b : α} (h₀ : l[k]? ≠ some b)
    (h₁ : (l ++ [a])[k]? = some b) : b = a := by
  rcases Nat.lt_or_ge k l.length with hk | hk
  · rw [List.getElem?_append_left hk] at h₁
    exact absurd h₁ h₀
  · rw [List.getElem?_append_right hk] at h₁
    exact List.mem_singleton.mp (List.mem_of_getElem? h₁)

lemma alone_body {q : Place} {c : Node} : (Move.body q c).alone g = g := by
  have hidle (ns : List Node) (g : Gathered) : visitAll (fun _ _ g => g) q ns g = g := by
    induction ns generalizing g with
    | nil => rfl
    | cons b ns ih => exact ih g
  simp only [Move.alone, Move.perform, Gathered.inScope, hidle]

lemma alone_declares_at {m : Move} {d : Declaration} (h₀ : g.declarations.toList[k]? ≠ some d)
    (h₁ : (m.alone g).declarations.toList[k]? = some d) :
    m = .declare d ∨ ∃ q c, m = .component d q c := by
  cases m with
  | declare e =>
    obtain rfl := eq_of_getElem?_concat h₀ (by simpa [Move.alone, Move.perform, Gathered.declare] using h₁)
    exact .inl rfl
  | component e q c =>
    obtain rfl := eq_of_getElem?_concat h₀ (by simpa [Move.alone, Move.perform, Gathered.declare] using h₁)
    exact .inr ⟨q, c, rfl⟩
  | body q c =>
    rw [alone_body] at h₁
    exact absurd h₁ h₀
  | bind name l =>
    simp only [Move.alone, Move.perform, Gathered.bind_declarations] at h₁
    exact absurd h₁ h₀
  | mention p a role target =>
    simp only [Move.alone, Move.perform] at h₁
    split at h₁
    · exact absurd h₁ h₀
    · exact absurd h₁ h₀
  | visit | package | imported => exact absurd h₁ h₀

lemma alone_mentions_at {m : Move} {μ : Mention} (h₀ : g.mentions.toList[k]? ≠ some μ)
    (h₁ : (m.alone g).mentions.toList[k]? = some μ) : ∃ p a role target t,
      m = .mention p a role target ∧ target g = some t ∧ μ = mentionAt p a role t := by
  cases m with
  | mention p a role target =>
    simp only [Move.alone, Move.perform] at h₁
    split at h₁
    · next t ht =>
      rw [record_mentions] at h₁
      exact ⟨p, a, role, target, t, rfl, ht, eq_of_getElem?_concat h₀ h₁⟩
    · exact absurd h₁ h₀
  | body q c =>
    rw [alone_body] at h₁
    exact absurd h₁ h₀
  | bind name l =>
    simp only [Move.alone, Move.perform, Gathered.bind] at h₁
    split at h₁ <;> exact absurd h₁ h₀
  | visit | declare | component | package | imported => exact absurd h₁ h₀

lemma alone_declares {m : Move} {d : Declaration} (h₀ : d ∉ g.declarations.toList)
    (h₁ : d ∈ (m.alone g).declarations.toList) : m = .declare d ∨ ∃ q c, m = .component d q c := by
  obtain ⟨k, hk⟩ := List.mem_iff_getElem?.mp h₁
  exact alone_declares_at (fun h => h₀ (List.mem_of_getElem? h)) hk

lemma alone_mentions {m : Move} {μ : Mention} (h₀ : μ ∉ g.mentions.toList)
    (h₁ : μ ∈ (m.alone g).mentions.toList) : ∃ p a role target t,
      m = .mention p a role target ∧ target g = some t ∧ μ = mentionAt p a role t := by
  obtain ⟨k, hk⟩ := List.mem_iff_getElem?.mp h₁
  exact alone_mentions_at (fun h => h₀ (List.mem_of_getElem? h)) hk

lemma token_declarator (hn : n.Grammatical) (hp : Plain n) (hx : x ∈ declaredNames n) :
    TokenOf n x := by
  obtain ⟨c, hc, hname⟩ := List.mem_filterMap.mp hx
  have hck : c.kind = .variableDeclarator := eq_of_beq (List.mem_filter.mp hc).2
  have hm := mem_children_of_declarators hc
  have hpl := (hp.child hm).here
  simp only [plain, hck, hname, Option.all_some, List.contains_eq_mem, decide_eq_true_eq,
    List.mem_cons, List.not_mem_nil, or_false] at hpl
  refine .of_through hn hp (.next (.child hm) ?_ (Node.mem_children_of_child? hname)) ?_
  · rw [hck]; decide
  · rcases hpl with h | h <;> rw [h] <;> decide

lemma declaredBy_token {d : Declaration} (h : DeclaredBy p n x d) (hn : n.Grammatical)
    (hp : Plain n) : TokenOf n x ∧ d.element.nameOffset = some x.start ∧
      d.element.nameLength = x.length := by
  have hnamed (hk : n.kind ∈ declaringKinds) (hx : n.child? .name = some x) : TokenOf n x := by
    have hf := Fits.of_grammatical hn
    have hxk := hf.namedByIdentifier hk trivial x hx
    exact token_slot hn hp hx (by rw [hxk]; decide)
  cases h with
  | type ht hx =>
    have hkinds : ∀ k ∈ typeKinds, k ∈ declaringKinds := by decide
    exact ⟨hnamed (hkinds _ (List.contains_iff_mem.mp ht)) hx, rfl, rfl⟩
  | method hk hx _ _ =>
    have hkinds : ∀ k ∈ methodKinds, k ∈ declaringKinds := by decide
    exact ⟨hnamed (hkinds _ hk) hx, rfl, rfl⟩
  | field _ hx _ _ => exact ⟨token_declarator hn hp hx, rfl, rfl⟩
  | constant hk hx _ => exact ⟨hnamed (by rw [hk]; decide) hx, rfl, rfl⟩
  | @component _ c _ _ hps hpsk hc hck hx _ hd hl =>
    have hthrough : Through n _ c := .next (.child hps) (by rw [hpsk]; decide) hc
    have hpc : Plain c := hthrough.everywhere hp
    have hpl := hpc.here
    simp only [plain, hck, hx, Option.all_some, List.contains_eq_mem, decide_eq_true_eq,
      List.mem_cons, List.not_mem_nil, or_false] at hpl
    refine ⟨.of_through hn hp (.next hthrough ?_ (Node.mem_children_of_child? hx)) ?_, hd, hl⟩
    · rw [hck]; decide
    · rcases hpl with h | h <;> rw [h] <;> decide

lemma of_declares {m : Move} {d : Declaration} (hm : m.Of p n)
    (h : m = .declare d ∨ ∃ q c, m = .component d q c) : ∃ x, DeclaredBy p n x d := by
  rcases h with rfl | ⟨q, c, rfl⟩
  · cases hm with
    | declare h => exact ⟨_, h⟩
  · cases hm with
    | component h _ _ => exact ⟨_, h⟩

lemma traced_declaration_at {d : Declaration} (hd : d.element.nameOffset = some i) (k : Nat) :
    Traced (fun g => g.declarations.toList[k]? = some d) i where
  blind _ _ := Iff.rfl
  alone hn hp hm h₀ h₁ := by
    obtain ⟨x, hx⟩ := of_declares hm (alone_declares_at h₀ h₁)
    obtain ⟨htok, hoff, -⟩ := declaredBy_token hx hn hp
    obtain rfl := Option.some.inj (hoff.symm.trans hd)
    exact ⟨x, htok, Nat.le_refl _, htok.nonempty⟩

lemma traced_mention_at {μ : Mention} (hi : i ∈ μ.bytes) (k : Nat) :
    Traced (fun g => g.mentions.toList[k]? = some μ) i where
  blind _ _ := Iff.rfl
  alone hn hp hm h₀ h₁ := by
    obtain ⟨q, a, role, target, t, rfl, -, rfl⟩ := alone_mentions_at h₀ h₁
    cases hm with
    | mention _ htok _ _ => exact ⟨a, htok hn hp, mentionAt_bytes_subset _ a role t hi⟩

lemma Traced.of_getElem? {α : Type} {all : Gathered → List α} {a : α}
    (h : ∀ k : Nat, Traced (fun g => (all g)[k]? = some a) i) : Traced (fun g => a ∈ all g) i where
  blind g s := by
    simp only [List.mem_iff_getElem?]
    exact exists_congr fun k => (h k).blind g s
  alone hn hp hm h₀ h₁ := by
    obtain ⟨k, hk⟩ := List.mem_iff_getElem?.mp h₁
    exact (h k).alone hn hp hm (fun h => h₀ (List.mem_of_getElem? h)) hk

lemma traced_declaration {d : Declaration} (hd : d.element.nameOffset = some i) :
    Traced (fun g => d ∈ g.declarations.toList) i :=
  .of_getElem? (traced_declaration_at hd)

lemma traced_mention {μ : Mention} (hi : i ∈ μ.bytes) :
    Traced (fun g => μ ∈ g.mentions.toList) i :=
  .of_getElem? (traced_mention_at hi)

end Instances

end JavaAtlas.Outline
