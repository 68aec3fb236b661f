import JavaAtlas.Proofs.LikeMoves
import JavaAtlas.Proofs.WalkTraces

/-! Walks over trees that are alike gather outlines that are alike, as far as these are seen: one step
for each kind of move, and an induction over the height. -/

namespace JavaAtlas.Outline

open Syntax Text List

def seenDeclarations (seen : Nat → Bool) (ds : List Declaration) : List Declaration :=
  ds.filter (·.element.nameOffset.all seen)

def seenMentions (seen : Nat → Bool) (ms : List Mention) : List Mention :=
  ms.filter (seen ·.offset)

/-- Whether what the move visits is no higher than that. -/
def Move.Below (h : Nat) : Move → Prop
  | .visit _ c | .body _ c | .component _ _ c => c.height ≤ h
  | _ => True

lemma Move.Of.below {p : Place} {n : Node} {m : Move} {h : Nat} (hm : m.Of p n)
    (hh : n.height ≤ h + 1) : m.Below h := by
  cases hm with
  | visit ht _ =>
    have hlt := ht.height_lt
    exact Nat.le_of_lt_succ (hlt.trans_le hh)
  | body hc _ _ =>
    have hlt := Node.height_lt_of_mem hc
    exact Nat.le_of_lt_succ (hlt.trans_le hh)
  | component _ ht _ =>
    have hlt := ht.height_lt
    exact Nat.le_of_lt_succ (hlt.trans_le hh)
  | bind | mention | declare | package | imported => exact trivial

lemma visit_comment {c : Node} (hc : c.kind = .comment) (h : Nat) (p : Place) (g : Gathered) :
    visit h p c g = g := by
  cases h with
  | zero => rfl
  | succ h => simp only [visit, visitNode, hc]

lemma perform_code (h : Nat) (ms : List Move) (g : Gathered) :
    perform (visit h) (ms.filter (!·.isRemark)) g = perform (visit h) ms g := by
  induction ms generalizing g with
  | nil => rfl
  | cons m ms ih =>
    cases hr : m.isRemark with
    | false => rw [filter_cons_of_pos (by simp [hr]), perform_cons, perform_cons, ih]
    | true =>
      rw [filter_cons_of_neg (by simp [hr]), perform_cons, ih]
      cases m with
      | visit q c => rw [Move.perform, visit_comment (by simpa [Move.isRemark] using hr)]
      | body | bind | mention | declare | component | package | imported => cases hr

namespace Likeness

variable {L : Likeness} {own : Nat → Nat → Prop} {h h' i i' : Nat} {p p' q q' : Place}
variable {n n' c c' : Node} {ns ns' : List Node} {g g' k k' : Gathered}

/-- The positions of one declaration in the two files, which is seen in both of them. -/
structure Same (L : Likeness) (ds ds' : List Declaration) (i i' : Nat) : Prop where
  left : ∃ d, ds[i]? = some d ∧ d.element.nameOffset.all L.seen = true
  right : ∃ d, ds'[i']? = some d ∧ d.element.nameOffset.all L.seen' = true
  rank_eq : (seenDeclarations L.seen (ds.take i)).length =
    (seenDeclarations L.seen' (ds'.take i')).length

lemma Same.mono {ds ds' es es' : List Declaration} (hs : L.Same ds ds' i i') (hd : ds <+: es)
    (hd' : ds' <+: es') : L.Same es es' i i' := by
  obtain ⟨more, rfl⟩ := hd
  obtain ⟨more', rfl⟩ := hd'
  obtain ⟨d, hi, hseen⟩ := hs.left
  obtain ⟨d', hi', hseen'⟩ := hs.right
  have hlt := (List.getElem?_eq_some_iff.mp hi).1
  have hlt' := (List.getElem?_eq_some_iff.mp hi').1
  refine ⟨⟨d, by rwa [getElem?_append_left hlt], hseen⟩,
    ⟨d', by rwa [getElem?_append_left hlt'], hseen'⟩, ?_⟩
  rw [take_append_of_le_length hlt.le, take_append_of_le_length hlt'.le]
  exact hs.rank_eq

/-- The declaration that both positions mean is the same. -/
lemma Same.declared {ds ds' : List Declaration} (hs : L.Same ds ds' i i')
    (hd : Forall₂ L.Declared (seenDeclarations L.seen ds) (seenDeclarations L.seen' ds')) :
    ∃ d d', ds[i]? = some d ∧ ds'[i']? = some d' ∧ L.Declared d d' := by
  have hplace {seen : Nat → Bool} {ds : List Declaration} {i : Nat} {d : Declaration}
      (hi : ds[i]? = some d) (hseen : d.element.nameOffset.all seen = true) :
      (seenDeclarations seen ds)[(seenDeclarations seen (ds.take i)).length]? = some d := by
    obtain ⟨hlt, rfl⟩ := List.getElem?_eq_some_iff.mp hi
    have hsplit : ds = ds.take i ++ ds[i] :: ds.drop (i + 1) := by
      rw [← List.drop_eq_getElem_cons hlt, take_append_drop]
    have hkept : seenDeclarations seen ds = seenDeclarations seen (ds.take i) ++
        ds[i] :: seenDeclarations seen (ds.drop (i + 1)) := by
      conv_lhs => rw [hsplit]
      rw [seenDeclarations, filter_append, filter_cons_of_pos (by exact hseen)]
      rfl
    rw [hkept, getElem?_append_right (Nat.le_refl _), Nat.sub_self]
    rfl
  obtain ⟨d, hi, hseen⟩ := hs.left
  obtain ⟨d', hi', hseen'⟩ := hs.right
  have hd₁ := hplace hi hseen
  have hd₂ := hplace hi' hseen'
  rw [← hs.rank_eq] at hd₂
  obtain ⟨hlt, hget⟩ := List.getElem?_eq_some_iff.mp hd₁
  obtain ⟨hlt', hget'⟩ := List.getElem?_eq_some_iff.mp hd₂
  refine ⟨d, d', hi, hi', ?_⟩
  rw [← hget, ← hget']
  exact hd.get hlt hlt'

def SameIn (L : Likeness) (g g' : Gathered) : Nat → Nat → Prop :=
  L.Same g.declarations.toList g'.declarations.toList

lemma SameIn.mono (hs : L.SameIn g g' i i') (hg : Grows g k) (hg' : Grows g' k') :
    L.SameIn k k' i i' := Same.mono hs hg.1 hg'.1

/-- What the two walks have gathered so far is alike. -/
structure Level (L : Likeness) (g g' : Gathered) : Prop where
  package_eq : g.package = g'.package
  legible : g.package = "" ∨ L.legible g.package
  imports_eq : (∀ n c c', ¬L.gap n c c') → g.imports = g'.imports
  declarations : Forall₂ L.Declared (seenDeclarations L.seen g.declarations.toList)
    (seenDeclarations L.seen' g'.declarations.toList)
  mentions : Forall₂ (L.Mentioned (L.SameIn g g')) (seenMentions L.seen g.mentions.toList)
    (seenMentions L.seen' g'.mentions.toList)
  binds : L.Binds g g'

namespace Level

lemma rescoped (hg : L.Level g g') {scopes scopes' : List Scope}
    (hs : Forall₂ L.LikeScope scopes scopes') :
    L.Level { g with scopes := scopes } { g' with scopes := scopes' } :=
  { hg with binds := hs }

lemma inScope (hg : L.Level g g') {walk walk' : Gathered → Gathered}
    (hw : L.Level (walk { g with scopes := [] :: g.scopes })
      (walk' { g' with scopes := [] :: g'.scopes })) :
    L.Level (g.inScope walk) (g'.inScope walk') :=
  hw.rescoped hg.binds

lemma bind (hg : L.Level g g') (name : String) {l l' : Local} (hl : L.LikeLocal l l') :
    L.Level (g.bind name l) (g'.bind name l') := by
  have hkeep (g : Gathered) (l : Local) : ∃ scopes, g.bind name l = { g with scopes } := by
    rw [Gathered.bind]
    split
    · exact ⟨_, rfl⟩
    · exact ⟨g.scopes, rfl⟩
  have hb := hg.binds.bind name hl
  obtain ⟨scopes, hs⟩ := hkeep g l
  obtain ⟨scopes', hs'⟩ := hkeep g' l'
  rw [hs, hs'] at hb ⊢
  exact hg.rescoped hb

lemma record (hg : L.Level g g') (hp : L.Beside (L.SameIn g g') p p') (hn : L.Shown n n')
    (role : Role) (target : Target) :
    L.Level (g.record p n role target) (g'.record p' n' role target) where
  package_eq := hg.package_eq
  legible := hg.legible
  imports_eq := hg.imports_eq
  declarations := hg.declarations
  binds := hg.binds
  mentions := by
    rw [record_mentions, record_mentions, seenMentions, seenMentions, filter_append, filter_append,
      filter_cons_of_pos (by exact hn.seen.1), filter_cons_of_pos (by exact hn.seen.2)]
    refine rel_append hg.mentions (.cons ⟨rfl, rfl, hp.owner, hp.chain_eq, fun he => ?_, hn.seen⟩ .nil)
    obtain ⟨hs, he⟩ := hn.place_eq he
    refine ⟨hs, ?_⟩
    change n.length = n'.length
    rw [Node.length, Node.length, hs, he]

lemma declare (hg : L.Level g g') {d d' : Declaration} (hd : L.Declared d d') :
    L.Level (g.declare d) (g'.declare d') where
  package_eq := hg.package_eq
  legible := hg.legible
  imports_eq := hg.imports_eq
  binds := hg.binds
  mentions := hg.mentions.imp fun _ _ hm => hm.mono fun _ _ hs =>
    SameIn.mono hs (Grows.declare g d) (Grows.declare g' d')
  declarations := by
    rw [Gathered.declare, Gathered.declare, Array.toList_push, Array.toList_push, seenDeclarations,
      seenDeclarations, filter_append, filter_append, filter_cons_of_pos (by exact hd.seen.1),
      filter_cons_of_pos (by exact hd.seen.2)]
    exact rel_append hg.declarations (.cons hd .nil)

lemma same_declare (hg : L.Level g g') {d d' : Declaration} (hd : L.Declared d d') :
    L.SameIn (g.declare d) (g'.declare d') g.declarations.size g'.declarations.size := by
  have hlast (g : Gathered) (d : Declaration) :
      (g.declare d).declarations.toList = g.declarations.toList ++ [d] := Array.toList_push
  rw [SameIn, hlast, hlast, ← Array.length_toList, ← Array.length_toList]
  refine ⟨⟨d, by simp, hd.seen.1⟩, ⟨d', by simp, hd.seen.2⟩, ?_⟩
  rw [take_left, take_left]
  exact hg.declarations.length_eq

/-- What is gathered in gaps makes no difference. -/
lemma hide (hg : L.Level g g') (hgap : L.gap n c c') (hk : Unseen L.seen g k)
    (hk' : Unseen L.seen' g' k') : L.Level k k' := by
  obtain ⟨ds, hds, hunseen⟩ := hk.declarations
  obtain ⟨ds', hds', hunseen'⟩ := hk'.declarations
  obtain ⟨ms, hms, hblank⟩ := hk.mentions
  obtain ⟨ms', hms', hblank'⟩ := hk'.mentions
  have hnone {α : Type} {test : α → Bool} {l : List α} (hl : ∀ a ∈ l, test a = false) :
      l.filter test = [] := filter_eq_nil_iff.mpr fun a ha => by simp [hl a ha]
  have hgrow : g.declarations.toList <+: k.declarations.toList := ⟨ds, hds.symm⟩
  have hgrow' : g'.declarations.toList <+: k'.declarations.toList := ⟨ds', hds'.symm⟩
  refine ⟨?_, ?_, fun hno => absurd hgap (hno n c c'), ?_, ?_, ?_⟩
  · rw [hk.package_eq, hk'.package_eq, hg.package_eq]
  · rw [hk.package_eq]
    exact hg.legible
  · rw [hds, hds', seenDeclarations, seenDeclarations, filter_append, filter_append, hnone hunseen,
      hnone hunseen', append_nil, append_nil]
    exact hg.declarations
  · rw [hms, hms', seenMentions, seenMentions, filter_append, filter_append, hnone hblank,
      hnone hblank', append_nil, append_nil]
    exact hg.mentions.imp fun _ _ hm => hm.mono fun _ _ hs => Same.mono hs hgrow hgrow'
  · rw [Binds, hk.scopes_eq, hk'.scopes_eq]
    exact hg.binds

end Level

/-- Both walks go down in step. Their heights may differ, as remarks count for the height of a tree. -/
def Goes (L : Likeness) (h h' : Nat) : Prop := ∀ {p p' : Place} {c c' : Node} {g g' : Gathered},
  L.Beside (L.SameIn g g') p p' → L.node c c' → c.height ≤ h → c'.height ≤ h' → L.Level g g' →
    L.Level (visit h p c g) (visit h' p' c' g')

section Steps

variable (hgo : L.Goes h h')
include hgo

lemma part_level (hq : L.Beside (L.SameIn g g') q q') (hc : L.Part n c c') (hb : isBody n c = false)
    (hh : c.height ≤ h) (hh' : c'.height ≤ h') (hg : L.Level g g') :
    L.Level (visit h q c g) (visit h' q' c' g') := by
  rcases hc with hc | hc
  · exact hgo hq hc hh hh' hg
  · obtain ⟨ho, ho'⟩ := (L.gap_at hc).opens.resolve_left (by simp [hb])
    exact hg.hide hc ((L.veiled hc).1.1 ho h q g) ((L.veiled hc).2.1 ho' h' q' g')

lemma visitAll_level (hq : L.Beside (L.SameIn g g') q q') (hs : Forall₂ (L.Part n) ns ns')
    (hb : ∀ c, isBody n c = false) (hh : ∀ c ∈ ns, c.height ≤ h) (hh' : ∀ c ∈ ns', c.height ≤ h')
    (hg : L.Level g g') : L.Level (visitAll (visit h) q ns g) (visitAll (visit h') q' ns' g') := by
  induction hs generalizing g g' with
  | nil => exact hg
  | @cons c c' ns ns' hc _ ih =>
    refine ih (hq.mono fun i i' hs => hs.mono (visit_grows h q c g) (visit_grows h' q' c' g'))
      (fun c hc => hh c (mem_cons_of_mem _ hc)) (fun c hc => hh' c (mem_cons_of_mem _ hc)) ?_
    exact part_level hgo hq hc (hb c) (hh c mem_cons_self) (hh' c' mem_cons_self) hg

lemma body_level (hq : L.Beside (L.SameIn g g') q q') (hc : L.node c c') (hk : c.kind = .classBody)
    (hh : c.height ≤ h) (hh' : c'.height ≤ h') (hg : L.Level g g') :
    L.Level (visitAll (visit h) q c.named g) (visitAll (visit h') q' c'.named g') := by
  have hcode (h : Nat) (q : Place) (ns : List Node) (g : Gathered) :
      visitAll (visit h) q (Node.code ns) g = visitAll (visit h) q ns g := by
    induction ns generalizing g with
    | nil => rfl
    | cons b ns ih =>
      rw [Node.code] at ih ⊢
      cases hr : b.isRemark with
      | true =>
        rw [filter_cons_of_neg (by simp [hr]), ih, visitAll, visitAll, foldl_cons,
          visit_comment (kind_of_isRemark hr)]
      | false =>
        rw [filter_cons_of_pos (by simp [hr]), visitAll, foldl_cons]
        exact ih _
  have hlow {h : Nat} {c : Node} (hh : c.height ≤ h) : ∀ b ∈ Node.code c.named, b.height ≤ h :=
    fun b hb => (Node.height_lt_of_mem
      (Node.mem_children_of_mem_named (mem_of_mem_filter hb))).le.trans hh
  rw [← hcode h q c.named, ← hcode h' q' c'.named]
  exact visitAll_level hgo hq (Parts.named hc) (isBody_of_kind (by simp [hk]) (by simp [hk]))
    (hlow hh) (hlow hh') hg

lemma move_level {m m' : Move} (hm : L.LikeMove own m m')
    (ho : ∀ i i', own i i' → L.SameIn g g' i i') (hb : m.Below h) (hb' : m'.Below h')
    (hg : L.Level g g') : L.Level (m.perform (visit h) g) (m'.perform (visit h') g') := by
  cases hm with
  | visit hq hc => exact hgo (hq.mono ho) hc hb hb' hg
  | body hq hc hk =>
    exact hg.inScope (body_level hgo (hq.mono ho) hc hk hb hb' (hg.rescoped (.cons .nil hg.binds)))
  | scope q q' hc hs hs' => exact hg.hide hc ((L.veiled hc).1.1 hs h q g) ((L.veiled hc).2.1 hs' h' q' g')
  | scopeBody q q' hc => exact hg.hide hc ((L.veiled hc).1.2 h q g) ((L.veiled hc).2.2 h' q' g')
  | bind name hl => exact hg.bind name hl
  | @mention p p' a a' role target target' hp ha ht =>
    rw [Move.perform, Move.perform, ← ht g g' hg.binds]
    cases target g with
    | none => exact hg
    | some t => exact hg.record (hp.mono ho) ha role t
  | declare hd => exact hg.declare hd
  | @component d d' q q' c c' hd hq hc =>
    refine hgo ?_ hc hb hb' (hg.declare hd)
    refine .withOwner (hq.mono fun i i' h => ?_) (hg.same_declare hd)
    exact (ho i i' h).mono (Grows.declare g d) (Grows.declare g' d')
  | package hl => exact { hg with package_eq := rfl, legible := .inr hl }
  | imported i =>
    exact { hg with imports_eq := fun hno => congrArg (·.push i) (hg.imports_eq hno) }

lemma perform_level {ms ms' : List Move} (hms : Forall₂ (L.LikeMove own) ms ms')
    (ho : ∀ i i', own i i' → L.SameIn g g' i i') (hb : ∀ m ∈ ms, m.Below h)
    (hb' : ∀ m ∈ ms', m.Below h') (hg : L.Level g g') :
    L.Level (perform (visit h) ms g) (perform (visit h') ms' g') := by
  induction hms generalizing g g' with
  | nil => exact hg
  | @cons m m' ms ms' hm _ ih =>
    have hgrow := m.perform_grows (visit_grows h) g
    have hgrow' := m'.perform_grows (visit_grows h') g'
    refine ih (fun i i' h => (ho i i' h).mono hgrow hgrow') (fun m hm => hb m (mem_cons_of_mem _ hm))
      (fun m hm => hb' m (mem_cons_of_mem _ hm)) ?_
    exact move_level hgo hm ho (hb m mem_cons_self) (hb' m' mem_cons_self) hg

/-- What is declared first at the two nodes owns what comes of their other moves. -/
lemma movesAt_level (hp : L.Beside (L.SameIn g g') p p') (hn : L.node n n') (hh : n.height ≤ h + 1)
    (hh' : n'.height ≤ h' + 1) (hg : L.Level g g') :
    L.Level (perform (visit h) (movesAt p n g) g) (perform (visit h') (movesAt p' n' g') g') := by
  let own (i i' : Nat) : Prop := L.SameIn g g' i i' ∨
    Declares (movesAt p n g) ∧ i = g.declarations.size ∧ i' = g'.declarations.size
  have hms : L.Moves own (movesAt p n g) (movesAt p' n' g') :=
    moves_alike (hp.mono fun _ _ h => .inl h) hn (fun hd => .inr ⟨hd, rfl, rfl⟩) hg.package_eq
      hg.legible
  have hb : ∀ m ∈ (movesAt p n g).filter (!·.isRemark), m.Below h := fun m hm =>
    (of_moves p n _ _ m (mem_of_mem_filter hm)).below hh
  have hb' : ∀ m ∈ (movesAt p' n' g').filter (!·.isRemark), m.Below h' := fun m hm =>
    (of_moves p' n' _ _ m (mem_of_mem_filter hm)).below hh'
  rw [← perform_code, ← perform_code h']
  by_cases hd : Declares (movesAt p n g)
  · obtain ⟨d, rest, heq⟩ := hd
    rw [Moves] at hms
    rw [heq, filter_cons_of_pos (by rfl)] at hms hb ⊢
    generalize (movesAt p' n' g').filter (!·.isRemark) = ms' at hms hb' ⊢
    cases hms with
    | @cons _ m' _ rest' hm hrest =>
      cases hm with
      | @declare _ d' hd =>
        change L.Level (perform (visit h) (rest.filter (!·.isRemark)) (g.declare d))
          (perform (visit h') rest' (g'.declare d'))
        refine perform_level hgo hrest (fun i i' ho => ?_) (fun m hm => hb m (mem_cons_of_mem _ hm))
          (fun m hm => hb' m (mem_cons_of_mem _ hm)) (hg.declare hd)
        rcases ho with hs | ⟨-, rfl, rfl⟩
        · exact hs.mono (Grows.declare g d) (Grows.declare g' d')
        · exact hg.same_declare hd
  · exact perform_level hgo hms (fun i i' ho => ho.resolve_right fun h => hd h.1) hb hb' hg

end Steps

lemma opensScope_eq (hn : L.node n n') : opensScope n = opensScope n' := by
  have hname : (n.child? .name).isSome = (n'.child? .name).isSome := by
    rcases child hn .name (by decide) with ⟨hm, hm'⟩ | ⟨m, m', hm, hm', -⟩
    · rw [hm, hm']
    · rw [hm, hm']
      rfl
  rw [opensScope, opensScope, isTypeDeclaration, isTypeDeclaration, hname, (L.alike hn).kind_eq]

theorem visit_level (L : Likeness) (h h' : Nat) : L.Goes h h' := by
  intro p p' c c' g g' hp hc hh hh' hg
  induction h generalizing h' p p' c c' g g' with
  | zero =>
    cases c
    simp [Node.height] at hh
  | succ h ih =>
    cases h' with
    | zero =>
      cases c'
      simp [Node.height] at hh'
    | succ h' =>
      have hgo : L.Goes h h' := fun hp hc hh hh' hg => ih h' hp hc hh hh' hg
      change L.Level (visitNode (visit h) p c g) (visitNode (visit h') p' c' g')
      rw [visitNode_eq, visitNode_eq, ← opensScope_eq hc]
      split
      · exact hg.inScope (movesAt_level hgo hp hc hh hh' (hg.rescoped (.cons .nil hg.binds)))
      · exact movesAt_level hgo hp hc hh hh' hg

lemma level_empty (L : Likeness) : L.Level .empty .empty where
  package_eq := rfl
  legible := .inl rfl
  imports_eq _ := rfl
  declarations := .nil
  mentions := .nil
  binds := .cons .nil .nil

end Likeness

/-- The place where the walk over a file begins. -/
def rootPlace (unit : UnitRef) (unitIndex : Nat) (source : String) : Place where
  source := source.toList
  unit
  unitIndex
  chain := []
  owner := none
  anonymous := 0
  trail := []

structure Alike (L : Likeness) (o o' : JavaAtlas.Outline) : Prop where
  package_eq : o.package = o'.package
  imports_eq : (∀ n c c', ¬L.gap n c c') → o.imports = o'.imports
  declarations : Forall₂ L.Declared (seenDeclarations L.seen o.declarations)
    (seenDeclarations L.seen' o'.declarations)
  mentions : Forall₂ (L.Mentioned (L.Same o.declarations o'.declarations))
    (seenMentions L.seen o.mentions) (seenMentions L.seen' o'.mentions)

lemma ofTree_alike (L : Likeness) {unit unit' : UnitRef} {i i' : Nat} {source source' : String}
    (hl : L.left = rootPlace unit i source) (hr : L.right = rootPlace unit' i' source')
    {tree tree' : Node} (ht : L.node tree tree') :
    Alike L (JavaAtlas.Outline.ofTree unit i source tree)
      (JavaAtlas.Outline.ofTree unit' i' source' tree') := by
  have hp : L.Beside (L.SameIn .empty .empty) (rootPlace unit i source)
      (rootPlace unit' i' source') := by
    rw [← hl, ← hr]
    refine ⟨rfl, rfl, rfl, rfl, rfl, rfl, ?_, ?_, ?_, ?_, ?_⟩
    all_goals rw [hl]
    · rw [hr]; rfl
    · rw [hr]; exact .none
    · rw [hr]; rfl
    · rw [hr]; exact .nil
    · simp [rootPlace]
  have hg := L.visit_level tree.height tree'.height hp ht (Nat.le_refl _) (Nat.le_refl _)
    L.level_empty
  exact ⟨hg.package_eq, fun hno => congrArg Array.toList (hg.imports_eq hno), hg.declarations,
    hg.mentions⟩

/-- Everything in the two files is compared. -/
structure Likeness.Whole (L : Likeness) : Prop where
  seen : ∀ i, L.seen i = true
  seen' : ∀ i, L.seen' i = true
  noGap : ∀ n c c', ¬L.gap n c c'

namespace Alike

variable {L : Likeness} {o o' : JavaAtlas.Outline}

lemma seenDeclarations_eq {seen : Nat → Bool} (hs : ∀ i, seen i = true) (ds : List Declaration) :
    seenDeclarations seen ds = ds := by
  refine filter_eq_self.mpr fun d _ => ?_
  cases d.element.nameOffset with
  | none => rfl
  | some i => exact hs i

lemma declarations_of_whole (h : Alike L o o') (hw : L.Whole) :
    Forall₂ L.Declared o.declarations o'.declarations := by
  have hd := h.declarations
  rwa [seenDeclarations_eq hw.seen, seenDeclarations_eq hw.seen'] at hd

lemma mentions_of_whole (h : Alike L o o') (hw : L.Whole) :
    Forall₂ (L.Mentioned Eq) o.mentions o'.mentions := by
  have hm := h.mentions
  rw [seenMentions, seenMentions, filter_eq_self.mpr fun m _ => hw.seen m.offset,
    filter_eq_self.mpr fun m _ => hw.seen' m.offset] at hm
  refine hm.imp fun _ _ hm => hm.mono fun i i' hs => ?_
  obtain ⟨d, hd, -⟩ := hs.left
  obtain ⟨d', hd', -⟩ := hs.right
  have hr := hs.rank_eq
  rwa [seenDeclarations_eq hw.seen, seenDeclarations_eq hw.seen', length_take_of_le, length_take_of_le]
    at hr
  · exact (List.getElem?_eq_some_iff.mp hd').1.le
  · exact (List.getElem?_eq_some_iff.mp hd).1.le

end Alike

end JavaAtlas.Outline
