import JavaAtlas.Proofs.FormTriples
import JavaAtlas.Proofs.NameWords
import JavaAtlas.Proofs.WovenTrees

/-! Trees over their tokens. Every node that is read covers a run of neighbouring tokens, and its
children share that run out among them, in order. In a type and in a qualified name the marks are
known too: angle brackets enclose type arguments and nothing else, and the last word follows a point. -/

namespace JavaAtlas.Syntax

open List Text

def annotationKinds : List Kind := [.markerUse, .annotationUse]

/-- Kinds of nodes that end with a name after a point. -/
def pointedKinds : List Kind := [.scopedType, .scopedIdentifier]

/-- Kinds of nodes that types and qualified names consist of, besides words. -/
def typeParts : List Kind :=
  [.scopedType, .scopedIdentifier, .genericType, .arrayType, .annotatedType, .typeArguments,
   .wildcard, .dimensions]

def oneWordKinds : List Kind := [.identifier, .typeIdentifier, .primitiveType, .thisName]

def bracketless (cs : List Char) : Bool := cs.all fun c => c != '<' && c != '>'

def Token.Bracketless (t : Token) : Prop := bracketless t.spelling.toList = true

/-- A node with the tokens that it covers. -/
abbrev Tile := Node × List Token

def nodesOf (xs : List Tile) : List Node := xs.map Prod.fst

def tokensOf (xs : List Tile) : List Token := xs.flatMap Prod.snd

/-- A part of a type: a type, an annotation, or else tokens without angle brackets. -/
def SelfContained (x : Tile) : Prop :=
  x.1.kind ∈ typeParts ∨ x.1.kind ∈ annotationKinds ∨ ∀ t ∈ x.2, t.Bracketless

/-- A name after a point: what is qualified, the point, annotations and the name. -/
structure Pointed (kind : Kind) (xs : List Tile) (q : Tile) (point name : Node) (marks : List Tile)
    (t w : Token) : Prop where
  tiles : xs = q :: (point, [t]) :: marks ++ [(name, [w])]
  selfContained : SelfContained q
  spelled : t.spelling = "."
  word : IsWord w.spelling
  annotations : ∀ a ∈ marks, a.1.kind ∈ annotationKinds
  unslotted : q.1.slot? = none ∧ point.slot? = none
  named : kind = .scopedType ∧ name.kind = .typeIdentifier ∨
    kind = .scopedIdentifier ∧ name.slot? = some .name ∧ marks = []

/-- What the children of a node look like, if it is part of a type or a qualified name. -/
inductive Shape : Kind → List Tile → Prop
  | other {kind : Kind} {xs : List Tile} : kind ∉ typeParts → Shape kind xs
  | closed {kind : Kind} {xs : List Tile} : kind ∉ pointedKinds → kind ≠ .typeArguments →
      (∀ x ∈ xs, SelfContained x) → Shape kind xs
  | arguments {l g : Node} {t u : Token} {xs : List Tile} : t.spelling = "<" → u.spelling = ">" →
      (∀ x ∈ xs, SelfContained x) → Shape .typeArguments ((l, [t]) :: xs ++ [(g, [u])])
  | pointed {kind : Kind} {xs : List Tile} {q : Tile} {point name : Node} {marks : List Tile}
      {t w : Token} : Pointed kind xs q point name marks t w → Shape kind xs

/-- A node without parts is no type that has any, and covers one word if its kind says so. -/
structure LeafShape (kind : Kind) (us : List Token) : Prop where
  not_part : kind ∉ typeParts
  word : kind ∈ oneWordKinds → ∃ w, us = [w] ∧ IsWord w.spelling ∧
    (kind = .thisName → w.spelling = "this")

/-- The tree covers the tokens: a leaf neighbouring ones, any other node those of its children. -/
inductive Tiled : Node → List Token → Prop
  | leaf {kind : Kind} {slot : Option Slot} {start stop : Nat} {us : List Token} : us ≠ [] →
      (∀ t ∈ us.head?, start = t.start) → (∀ t ∈ us.getLast?, stop = t.stop) →
      LeafShape kind us → Tiled (.mk kind slot start stop []) us
  | node {kind : Kind} {slot : Option Slot} {start stop : Nat} {xs : List Tile} : xs ≠ [] →
      (∀ x ∈ xs.head?, start = x.1.start) → (∀ x ∈ xs.getLast?, stop = x.1.stop) →
      (∀ x ∈ xs, Tiled x.1 x.2) → Shape kind xs → kind ∉ oneWordKinds →
      Tiled (.mk kind slot start stop (nodesOf xs)) (tokensOf xs)

variable {n m : Node} {us ts rest : List Token} {xs ys : List Tile} {top started : Bool}

@[simp] lemma nodesOf_append : nodesOf (xs ++ ys) = nodesOf xs ++ nodesOf ys := map_append

@[simp] lemma tokensOf_append : tokensOf (xs ++ ys) = tokensOf xs ++ tokensOf ys := flatMap_append

@[simp] lemma tokensOf_cons (x : Tile) : tokensOf (x :: xs) = x.2 ++ tokensOf xs := flatMap_cons

lemma infix_tokensOf {x : Tile} (hx : x ∈ xs) : x.2 <:+: tokensOf xs := by
  obtain ⟨before, after, rfl⟩ := append_of_mem hx
  rw [tokensOf_append, tokensOf_cons, ← append_assoc]
  exact infix_append _ _ _

lemma slot?_withSlot (n : Node) (s : Option Slot) : (n.withSlot s).slot? = s := by
  cases n
  rfl

namespace Tiled

lemma withSlot (h : Tiled n us) (s : Option Slot) : Tiled (n.withSlot s) us := by
  cases h with
  | leaf hne hstart hstop hleaf => exact .leaf hne hstart hstop hleaf
  | node hne hstart hstop htiles hshape hword => exact .node hne hstart hstop htiles hshape hword

lemma span (h : Tiled n us) :
    (∃ t ∈ us.head?, n.start = t.start) ∧ ∃ t ∈ us.getLast?, n.stop = t.stop := by
  induction n using Node.induct generalizing us with
  | _ n ih =>
    cases h with
    | @leaf kind slot start stop us hne hstart hstop hleaf =>
      have hhead := head?_eq_some_head hne
      have hlast := getLast?_eq_some_getLast hne
      exact ⟨⟨_, hhead, hstart _ hhead⟩, ⟨_, hlast, hstop _ hlast⟩⟩
    | @node kind slot start stop xs hne hstart hstop htiles hshape =>
      have hspan {x : Tile} (hx : x ∈ xs) := ih x.1 (mem_map_of_mem hx) (htiles x hx)
      constructor
      · obtain ⟨x, xs, rfl⟩ := exists_cons_of_ne_nil hne
        obtain ⟨⟨t, ht, heq⟩, -⟩ := hspan mem_cons_self
        refine ⟨t, ?_, (hstart x rfl).trans heq⟩
        rw [tokensOf_cons, head?_append, Option.mem_def.mp ht]
        rfl
      · rw [← dropLast_concat_getLast hne] at hspan hstop ⊢
        obtain ⟨-, t, ht, heq⟩ := hspan (mem_append_right _ mem_cons_self)
        refine ⟨t, ?_, (hstop _ getLast?_concat).trans heq⟩
        rw [tokensOf_append, tokensOf_cons, getLast?_append, getLast?_append,
          Option.mem_def.mp ht]
        rfl

lemma word (h : Tiled n us) (hk : n.kind ∈ oneWordKinds) :
    ∃ w, us = [w] ∧ IsWord w.spelling ∧ (n.kind = .thisName → w.spelling = "this") := by
  cases h with
  | leaf _ _ _ hleaf => exact hleaf.word hk
  | node _ _ _ _ _ hword => exact absurd hk hword

lemma ofLeaf {t : Token} {kind : Kind} (h : LeafShape kind [t]) : Tiled (t.leaf kind) [t] :=
  .leaf (cons_ne_nil _ _) (by simp) (by simp) h

lemma leafShape_mark : LeafShape .mark us := ⟨by decide, fun h => absurd h (by decide)⟩

lemma ofMark (hne : us ≠ []) : Tiled (markOver us) us := by
  refine .leaf hne (fun t ht => ?_) (fun t ht => ?_) leafShape_mark
  · rw [Option.mem_def.mp ht]
    rfl
  · rw [Option.mem_def.mp ht]
    rfl

lemma ofReversed {kind : Kind} (origin : Nat) (hne : xs ≠ []) (htiles : ∀ x ∈ xs, Tiled x.1 x.2)
    (hshape : Shape kind xs.reverse) (hword : kind ∉ oneWordKinds) :
    Tiled (Node.ofReversed kind origin (nodesOf xs)) (tokensOf xs.reverse) := by
  have hnodes : (nodesOf xs).reverse = nodesOf xs.reverse := map_reverse.symm
  rw [Node.ofReversed, hnodes]
  refine .node (by simpa using hne) (fun x hx => ?_) (fun x hx => ?_)
    (fun x hx => htiles x (mem_reverse.mp hx)) hshape hword
  · rw [nodesOf, head?_map, Option.mem_def.mp hx]
    rfl
  · rw [getLast?_reverse] at hx
    rw [nodesOf, head?_map, Option.mem_def.mp hx]
    rfl

end Tiled

/-- What was read inside a node, last first; parts of a type if `top` holds. -/
def Tiles (top : Bool) (xs : List Tile) : Prop :=
  ∀ x ∈ xs, Tiled x.1 x.2 ∧ (top = true → SelfContained x)

namespace Tiles

lemma nil : Tiles top [] := fun _ h => (not_mem_nil h).elim

lemma cons {x : Tile} (hx : Tiled x.1 x.2) (hq : top = true → SelfContained x) (h : Tiles top xs) :
    Tiles top (x :: xs) := forall_mem_cons.mpr ⟨⟨hx, hq⟩, h⟩

lemma append (h : Tiles top xs) (h' : Tiles top ys) : Tiles top (xs ++ ys) :=
  forall_mem_append.mpr ⟨h, h'⟩

lemma tiled (h : Tiles top xs) : ∀ x ∈ xs, Tiled x.1 x.2 := fun x hx => (h x hx).1

lemma of_true (h : Tiles true xs) : Tiles top xs := fun x hx => ⟨(h x hx).1, fun _ => (h x hx).2 rfl⟩

lemma withSlot (h : Tiles top xs) (s : Option Slot) :
    Tiles top (xs.map fun x => (x.1.withSlot s, x.2)) := by
  intro x hx
  obtain ⟨y, hy, rfl⟩ := mem_map.mp hx
  obtain ⟨ht, hq⟩ := h y hy
  refine ⟨ht.withSlot s, fun htop => ?_⟩
  obtain ⟨⟨kind, slot, start, stop, children⟩, us⟩ := y
  exact hq htop

end Tiles

namespace Form

def typeRules : List Rule :=
  [.type, .unannotatedType, .simpleType, .typeArguments, .dimensions, .annotationUse, .qualifiedName]

def isBracketless : Lexeme → Bool
  | .name => true
  | .spelled text => bracketless text.toList
  | .ofClass _ => false

def isWordText (text : String) : Bool :=
  match text.toList with
  | [] => false
  | c :: cs => isIdentifierStart c && cs.all isIdentifierPart

def fitsLeaf (kind : Kind) (x : Lexeme) : Bool :=
  !typeParts.contains kind &&
  match x with
  | .name => kind != .thisName
  | .spelled text => (!oneWordKinds.contains kind || isWordText text) &&
      (kind != .thisName || text == "this")
  | .ofClass _ => !oneWordKinds.contains kind

def readsPointed (kind : Kind) : Form Rule → Bool
  | seq (word ".") (seq (many (rule .annotationUse)) (leaf .typeIdentifier .name)) =>
    kind == .scopedType
  | seq (word ".") (slot .name (leaf .identifier .name)) => kind == .scopedIdentifier
  | _ => false

/-- Forms that read neighbouring tokens into nodes over them; parts of a type if `top` holds, of which
there is one already if `started` holds. -/
def tiles : Bool → Bool → Form Rule → Bool
  | top, _, word text => !top || bracketless text.toList
  | top, _, operator _ => !top
  | top, _, adjoined texts => !top && !texts.isEmpty
  | top, _, leaf kind x => (!top || isBracketless x) && fitsLeaf kind x
  | top, _, rule r => r != .program && (!top || typeRules.contains r)
  | top, started, seq a b => a.tiles top started && b.tiles top (started || a.fills)
  | top, started, alt a b => a.tiles top started && b.tiles top started
  | top, started, many a => a.tiles top started
  | top, _, slot _ a => a.tiles top false
  | top, _, node kind a => (!top || (typeParts ++ annotationKinds).contains kind) && a.fills &&
      !pointedKinds.contains kind && !oneWordKinds.contains kind &&
      if kind == .typeArguments then
        match a with
        | seq (word "<") (seq x (word ">")) => x.tiles true false
        | _ => false
      else a.tiles (typeParts.contains kind) false
  | top, started, wrap kind s a =>
      (!top || (started && (typeParts ++ annotationKinds).contains kind)) &&
      (top || !typeParts.contains kind) && kind != .typeArguments && !oneWordKinds.contains kind &&
      if pointedKinds.contains kind then s.isNone && readsPointed kind a
      else a.tiles (typeParts.contains kind) true
  | _, _, _ => true

lemma body_tiles_type {r : Rule} (hr : r ∈ typeRules) : (Rule.body r).tiles true false = true := by
  simp only [typeRules, mem_cons, not_mem_nil, or_false] at hr
  rcases hr with rfl | rfl | rfl | rfl | rfl | rfl | rfl <;> rfl

lemma body_tiles {r : Rule} (hr : r ≠ .program) (ht : r ∉ typeRules) :
    (Rule.body r).tiles false false = true := by
  cases r with
  | program => exact absurd rfl hr
  | type | unannotatedType | simpleType | typeArguments | dimensions | annotationUse |
      qualifiedName => exact absurd ht (by decide)
  | level n arrow =>
    rw [Rule.body]
    split
    · exact levelTail_of (P := (tiles false false · = true)) rfl
        (fun _ _ ha hb => Bool.and_eq_true_iff.mpr ⟨ha, hb⟩) (fun _ => rfl) rfl
    · rfl
  | expression arrow => cases arrow <;> rfl
  | operandCore arrow => cases arrow <;> rfl
  | _ => rfl

lemma fills_rule {r : Rule} (h : (rule r : Form Rule).fills = true) : (Rule.body r).fills = true :=
  body_fills (by simpa [fills] using h)

end Form

section Reading

lemma bracketRun_begins (n : Nat) (t : Token) (us : List Token) :
    operatorTokens.bracketRun n t us <+: us := by
  induction us generalizing n t with
  | nil => cases n <;> exact nil_prefix
  | cons u us ih =>
    rw [operatorTokens.bracketRun.eq_def]
    dsimp only
    split
    · exact (prefix_cons_inj u).mpr nil_prefix
    · cases n with
      | zero => exact nil_prefix
      | succ n =>
        dsimp only
        split
        · exact (prefix_cons_inj u).mpr (ih n u)
        · exact nil_prefix

lemma operatorTokens_begins (us : List Token) : operatorTokens us <+: us := by
  cases us with
  | nil => exact nil_prefix
  | cons t us =>
    rw [operatorTokens]
    split
    · exact (prefix_cons_inj t).mpr (bracketRun_begins 2 t us)
    · exact (prefix_cons_inj t).mpr nil_prefix

/-- A form went on from the tiles `before`, which stand on other siblings, and left the tiles `after`
in their place; it read the tokens `used`. -/
structure TileReading (top : Bool) (before after : List Tile) (base : List Node)
    (us used : List Token) (r : Reading) : Prop where
  nodes_eq : r.1 = nodesOf after ++ base
  tokens_eq : us = used ++ r.2
  tiles : Tiles top after
  used_eq : tokensOf after.reverse = tokensOf before.reverse ++ used

variable {base : List Node} {r : Reading} {fuel : Nat} {form : Form Rule} {before : List Tile}

lemma TileReading.refl (h : Tiles top before) :
    TileReading top before before base us [] (nodesOf before ++ base, us) :=
  ⟨rfl, rfl, h, (append_nil _).symm⟩

lemma TileReading.push (h : Tiles top before) {x : Tile} (hx : Tiled x.1 x.2)
    (hq : top = true → SelfContained x) :
    TileReading top before (x :: before) base (x.2 ++ us) x.2 (x.1 :: (nodesOf before ++ base), us) :=
  ⟨rfl, rfl, h.cons hx hq, by simp [tokensOf]⟩

lemma makes_annotationMark : Makes ts (fun n => n.kind ∈ annotationKinds) (.rule .annotationUse) := by
  refine .rule (.alt (.node fun n hk _ => ?_) (.node fun n hk _ => ?_))
  all_goals
    rw [hk]
    decide

lemma bracketless_of_isWord {t : Token} (h : IsWord t.spelling) : t.Bracketless := by
  refine all_eq_true.mpr fun c hmem => ?_
  have hname := h.isIdentifier hmem
  simp only [Bool.and_eq_true, bne_iff_ne]
  constructor <;> rintro rfl <;> exact absurd hname (by decide)

variable (hwords : ∀ t ∈ ts, t.cls = .word → IsWord t.spelling)

lemma selfContained_leaf {t : Token} (h : t.Bracketless) (kind : Kind) :
    SelfContained (t.leaf kind, [t]) :=
  .inr (.inr (by simpa using h))

include hwords in
lemma bracketless_of_matches {t : Token} (ht : t ∈ ts) {x : Lexeme}
    (hx : Form.isBracketless x = true) (hm : x.matches t = true) : t.Bracketless := by
  cases x with
  | name => exact bracketless_of_isWord (hwords t ht (by simpa using (Bool.and_eq_true_iff.mp hm).1))
  | spelled text =>
    obtain rfl : t.spelling = text := by simpa [Lexeme.matches] using hm
    exact hx
  | ofClass cls => cases hx

include hwords in
lemma leafShape_of_matches {t : Token} (ht : t ∈ ts) {kind : Kind} {x : Lexeme}
    (hx : Form.fitsLeaf kind x = true) (hm : x.matches t = true) : LeafShape kind [t] := by
  simp only [Form.fitsLeaf, Bool.and_eq_true, Bool.not_eq_true', contains_eq_mem,
    decide_eq_false_iff_not] at hx
  obtain ⟨hpart, hx⟩ := hx
  refine ⟨hpart, fun hk => ⟨t, rfl, ?_⟩⟩
  cases x with
  | name =>
    have hword : t.cls = .word := by simpa using (Bool.and_eq_true_iff.mp hm).1
    exact ⟨hwords t ht hword, fun hthis => absurd hthis (by simpa using hx)⟩
  | spelled text =>
    obtain rfl : t.spelling = text := by simpa [Lexeme.matches] using hm
    simp only [Bool.and_eq_true, Bool.or_eq_true, Bool.not_eq_true', decide_eq_false_iff_not,
      bne_iff_ne, beq_iff_eq] at hx
    refine ⟨?_, fun hthis => hx.2.resolve_left (not_not.mpr hthis)⟩
    have htext := hx.1.resolve_left (not_not.mpr hk)
    unfold Form.isWordText at htext
    split at htext
    · cases htext
    · next c cs heq =>
      obtain ⟨hc, hcs⟩ := Bool.and_eq_true_iff.mp htext
      exact ⟨c, cs, heq, hc, all_eq_true.mp hcs⟩
  | ofClass cls => exact absurd hk (by simpa using hx)

/-- With that much fuel forms read tiles. -/
def ReadsTiles (ts : List Token) (fuel : Nat) : Prop :=
  ∀ {form : Form Rule} {top started : Bool} {before : List Tile} {base : List Node}
    {us : List Token} {r : Reading}, form.tiles top started = true → us <:+ ts → Tiles top before →
    (started = true → before ≠ []) → (top = false → base = []) →
    form.read Rule.body fuel (nodesOf before ++ base) us = some r →
    ∃ after used, TileReading top before after base us used r ∧
      (before ≠ [] ∨ form.fills = true → after ≠ [])

variable {k : Nat}

lemma read_arguments (ih : ∀ k < fuel, ReadsTiles ts k) {x : Form Rule}
    (hx : x.tiles true false = true) (hs : us <:+ ts)
    (h : (Form.seq (.word "<") (.seq x (.word ">"))).read Rule.body fuel [] us = some r) :
    ∃ after used, TileReading false [] after [] us used r ∧ after ≠ [] ∧
      Shape .typeArguments after.reverse := by
  obtain ⟨k, rfl⟩ := Form.read_pos h
  obtain ⟨mid, hopen, hrest⟩ := Form.read_seq h
  obtain ⟨t, us, rfl, ht, rfl⟩ := Form.read_word hopen
  obtain ⟨j, rfl⟩ := Form.read_pos hrest
  obtain ⟨mid, hinner, hclose⟩ := Form.read_seq hrest
  obtain ⟨u, rest, hmid, hu, rfl⟩ := Form.read_word hclose
  obtain ⟨after, used, hread, -⟩ := ih j (by omega) hx ((suffix_cons t us).trans hs) .nil
    (by simp) (by simp) hinner
  have htokens : us = used ++ u :: rest := by rw [hread.tokens_eq, hmid]
  have htiles : Tiles false ((u.leaf .mark, [u]) :: after ++ [(t.leaf .mark, [t])]) :=
    (hread.tiles.of_true.cons (.ofLeaf Tiled.leafShape_mark) (by simp)).append
      (Tiles.nil.cons (.ofLeaf Tiled.leafShape_mark) (by simp))
  refine ⟨(u.leaf .mark, [u]) :: after ++ [(t.leaf .mark, [t])], t :: used ++ [u],
    ⟨?_, ?_, htiles, ?_⟩, by simp, ?_⟩
  · simp [hread.nodes_eq, nodesOf]
  · simp [htokens]
  · have hused : tokensOf after.reverse = used := hread.used_eq
    simp [tokensOf] at hused ⊢
    exact hused
  · have hshape : Shape .typeArguments
        ((t.leaf .mark, [t]) :: after.reverse ++ [(u.leaf .mark, [u])]) :=
      .arguments ht hu fun x hx => (hread.tiles x (mem_reverse.mp hx)).2 rfl
    simpa using hshape

include hwords in
lemma isWord_of_name {t : Token} (ht : t ∈ ts) (hm : Lexeme.name.matches t = true) :
    IsWord t.spelling :=
  hwords t ht (by simpa using (Bool.and_eq_true_iff.mp hm).1)

include hwords in
lemma read_pointed (ih : ∀ k < fuel, ReadsTiles ts k) {kind : Kind} {q : Tile} {a : Form Rule}
    (hq : Tiled q.1 q.2) (hself : SelfContained q) (hslot : q.1.slot? = none)
    (ha : Form.readsPointed kind a = true) (hs : us <:+ ts)
    (h : a.read Rule.body fuel [q.1] us = some r) :
    ∃ after used, TileReading false [q] after [] us used r ∧ after ≠ [] ∧
      Shape kind after.reverse := by
  have hone : Tiles false [q] := Tiles.nil.cons hq (by simp)
  obtain ⟨k, rfl⟩ := Form.read_pos h
  unfold Form.readsPointed at ha
  split at ha
  · obtain ⟨mid, hpoint, hrest⟩ := Form.read_seq h
    obtain ⟨t, us, rfl, ht, rfl⟩ := Form.read_word hpoint
    obtain ⟨j, rfl⟩ := Form.read_pos hrest
    obtain ⟨mid, hmarks, hname⟩ := Form.read_seq hrest
    obtain ⟨w, rest, hmid, hw, rfl⟩ := Form.read_leaf hname
    obtain ⟨as, has, hkinds⟩ :=
      makes_annotationMark.pushes.many _ _ _ _ ((suffix_cons t us).trans hs) hmarks
    obtain ⟨marks, used, hread, -⟩ := ih j (by omega)
      (show (Form.many (.rule .annotationUse)).tiles true false = true from rfl)
      ((suffix_cons t us).trans hs) .nil (by simp) (by simp) hmarks
    have hnodes : nodesOf marks = as := append_cancel_right (hread.nodes_eq.symm.trans has)
    have htokens : us = used ++ w :: rest := by rw [hread.tokens_eq, hmid]
    have hword : w ∈ ts := hs.subset (by simp [htokens])
    have hname : LeafShape .typeIdentifier [w] := leafShape_of_matches hwords hword (by decide) hw
    have hpointed : Pointed kind (q :: (t.leaf .mark, [t]) :: marks.reverse ++
        [(w.leaf .typeIdentifier, [w])]) q (t.leaf .mark) (w.leaf .typeIdentifier) marks.reverse t w := by
      refine ⟨rfl, hself, ht, isWord_of_name hwords hword hw, fun a ha => ?_, ⟨hslot, rfl⟩,
        .inl ⟨eq_of_beq ha, rfl⟩⟩
      exact hkinds a.1 (hnodes ▸ mem_map_of_mem (mem_reverse.mp ha))
    refine ⟨(w.leaf .typeIdentifier, [w]) :: marks ++ [(t.leaf .mark, [t]), q], t :: used ++ [w],
      ⟨?_, ?_, ?_, ?_⟩, by simp, .pointed (by simpa using hpointed)⟩
    · simp [hread.nodes_eq, nodesOf]
    · simp [htokens]
    · exact (hread.tiles.of_true.cons (.ofLeaf hname) (by simp)).append
        (hone.cons (.ofLeaf Tiled.leafShape_mark) (by simp))
    · have hused : tokensOf marks.reverse = used := hread.used_eq
      simp [tokensOf] at hused ⊢
      exact hused
  · obtain ⟨mid, hpoint, hname⟩ := Form.read_seq h
    obtain ⟨t, us, rfl, ht, rfl⟩ := Form.read_word hpoint
    obtain ⟨j, rfl⟩ := Form.read_pos hname
    obtain ⟨found, rest, hleaf, rfl⟩ := Form.read_slot hname
    obtain ⟨w, rest, rfl, hw, hr⟩ := Form.read_leaf hleaf
    obtain ⟨rfl, rfl⟩ := Prod.mk.inj hr
    have hword : w ∈ ts := hs.subset (by simp)
    have hname : LeafShape .identifier [w] := leafShape_of_matches hwords hword (by decide) hw
    have hpointed : Pointed kind
        [q, (t.leaf .mark, [t]), ((w.leaf .identifier).withSlot (some .name), [w])]
        q (t.leaf .mark) ((w.leaf .identifier).withSlot (some .name)) [] t w :=
      ⟨rfl, hself, ht, isWord_of_name hwords hword hw, by simp, ⟨hslot, rfl⟩,
        .inr ⟨eq_of_beq ha, rfl, rfl⟩⟩
    exact ⟨[((w.leaf .identifier).withSlot (some .name), [w]), (t.leaf .mark, [t]), q], [t, w],
      ⟨rfl, rfl, (hone.cons (.ofLeaf Tiled.leafShape_mark) (by simp)).cons
        ((Tiled.ofLeaf hname).withSlot _) (by simp), by simp [tokensOf]⟩, by simp,
      .pointed hpointed⟩
  · cases ha

lemma TileReading.suffix (h : TileReading top before xs base us rest r) (hs : us <:+ ts) :
    r.2 <:+ ts := by
  rw [h.tokens_eq] at hs
  exact (suffix_append _ _).trans hs

lemma TileReading.trans {r' : Reading} {us' : List Token}
    (h : TileReading top before xs base us us' r) (h' : TileReading top xs ys base r.2 rest r') :
    TileReading top before ys base us (us' ++ rest) r' := by
  refine ⟨h'.nodes_eq, ?_, h'.tiles, ?_⟩
  · rw [h.tokens_eq, h'.tokens_eq, append_assoc]
  · rw [h'.used_eq, h.used_eq, append_assoc]

lemma TileReading.onto (h : TileReading true [] xs (nodesOf before ++ base) us rest r)
    (hb : Tiles top before) : TileReading top before (xs ++ before) base us rest r := by
  refine ⟨by rw [h.nodes_eq, nodesOf_append, append_assoc], h.tokens_eq, h.tiles.of_true.append hb, ?_⟩
  have hused : tokensOf xs.reverse = rest := h.used_eq
  rw [reverse_append, tokensOf_append, hused]

lemma selfContained_of_part {n : Node} (h : (typeParts ++ annotationKinds).contains n.kind = true) :
    SelfContained (n, us) := by
  rw [contains_iff_mem, mem_append] at h
  exact h.imp_right .inl

lemma TileReading.found_eq {found : List Node} (h : TileReading top before xs [] us ts (found, rest)) :
    found = nodesOf xs := by
  have heq := h.nodes_eq
  rwa [append_nil] at heq

lemma reads_rule (ih : ReadsTiles ts fuel) {r' : Rule}
    (hform : (Form.rule r').tiles top started = true) (hs : us <:+ ts) (hbefore : Tiles top before)
    (hbase : top = false → base = [])
    (h : (Rule.body r').read Rule.body fuel (nodesOf before ++ base) us = some r) :
    ∃ after used, TileReading top before after base us used r ∧
      (before ≠ [] ∨ (Form.rule r').fills = true → after ≠ []) := by
  simp only [Form.tiles, Bool.and_eq_true, bne_iff_ne, ne_eq, Bool.or_eq_true,
    Bool.not_eq_true'] at hform
  by_cases ht : r' ∈ Form.typeRules
  · -- the rules for types go on from nothing of their own, whoever calls them
    obtain ⟨after, used, hread, hne⟩ := ih (Form.body_tiles_type ht) hs .nil (by simp) (by simp) h
    refine ⟨_, _, hread.onto hbefore, fun hor => ?_⟩
    rcases hor with hb | hf
    · simp [hb]
    · simp [hne (.inr (Form.fills_rule hf))]
  · have htop : top = false := by
      rcases hform.2 with htop | hmem
      · exact htop
      · exact absurd (contains_iff_mem.mp hmem) ht
    subst htop
    obtain ⟨after, used, hread, hne⟩ := ih (Form.body_tiles hform.1 ht) hs hbefore (by simp) hbase h
    exact ⟨after, used, hread, fun hor => hne (hor.imp_right Form.fills_rule)⟩

lemma reads_slot (ih : ReadsTiles ts fuel) {s : Slot} {a : Form Rule}
    (ha : a.tiles top false = true) (hs : us <:+ ts) (hbefore : Tiles top before)
    {found : List Node} (h : a.read Rule.body fuel [] us = some (found, rest)) :
    ∃ after used, TileReading top before after base us used
        (found.map (·.withSlot (some s)) ++ (nodesOf before ++ base), rest) ∧
      (before ≠ [] ∨ a.fills = true → after ≠ []) := by
  obtain ⟨after, used, hread, hne⟩ := ih ha hs .nil (by simp) (by simp) h
  refine ⟨after.map (fun x => (x.1.withSlot (some s), x.2)) ++ before, used,
    ⟨?_, hread.tokens_eq, (hread.tiles.withSlot _).append hbefore, ?_⟩, fun hor => ?_⟩
  · simp [hread.found_eq, nodesOf]
  · have hused : tokensOf after.reverse = used := hread.used_eq
    have hmap (xs : List Tile) :
        tokensOf (xs.map fun x => (x.1.withSlot (some s), x.2)) = tokensOf xs :=
      flatMap_map _ _ _
    rw [reverse_append, tokensOf_append, ← map_reverse, hmap, hused]
  · rcases hor with hb | hf
    · simp [hb]
    · simp [hne (.inr hf)]

lemma shape_of_tiles {kind : Kind} (h : Tiles (typeParts.contains kind) xs)
    (hpointed : kind ∉ pointedKinds) (hkind : kind ≠ .typeArguments) : Shape kind xs.reverse := by
  by_cases hk : kind ∈ typeParts
  · exact .closed hpointed hkind fun x hx => (h x (mem_reverse.mp hx)).2 (contains_iff_mem.mpr hk)
  · exact .other hk

lemma read_inside_node (ih : ∀ k < fuel + 1, ReadsTiles ts k) {kind : Kind} {a : Form Rule}
    (hform : (Form.node kind a).tiles top started = true) (hs : us <:+ ts)
    (h : a.read Rule.body fuel [] us = some r) :
    ∃ b after used, TileReading b [] after [] us used r ∧ after ≠ [] ∧ Shape kind after.reverse := by
  rw [Form.tiles.eq_def] at hform
  simp only [Bool.and_eq_true, Bool.not_eq_true'] at hform
  obtain ⟨⟨⟨⟨-, hfills⟩, hpointed⟩, -⟩, hbody⟩ := hform
  split at hbody
  · next hkind =>
    obtain rfl := eq_of_beq hkind
    split at hbody
    · obtain ⟨after, used, hread, hne, hshape⟩ :=
        read_arguments (fun k hk => ih k (Nat.lt_succ_of_lt hk)) hbody hs h
      exact ⟨_, after, used, hread, hne, hshape⟩
    · cases hbody
  · next hkind =>
    obtain ⟨after, used, hread, hne⟩ :=
      ih fuel (Nat.lt_succ_self fuel) hbody hs .nil (by simp) (by simp) h
    exact ⟨_, after, used, hread, hne (.inr hfills),
      shape_of_tiles hread.tiles (by simpa using hpointed) (by simpa using hkind)⟩

lemma reads_node (ih : ∀ k < fuel + 1, ReadsTiles ts k) {kind : Kind} {a : Form Rule}
    (hform : (Form.node kind a).tiles top started = true) (hs : us <:+ ts)
    (hbefore : Tiles top before) {found : List Node}
    (h : a.read Rule.body fuel [] us = some (found, rest)) (origin : Nat) :
    ∃ after used, TileReading top before after base us used
        (Node.ofReversed kind origin found :: (nodesOf before ++ base), rest) ∧ after ≠ [] := by
  obtain ⟨b, after, used, hread, hne, hshape⟩ := read_inside_node ih hform hs h
  have hused : tokensOf after.reverse = used := hread.used_eq
  rw [Form.tiles.eq_def] at hform
  simp only [Bool.and_eq_true, Bool.or_eq_true, Bool.not_eq_true'] at hform
  obtain ⟨⟨⟨⟨hself, -⟩, -⟩, hword⟩, -⟩ := hform
  rw [hread.found_eq, hread.tokens_eq]
  refine ⟨_, _, .push hbefore (x := (_, used)) ?_ fun htop => selfContained_of_part ?_, cons_ne_nil _ _⟩
  · rw [← hused]
    exact .ofReversed _ hne hread.tiles.tiled hshape (by simpa using hword)
  · rcases hself with hno | hk
    · rw [hno] at htop
      cases htop
    · exact hk

include hwords in
lemma read_inside_wrap (ih : ∀ k < fuel + 1, ReadsTiles ts k) {kind : Kind} {s : Option Slot}
    {a : Form Rule} {x : Tile} (hform : (Form.wrap kind s a).tiles top started = true)
    (hs : us <:+ ts) (hx : Tiled x.1 x.2) (hxq : top = true → SelfContained x)
    (h : a.read Rule.body fuel [x.1.withSlot s] us = some r) :
    ∃ b after used, TileReading b [(x.1.withSlot s, x.2)] after [] us used r ∧ after ≠ [] ∧
      Shape kind after.reverse := by
  have hself (htop : top = true) : SelfContained (x.1.withSlot s, x.2) :=
    ((Tiles.nil.cons hx hxq).withSlot s _ mem_cons_self).2 htop
  simp only [Form.tiles, Bool.and_eq_true, Bool.or_eq_true, Bool.not_eq_true', bne_iff_ne,
    ne_eq] at hform
  obtain ⟨⟨⟨⟨-, hpart⟩, hkind⟩, -⟩, hbody⟩ := hform
  split at hbody
  · next hpointed =>
    obtain ⟨hnone, hreads⟩ := Bool.and_eq_true_iff.mp hbody
    obtain rfl := Option.isNone_iff_eq_none.mp hnone
    have htop : top = true := by
      rcases hpart with htop | hno
      · exact htop
      · simp only [contains_eq_mem, pointedKinds, typeParts] at hpointed hno
        simp_all
    obtain ⟨after, used, hread, hne, hshape⟩ := read_pointed hwords
      (fun k hk => ih k (Nat.lt_succ_of_lt hk)) (q := (x.1.withSlot none, x.2))
      (hx.withSlot none) (hself htop) (slot?_withSlot _ _) hreads hs h
    exact ⟨_, after, used, hread, hne, hshape⟩
  · next hpointed =>
    have hone : Tiles (typeParts.contains kind) [(x.1.withSlot s, x.2)] :=
      Tiles.nil.cons (hx.withSlot s) fun hk => hself (hpart.resolve_right (ne_false_of_eq_true hk))
    obtain ⟨after, used, hread, hne⟩ :=
      ih fuel (Nat.lt_succ_self fuel) hbody hs hone (by simp) (by simp) h
    exact ⟨_, after, used, hread, hne (.inl (cons_ne_nil _ _)),
      shape_of_tiles hread.tiles (by simpa using hpointed) hkind⟩

include hwords in
lemma reads_wrap (ih : ∀ k < fuel + 1, ReadsTiles ts k) {kind : Kind} {s : Option Slot}
    {a : Form Rule} (hform : (Form.wrap kind s a).tiles top started = true) (hs : us <:+ ts)
    (hbefore : Tiles top before) (hstart : started = true → before ≠ [])
    (hbase : top = false → base = []) {last : Node} {others found : List Node}
    (hsiblings : nodesOf before ++ base = last :: others)
    (h : a.read Rule.body fuel [last.withSlot s] us = some (found, rest)) :
    ∃ after used, TileReading top before after base us used
        (Node.ofReversed kind last.start found :: others, rest) ∧ after ≠ [] := by
  have hsound := hform
  simp only [Form.tiles, Bool.and_eq_true, Bool.or_eq_true, Bool.not_eq_true', bne_iff_ne,
    ne_eq] at hsound
  obtain ⟨⟨⟨⟨hself, -⟩, -⟩, hword⟩, -⟩ := hsound
  have hne : before ≠ [] := by
    rcases hself with hno | ⟨hst, -⟩
    · rintro rfl
      rw [hbase hno] at hsiblings
      cases hsiblings
    · exact hstart hst
  obtain ⟨x, xs, rfl⟩ := exists_cons_of_ne_nil hne
  obtain ⟨rfl, rfl⟩ := cons.inj hsiblings
  obtain ⟨⟨hx, hxq⟩, hxs⟩ := forall_mem_cons.mp hbefore
  obtain ⟨b, after, used, hread, hne', hshape⟩ :=
    read_inside_wrap hwords ih hform hs hx hxq h
  have hused : tokensOf after.reverse = x.2 ++ used := by
    have heq := hread.used_eq
    simpa [tokensOf] using heq
  have htiled : Tiled (Node.ofReversed kind x.1.start (nodesOf after)) (x.2 ++ used) := by
    rw [← hused]
    exact .ofReversed _ hne' hread.tiles.tiled hshape (by simpa using hword)
  have hpart (htop : top = true) :
      SelfContained (Node.ofReversed kind x.1.start (nodesOf after), x.2 ++ used) := by
    refine selfContained_of_part ?_
    rcases hself with hno | ⟨-, hk⟩
    · rw [hno] at htop
      cases htop
    · exact hk
  exact ⟨(Node.ofReversed kind x.1.start (nodesOf after), x.2 ++ used) :: xs, used,
    ⟨by rw [hread.found_eq]; rfl, hread.tokens_eq, Tiles.cons htiled hpart hxs, by simp [tokensOf]⟩,
    cons_ne_nil _ _⟩

/-- Whatever is read, its nodes are laid over the tokens that were read. -/
lemma reads_tiles (hwords : ∀ t ∈ ts, t.cls = .word → IsWord t.spelling) (fuel : Nat) :
    ReadsTiles ts fuel := by
  -- arguments and pointed names are read two forms deep, hence the strong induction
  induction fuel using Nat.strong_induction_on with
  | _ fuel ih =>
    intro form top started before base us r hform hs hbefore hstart hbase h
    obtain ⟨fuel, rfl⟩ := Form.read_pos h
    have ih' : ReadsTiles ts fuel := ih fuel (Nat.lt_succ_self fuel)
    generalize hsib : nodesOf before ++ base = siblings at h
    cases Form.reads_of_read h with
    | done | enough | ahead | notAhead | lastIs | lastHolds =>
      subst hsib
      exact ⟨before, [], .refl hbefore, by simp [Form.fills]⟩
    | @word _ _ t _ text ht =>
      subst hsib
      refine ⟨_, _, .push hbefore (.ofLeaf Tiled.leafShape_mark)
        fun htop => selfContained_leaf ?_ .mark, by simp⟩
      rw [Token.Bracketless, ht]
      simpa [Form.tiles, htop] using hform
    | operator hne =>
      subst hsib
      have htop : top = false := by simpa [Form.tiles] using hform
      have hpush (vs : List Token) : TileReading top before
          ((markOver (operatorTokens us), operatorTokens us) :: before) base
          (operatorTokens us ++ vs) _ (_, vs) := .push hbefore (.ofMark hne) (by simp [htop])
      have hpush := hpush (us.drop (operatorTokens us).length)
      rw [prefix_iff_eq_append.mp (operatorTokens_begins us)] at hpush
      exact ⟨_, _, hpush, fun _ => cons_ne_nil _ _⟩
    | @adjoined _ _ _ vs rest texts hvs =>
      subst hsib
      obtain ⟨htop, hne⟩ : top = false ∧ texts ≠ [] := by simpa [Form.tiles] using hform
      obtain ⟨rfl, hlen⟩ := takeAdjoined_append hvs
      have hvs : vs ≠ [] := ne_nil_of_length_pos (hlen ▸ length_pos_of_ne_nil hne)
      exact ⟨_, _, .push (x := (markOver vs, vs)) hbefore (.ofMark hvs) (by simp [htop]),
        fun _ => cons_ne_nil _ _⟩
    | @leaf _ _ t _ kind x hx =>
      subst hsib
      have hmem : t ∈ ts := hs.subset mem_cons_self
      obtain ⟨hless, hfits⟩ := Bool.and_eq_true_iff.mp hform
      have hself (htop : top = true) : SelfContained (t.leaf kind, [t]) :=
        selfContained_leaf (bracketless_of_matches hwords hmem (by simpa [htop] using hless) hx) kind
      exact ⟨_, _, .push hbefore (.ofLeaf (leafShape_of_matches hwords hmem hfits hx)) hself,
        fun _ => cons_ne_nil _ _⟩
    | rule hbody =>
      subst hsib
      exact reads_rule ih' hform hs hbefore hbase hbody.read_eq
    | @seq _ a b _ _ mid _ hmid hrest =>
      subst hsib
      obtain ⟨ha, hb⟩ := Bool.and_eq_true_iff.mp hform
      obtain ⟨between, used, hread, hne⟩ := ih' ha hs hbefore hstart hbase hmid.read_eq
      have hmore : (started || a.fills) = true → between ≠ [] := fun hor =>
        hne ((Bool.or_eq_true_iff.mp hor).imp_left hstart)
      obtain ⟨after, used', hread', hne'⟩ := ih' hb (hread.suffix hs) hread.tiles hmore hbase
        (hread.nodes_eq ▸ hrest.read_eq)
      refine ⟨after, _, hread.trans hread', fun hor => hne' ?_⟩
      rw [Form.fills, Bool.or_eq_true] at hor
      rcases hor with hbefore | ha | hb
      · exact .inl (hne (.inl hbefore))
      · exact .inl (hne (.inr ha))
      · exact .inr hb
    | first ha =>
      subst hsib
      obtain ⟨after, used, hread, hne⟩ :=
        ih' (Bool.and_eq_true_iff.mp hform).1 hs hbefore hstart hbase ha.read_eq
      exact ⟨after, used, hread, fun hor => hne (hor.imp_right fun hf =>
        (Bool.and_eq_true_iff.mp hf).1)⟩
    | second _ hb =>
      subst hsib
      obtain ⟨after, used, hread, hne⟩ :=
        ih' (Bool.and_eq_true_iff.mp hform).2 hs hbefore hstart hbase hb.read_eq
      exact ⟨after, used, hread, fun hor => hne (hor.imp_right fun hf =>
        (Bool.and_eq_true_iff.mp hf).2)⟩
    | @more _ a _ _ mid _ hone hothers =>
      subst hsib
      have ha : a.tiles top started = true := hform
      obtain ⟨between, used, hread, hne⟩ := ih' ha hs hbefore hstart hbase hone.read_eq
      obtain ⟨after, used', hread', hne'⟩ := ih' hform (hread.suffix hs) hread.tiles
        (fun hst => hne (.inl (hstart hst))) hbase (hread.nodes_eq ▸ hothers.read_eq)
      refine ⟨after, _, hread.trans hread', fun hor => hne' (.inl (hne (.inl ?_)))⟩
      simpa [Form.fills] using hor
    | slot hinner =>
      subst hsib
      exact reads_slot ih' hform hs hbefore hinner.read_eq
    | node hinner =>
      subst hsib
      obtain ⟨after, used, hread, hne⟩ := reads_node ih hform hs hbefore hinner.read_eq _
      exact ⟨after, used, hread, fun _ => hne⟩
    | wrap hinner =>
      obtain ⟨after, used, hread, hne⟩ :=
        reads_wrap hwords ih hform hs hbefore hstart hbase hsib hinner.read_eq
      exact ⟨after, used, hread, fun _ => hne⟩

/-- The whole tree of some tokens is laid over a beginning of them. -/
lemma parseTokens_tiles (hwords : ∀ t ∈ ts, t.cls = .word → IsWord t.spelling) :
    ∃ xs, (parseTokens ts).children = nodesOf xs ∧ (∀ x ∈ xs, Tiled x.1 x.2) ∧ tokensOf xs <+: ts := by
  rw [children_parseTokens]
  cases hread : Form.read Rule.body (fuelFor ts - 2) (.many (.rule .topLevel)) [] ts with
  | none => exact ⟨[], rfl, by simp, nil_prefix⟩
  | some r =>
    obtain ⟨after, used, htiles, -⟩ := reads_tiles hwords _
      (show (Form.many (.rule .topLevel)).tiles false false = true from rfl) (suffix_refl ts) .nil
      (by simp) (by simp) hread
    have hused : tokensOf after.reverse = used := htiles.used_eq
    refine ⟨after.reverse, ?_, fun x hx => (htiles.tiles x (mem_reverse.mp hx)).1,
      r.2, by rw [hused, htiles.tokens_eq]⟩
    rw [Option.elim_some, htiles.nodes_eq, append_nil]
    exact map_reverse.symm

end Reading

section Sources

variable {source : List Char} {t : Token}

lemma stop_le_of_mem_lex (h : t ∈ lex source) : t.stop ≤ byteLength source := by
  obtain ⟨pre, post, hlex⟩ := append_of_mem h
  obtain ⟨lead, rest, fuel, splices, hsource, hus⟩ := lexFrom_append hlex
  obtain ⟨lead', after, _, _, hrest, -, hstart, ht, -⟩ := lexFrom_eq_cons hus
  rw [hsource, hrest, ht.stop_eq, hstart]
  simp only [byteLength_append]
  omega

lemma isWord_of_word (h : t ∈ lex source) (hc : t.cls = .word) : IsWord t.spelling := by
  obtain ⟨splices, rest, hat⟩ := tokenAt_of_mem_lex h
  obtain ⟨c, cs, hcs, hstart, hpart, -⟩ := hat.word hc
  exact ⟨c, cs, hcs, hstart, hpart⟩

/-- A node in the tree of a source: a comment, or a node over code with comments put into it. -/
inductive Inside (source : List Char) : Node → Prop
  | comment {t : Token} : t ∈ lex source → Inside source (t.leaf .comment)
  | code {n : Node} {us cm : List Token} : Tiled n us → us <:+: codeTokens source → cm ⊆ lex source →
      Inside source (n.weave cm)

lemma mem_weaveList_of {cm : List Token} {ns : List Node} (h : m ∈ Node.weaveList cm ns) :
    (∃ t ∈ cm, m = t.leaf .comment) ∨ ∃ n ∈ ns, ∃ cs, cs ⊆ cm ∧ m = n.weave cs := by
  induction ns generalizing cm with
  | nil =>
    rw [Node.weaveList] at h
    obtain ⟨t, ht, rfl⟩ := mem_map.mp h
    exact .inl ⟨t, ht, rfl⟩
  | cons n ns ih =>
    rw [Node.weaveList] at h
    have hothers := dropWhile_subset (fun t : Token => decide (t.start < n.start)) (l := cm)
    rcases mem_append.mp h with h | h
    · obtain ⟨t, ht, rfl⟩ := mem_map.mp h
      exact .inl ⟨t, takeWhile_subset _ ht, rfl⟩
    · rcases mem_cons.mp h with rfl | h
      · exact .inr ⟨n, mem_cons_self, _, fun t ht => hothers (takeWhile_subset _ ht), rfl⟩
      · rcases ih h with ⟨t, ht, rfl⟩ | ⟨n', hn', cs, hcs, rfl⟩
        · exact .inl ⟨t, hothers (dropWhile_subset _ ht), rfl⟩
        · exact .inr ⟨n', mem_cons_of_mem n hn', cs,
            fun t ht => hothers (dropWhile_subset _ (hcs ht)), rfl⟩

lemma inside_of_weaveList {cm : List Token} (htiles : ∀ x ∈ xs, Tiled x.1 x.2)
    (hxs : tokensOf xs <:+: codeTokens source) (hcm : cm ⊆ lex source)
    (h : m ∈ Node.weaveList cm (nodesOf xs)) : Inside source m := by
  rcases mem_weaveList_of h with ⟨t, ht, rfl⟩ | ⟨n, hn, cs, hcs, rfl⟩
  · exact .comment (hcm ht)
  · obtain ⟨x, hx, rfl⟩ := mem_map.mp hn
    exact .code (htiles x hx) ((infix_tokensOf hx).trans hxs) fun t ht => hcm (hcs ht)

namespace Inside

lemma child (h : Inside source n) {c : Node} (hc : c ∈ n.children) : Inside source c := by
  cases h with
  | comment => cases hc
  | @code n us cm ht hus hcm =>
    rw [weave_eq] at hc
    cases ht with
    | leaf =>
      have hnone : ∀ x ∈ ([] : List Tile), Tiled x.1 x.2 := by simp
      exact inside_of_weaveList hnone nil_infix hcm hc
    | node hne hstart hstop htiles hshape => exact inside_of_weaveList htiles hus hcm hc

lemma bounded (h : Inside source n) : n.start ≤ byteLength source ∧ n.stop ≤ byteLength source := by
  have hspan {t : Token} (ht : t ∈ lex source) : t.start ≤ byteLength source :=
    ((lex_ordered source).1 t ht).le.trans (stop_le_of_mem_lex ht)
  cases h with
  | comment ht => exact ⟨hspan ht, stop_le_of_mem_lex ht⟩
  | code ht hus hcm =>
    have hmem {t : Token} (h : t ∈ _) : t ∈ lex source := mem_of_mem_filter (hus.subset h)
    obtain ⟨⟨t, hhead, hstart⟩, u, hlast, hstop⟩ := ht.span
    rw [weave_eq]
    exact ⟨hstart.le.trans (hspan (hmem (mem_of_mem_head? hhead))),
      hstop.le.trans (stop_le_of_mem_lex (hmem (mem_of_getLast? hlast)))⟩

end Inside

/-- All that stands in the tree of a source is laid over its tokens. -/
theorem parse_inside {c : Node} (hc : c ∈ (parse source).children) : Inside source c := by
  have hwords : ∀ t ∈ codeTokens source, t.cls = .word → IsWord t.spelling := fun t ht =>
    isWord_of_word (mem_of_mem_filter ht)
  obtain ⟨xs, hnodes, htiles, hprefix⟩ := parseTokens_tiles hwords
  rw [parse_eq, ← codeTokens, weave_eq] at hc
  change c ∈ Node.weaveList _ (parseTokens (codeTokens source)).children at hc
  rw [hnodes] at hc
  exact inside_of_weaveList htiles hprefix.isInfix (filter_subset_self _) hc

end Sources

end JavaAtlas.Syntax
