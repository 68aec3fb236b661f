import JavaAtlas.Proofs.LikeTrees
import JavaAtlas.Proofs.TokenTexts

/-! The names that a file declares can be told from what is put behind them. A qualified name may hold
comments and white space, yet its text shows where it ends: a hash stands in it only inside a comment,
and every comment in it is finished. -/

namespace JavaAtlas.Syntax

open Text

/-- Text in which a hash stands only inside a finished comment. -/
inductive Legible : List Char → Prop
  | nil : Legible []
  | char {c : Char} {cs : List Char} : c ≠ '#' → c ≠ '/' → Legible cs → Legible (c :: cs)
  | block {body cs : List Char} : Closes body → Legible cs → Legible ('/' :: '*' :: (body ++ cs))
  | line {body cs : List Char} : '\n' ∉ body → Legible cs →
      Legible ('/' :: '/' :: (body ++ '\n' :: cs))

lemma Closes.ne_nil {a : List Char} (h : Closes a) : a ≠ [] := by
  cases h <;> simp

lemma Closes.cancel {a b x y : List Char} (ha : Closes a) (hb : Closes b) (h : a ++ x = b ++ y) :
    a = b ∧ x = y := by
  induction ha generalizing b with
  | stop =>
    cases hb with
    | stop => exact ⟨rfl, by simpa using h⟩
    | @step c cs hno hcs =>
      obtain ⟨d, ds, rfl⟩ := List.exists_cons_of_ne_nil hcs.ne_nil
      obtain ⟨rfl, rfl, -⟩ : '*' = c ∧ '/' = d ∧ _ := by simpa using h
      exact absurd ⟨rfl, rfl⟩ hno
  | @step c cs hno hcs ih =>
    cases hb with
    | stop =>
      obtain ⟨d, ds, rfl⟩ := List.exists_cons_of_ne_nil hcs.ne_nil
      obtain ⟨rfl, rfl, -⟩ : c = '*' ∧ d = '/' ∧ _ := by simpa using h
      exact absurd ⟨rfl, rfl⟩ hno
    | @step c' cs' _ hcs' =>
      obtain ⟨rfl, ht⟩ : c = c' ∧ cs ++ x = cs' ++ y := by simpa using h
      obtain ⟨rfl, hxy⟩ := ih hcs' ht
      exact ⟨rfl, hxy⟩

lemma line_cancel {a b x y : List Char} (ha : '\n' ∉ a) (hb : '\n' ∉ b)
    (h : a ++ '\n' :: x = b ++ '\n' :: y) : a = b ∧ x = y := by
  induction a generalizing b with
  | nil =>
    cases b with
    | nil => exact ⟨rfl, by simpa using h⟩
    | cons c b => exact absurd (List.cons.inj h).1 fun hc => hb (hc ▸ List.mem_cons_self)
  | cons c a ih =>
    cases b with
    | nil => exact absurd (List.cons.inj h).1.symm fun hc => ha (hc ▸ List.mem_cons_self)
    | cons d b =>
      obtain ⟨rfl, ht⟩ := List.cons.inj h
      obtain ⟨rfl, hxy⟩ := ih (fun hm => ha (List.mem_cons_of_mem _ hm))
        (fun hm => hb (List.mem_cons_of_mem _ hm)) ht
      exact ⟨rfl, hxy⟩

namespace Legible

lemma append {a b : List Char} (ha : Legible a) (hb : Legible b) : Legible (a ++ b) := by
  induction ha with
  | nil => exact hb
  | char h₁ h₂ _ ih => exact .char h₁ h₂ ih
  | @block body cs hc _ ih =>
    have hcat : '/' :: '*' :: (body ++ cs) ++ b = '/' :: '*' :: (body ++ (cs ++ b)) := by simp
    rw [hcat]
    exact .block hc ih
  | @line body cs hc _ ih =>
    have hcat : '/' :: '/' :: (body ++ '\n' :: cs) ++ b = '/' :: '/' :: (body ++ '\n' :: (cs ++ b)) := by
      simp
    rw [hcat]
    exact .line hc ih

lemma of_plain {cs : List Char} (h : ∀ c ∈ cs, c ≠ '#' ∧ c ≠ '/') : Legible cs := by
  induction cs with
  | nil => exact .nil
  | cons c cs ih =>
    obtain ⟨h₁, h₂⟩ := h c List.mem_cons_self
    exact .char h₁ h₂ (ih fun d hd => h d (List.mem_cons_of_mem _ hd))

lemma of_newline {cs : List Char} (h : Legible ('\n' :: cs)) : Legible cs := by
  cases h with
  | char _ _ h => exact h

/-- The text before a hash is the same whatever follows. -/
lemma cancel {a b x y : List Char} (ha : Legible a) (hb : Legible b)
    (h : a ++ '#' :: x = b ++ '#' :: y) : a = b := by
  induction ha generalizing b with
  | nil =>
    cases hb with
    | nil => rfl
    | char h₁ _ _ => exact absurd (List.cons.inj h).1.symm h₁
    | block _ _ => simp at h
    | line _ _ => simp at h
  | @char c cs h₁ h₂ _ ih =>
    cases hb with
    | nil => exact absurd (List.cons.inj h).1 h₁
    | char _ _ hb =>
      obtain ⟨rfl, ht⟩ := List.cons.inj h
      rw [ih hb ht]
    | block _ _ => exact absurd (List.cons.inj h).1 h₂
    | line _ _ => exact absurd (List.cons.inj h).1 h₂
  | @block body cs hc _ ih =>
    cases hb with
    | nil => simp at h
    | char _ h₂ _ => exact absurd (List.cons.inj h).1.symm h₂
    | @block body' cs' hc' hb =>
      have ht : body ++ (cs ++ '#' :: x) = body' ++ (cs' ++ '#' :: y) := by simpa using h
      obtain ⟨rfl, ht'⟩ := hc.cancel hc' ht
      rw [ih hb ht']
    | line _ _ => simp at h
  | @line body cs hc _ ih =>
    cases hb with
    | nil => simp at h
    | char _ h₂ _ => exact absurd (List.cons.inj h).1.symm h₂
    | block _ _ => simp at h
    | @line body' cs' hc' hb =>
      have ht : body ++ '\n' :: (cs ++ '#' :: x) = body' ++ '\n' :: (cs' ++ '#' :: y) := by
        simpa using h
      obtain ⟨rfl, ht'⟩ := line_cancel hc hc' ht
      rw [ih hb ht']

end Legible

/-- The characters of names, and the point between names. -/
def isNameChar (c : Char) : Bool := isIdentifierStart c || isIdentifierPart c || c == '.'

/-- The text of a name begins and ends with the characters of one, and up to the first comment in it
there is nothing but such characters and white space. -/
structure NameText (cs : List Char) : Prop where
  legible : Legible cs
  plain : ∀ c ∈ cs.takeWhile (· != '/'), isNameChar c = true ∨ isBlank c = true
  head : ∃ c ∈ cs.head?, isNameChar c = true
  last : ∃ c ∈ cs.getLast?, isNameChar c = true

def Token.Plain (t : Token) : Prop :=
  t.spelling.toList ≠ [] ∧ ∀ c ∈ t.spelling.toList, isNameChar c = true

lemma ne_of_isBlank {c : Char} (h : isBlank c = true) : c ≠ '#' ∧ c ≠ '/' := by
  constructor <;> rintro rfl <;> exact absurd h (by decide)

lemma ne_of_isNameChar {c : Char} (h : isNameChar c = true) : c ≠ '#' ∧ c ≠ '/' := by
  constructor <;> rintro rfl <;> exact absurd h (by decide)

lemma Token.Plain.legible {t : Token} (h : t.Plain) : Legible t.spelling.toList :=
  .of_plain fun c hc => ne_of_isNameChar (h.2 c hc)

lemma plain_of_word {source : List Char} {t : Token} (h : t ∈ lex source) (hc : t.cls = .word) :
    t.Plain := by
  obtain ⟨splices, rest, ht⟩ := tokenAt_of_mem_lex h
  obtain ⟨c, cs, hs, hstart, hpart, -⟩ := ht.word hc
  refine ⟨ht.ne_nil, fun d hd => ?_⟩
  rw [hs] at hd
  rcases List.mem_cons.mp hd with rfl | hd
  · simp [isNameChar, hstart]
  · simp [isNameChar, hpart d hd]

lemma mem_takeWhile_append {p : Char → Bool} {a b : List Char} {c : Char}
    (h : c ∈ (a ++ b).takeWhile p) : c ∈ a.takeWhile p ∨ c ∈ b.takeWhile p := by
  rw [List.takeWhile_append] at h
  split at h
  · next hlen =>
    rw [(List.takeWhile_prefix p).eq_of_length hlen]
    exact List.mem_append.mp h
  · exact .inl h

lemma NameText.append {a b : List Char} (ha : NameText a) (hb : NameText b) :
    NameText (a ++ ['.'] ++ b) := by
  constructor
  case legible => exact (ha.legible.append (.char (by decide) (by decide) .nil)).append hb.legible
  case plain =>
    intro c hc
    rcases mem_takeWhile_append hc with hc | hc
    · rcases mem_takeWhile_append hc with hc | hc
      · exact ha.plain c hc
      · obtain rfl : c = '.' := by simpa using hc
        exact .inl (by decide)
    · exact hb.plain c hc
  case head =>
    obtain ⟨c, hc, hn⟩ := ha.head
    exact ⟨c, by simp_all [List.head?_append], hn⟩
  case last =>
    obtain ⟨c, hc, hn⟩ := hb.last
    exact ⟨c, by rw [List.getLast?_append, Option.mem_def.mp hc]; rfl, hn⟩

lemma Laid.legible {us : List Token} {body : List Char} (h : Laid us body)
    (hus : ∀ t ∈ us, t.cls = .comment ∨ t.Plain) (hlast : ∀ t ∈ us.getLast?, t.Plain) :
    Legible body := by
  induction h with
  | one t => exact (hlast t rfl).legible
  | @cons t u us gap body hgap _ hf _ _ ih =>
    have hbody := ih (fun v hv => hus v (List.mem_cons_of_mem _ hv)) (by simpa using hlast)
    have hnext : Legible (gap ++ body) :=
      (Legible.of_plain fun c hc => ne_of_isBlank (hgap c hc)).append hbody
    rw [List.append_assoc]
    rcases hus t List.mem_cons_self with hc | hp
    · have hfin := hf hc
      generalize t.spelling.toList = cs, gap ++ body = next at hfin hnext
      cases hfin with
      | block hb => exact .block hb hnext
      | line hb => exact .line hb hnext.of_newline
    · exact hp.legible.append hnext

lemma Laid.plain {us : List Token} {body : List Char} (h : Laid us body)
    (hus : ∀ t ∈ us, t.cls = .comment ∨ t.Plain) (hlast : ∀ t ∈ us.getLast?, t.Plain) :
    ∀ c ∈ body.takeWhile (· != '/'), isNameChar c = true ∨ isBlank c = true := by
  induction h with
  | one t => exact fun c hc => .inl ((hlast t rfl).2 c (List.takeWhile_subset _ hc))
  | @cons t u us gap body hgap _ hf _ _ ih =>
    have hbody := ih (fun v hv => hus v (List.mem_cons_of_mem _ hv)) (by simpa using hlast)
    intro c hc
    rcases hus t List.mem_cons_self with hcomment | hp
    · have hfin := hf hcomment
      rw [List.append_assoc] at hc
      generalize t.spelling.toList = cs, gap ++ body = next at hfin hc
      cases hfin <;> simp at hc
    · rcases mem_takeWhile_append hc with hc | hc
      · rcases mem_takeWhile_append hc with hc | hc
        · exact .inl (hp.2 c (List.takeWhile_subset _ hc))
        · exact .inr (hgap c (List.takeWhile_subset _ hc))
      · exact hbody c hc

lemma Laid.head {t : Token} {us : List Token} {body : List Char} (h : Laid (t :: us) body)
    (ht : t.Plain) : ∃ c ∈ body.head?, isNameChar c = true := by
  obtain ⟨c, cs, hs⟩ := List.exists_cons_of_ne_nil ht.1
  refine ⟨c, ?_, ht.2 c (by simp [hs])⟩
  cases h <;> simp [hs]

lemma Laid.last {us : List Token} {body : List Char} {t : Token} (h : Laid us body)
    (ht : t ∈ us.getLast?) (hp : t.Plain) : ∃ c ∈ body.getLast?, isNameChar c = true := by
  have hc := List.getLast?_eq_some_getLast hp.1
  refine ⟨t.spelling.toList.getLast hp.1, ?_, hp.2 _ (List.getLast_mem hp.1)⟩
  induction h with
  | one u =>
    obtain rfl : u = t := by simpa using ht
    exact hc
  | cons _ _ _ _ _ ih =>
    have hb := ih (by simpa using ht)
    simp_all [List.getLast?_append]

/-- Neighbours among the chosen members of a list are the chosen ones of a stretch of it. -/
lemma filter_eq_stretch {α : Type} {p : α → Bool} {l pre us post : List α} {t : α}
    (h : l.filter p = pre ++ (t :: us) ++ post) : ∃ before stretch after,
      l = before ++ (t :: stretch) ++ after ∧ (t :: stretch).filter p = t :: us ∧
      (t :: stretch).getLast? = (t :: us).getLast? := by
  have hstart {l : List α} {t : α} {us post : List α} (h : l.filter p = t :: us ++ post) :
      ∃ before stretch after, l = before ++ (t :: stretch) ++ after ∧ (∀ x ∈ before, ¬p x = true) ∧
        (t :: stretch).filter p = t :: us ∧
        (t :: stretch).getLast? = (t :: us).getLast? := by
    induction us generalizing l t with
    | nil =>
      obtain ⟨before, after, rfl, hno, hp, -⟩ := List.filter_eq_cons_iff.mp h
      exact ⟨before, [], after, by simp, hno, by simp [hp], rfl⟩
    | cons u us ih =>
      obtain ⟨before, rest, rfl, hno, hp, hrest⟩ := List.filter_eq_cons_iff.mp h
      obtain ⟨gap, stretch, after, rfl, hgap, hfilter, hlast⟩ := ih hrest
      refine ⟨before, gap ++ u :: stretch, after, by simp, hno, ?_, ?_⟩
      · rw [List.filter_cons_of_pos hp, List.filter_append, hfilter,
          List.filter_eq_nil_iff.mpr hgap, List.nil_append]
      · rw [List.getLast?_cons_cons, ← hlast]
        simp [List.getLast?_cons, List.getLast?_append]
  rw [List.append_assoc] at h
  obtain ⟨l₁, l₂, rfl, -, h₂⟩ := List.filter_eq_append_iff.mp h
  obtain ⟨before, stretch, after, rfl, -, hfilter, hlast⟩ := hstart h₂
  exact ⟨l₁ ++ before, stretch, after, by simp, hfilter, hlast⟩

/-- The node covers neighbouring tokens that are plain. -/
def Spelt (ts : List Token) (n : Node) : Prop :=
  ∃ t us last, t :: us <:+: ts ∧ (t :: us).getLast? = some last ∧ n.start = t.start ∧
    n.stop = last.stop ∧ ∀ u ∈ t :: us, u.Plain

lemma Spelt.nameText {source : List Char} {n : Node}
    (h : Spelt ((lex source).filter fun t => !(t.cls == .comment)) n) :
    NameText (slice source n.start n.stop).toList := by
  obtain ⟨t, us, last, ⟨pre, post, hts⟩, hlast, hstart, hstop, hplain⟩ := h
  obtain ⟨before, stretch, after, hlex, hfilter, hlast'⟩ := filter_eq_stretch hts.symm
  obtain ⟨body, hslice, hlaid⟩ := slice_laid hlex (hlast'.trans hlast)
  rw [hstart, hstop, hslice, String.toList_ofList]
  have htokens : ∀ v ∈ t :: stretch, v.cls = .comment ∨ v.Plain := fun v hv => by
    by_cases hc : v.cls = .comment
    · exact .inl hc
    · right
      apply hplain v
      rw [← hfilter]
      exact List.mem_filter.mpr ⟨hv, by simpa using hc⟩
  have hend : ∀ v ∈ (t :: stretch).getLast?, v.Plain := fun v hv => by
    rw [hlast'] at hv
    exact hplain v (List.mem_of_getLast? hv)
  exact ⟨hlaid.legible htokens hend, hlaid.plain htokens hend,
    hlaid.head (hplain t List.mem_cons_self),
    hlaid.last (hlast'.trans hlast) (hplain last (List.mem_of_getLast? hlast))⟩

namespace Node

mutual

def All (P : Node → Prop) : Node → Prop
  | mk kind slot start stop children => P (mk kind slot start stop children) ∧ AllList P children

def AllList (P : Node → Prop) : List Node → Prop
  | [] => True
  | n :: ns => All P n ∧ AllList P ns

end

variable {P : Node → Prop}

lemma allList_iff (ns : List Node) : AllList P ns ↔ ∀ n ∈ ns, n.All P := by
  induction ns with
  | nil => simp [AllList]
  | cons n ns ih => simp [AllList, ih]

lemma all_iff (n : Node) : n.All P ↔ P n ∧ ∀ c ∈ n.children, c.All P := by
  cases n
  simp [All, allList_iff, children]

lemma All.mono {Q : Node → Prop} (h : ∀ n, P n → Q n) {n : Node} (hn : n.All P) : n.All Q := by
  induction n using Node.induct with
  | _ n ih =>
    obtain ⟨hp, hc⟩ := (all_iff n).mp hn
    exact (all_iff n).mpr ⟨h n hp, fun c hm => ih c hm (hc c hm)⟩

lemma all_of_everywhere [DecidablePred P] {n : Node}
    (h : n.everywhere (fun n => decide (P n)) = true) : n.All P := by
  induction n using Node.induct with
  | _ n ih =>
    obtain ⟨hp, hc⟩ := (everywhere_iff _ n).mp h
    exact (all_iff n).mpr ⟨of_decide_eq_true hp, fun c hm => ih c hm (hc c hm)⟩

end Node

section Reading

variable (ts : List Token)

/-- Every name in the tree covers neighbouring plain tokens. -/
def Named (n : Node) : Prop := n.All fun m => m.isName = true → Spelt ts m

variable {ts} {n : Node}

lemma named_leaf {kind : Kind} {slot : Option Slot} {start stop : Nat}
    (h : (Node.mk kind slot start stop []).isName = true → Spelt ts (.mk kind slot start stop [])) :
    Named ts (.mk kind slot start stop []) :=
  (Node.all_iff _).mpr ⟨h, by simp [Node.children]⟩

lemma named_ofReversed {kind : Kind} (hk : [Kind.identifier, .scopedIdentifier].contains kind = false)
    (origin : Nat) {ns : List Node} (h : ∀ n ∈ ns, Named ts n) :
    Named ts (Node.ofReversed kind origin ns) := by
  refine (Node.all_iff _).mpr ⟨fun hn => ?_, fun c hc => h c (List.mem_reverse.mp hc)⟩
  simp only [Node.isName, Node.ofReversed, Node.slot?, Node.kind, hk] at hn
  simp at hn

lemma named_withSlot {s : Option Slot} (h : Named ts n) (hs : s = some .name → Spelt ts n) :
    Named ts (n.withSlot s) := by
  cases n with
  | mk kind slot start stop children =>
    obtain ⟨hn, hc⟩ := (Node.all_iff _).mp h
    refine (Node.all_iff _).mpr ⟨fun hname => ?_, hc⟩
    simp only [Node.withSlot, Node.isName, Node.slot?, Node.kind, Bool.or_eq_true, beq_iff_eq] at hname
    rcases hname with hname | hname
    · exact hs hname
    · exact hn (by simp only [Node.isName, Node.kind, hname, Bool.or_true])

lemma spelt_leaf {t : Token} {rest : List Token} (h : t :: rest <:+ ts) (hp : t.Plain)
    (kind : Kind) : Spelt ts (t.leaf kind) := by
  refine ⟨t, [], t, ?_, rfl, rfl, rfl, by simpa using hp⟩
  obtain ⟨pre, rfl⟩ := h
  exact ⟨pre, rest, by simp⟩

lemma named_mark {start stop : Nat} : Named ts (.mk .mark none start stop []) :=
  named_leaf fun h => by simp [Node.isName, Node.slot?, Node.kind] at h

def Lexeme.isPlain : Lexeme → Bool
  | .name => true
  | .spelled text => !text.isEmpty && text.toList.all isNameChar
  | .ofClass cls => cls == .word

lemma Lexeme.plain_of_matches {x : Lexeme} {t : Token} (hw : t.cls = .word → t.Plain)
    (hx : x.isPlain = true) (h : x.matches t = true) : t.Plain := by
  cases x with
  | name => exact hw (by simpa using (Bool.and_eq_true_iff.mp h).1)
  | spelled text =>
    obtain rfl : t.spelling = text := by simpa [Lexeme.matches] using h
    obtain ⟨hne, hall⟩ := Bool.and_eq_true_iff.mp hx
    exact ⟨by simpa using hne, List.all_eq_true.mp hall⟩
  | ofClass cls =>
    have hcls : t.cls = cls := by simpa [Lexeme.matches] using h
    have hword : cls = .word := by simpa [Lexeme.isPlain] using hx
    exact hw (hcls.trans hword)

namespace Form

/-- Forms that read nothing but names. -/
def readsNames : Form Rule → Bool
  | leaf _ lexeme => lexeme.isPlain
  | alt a b => a.readsNames && b.readsNames
  | rule r => r == .qualifiedName
  | _ => false

/-- Forms that make names of plain tokens only. The rule for qualified names is not one of them. -/
def keepsNames : Form Rule → Bool
  | leaf kind lexeme => !([Kind.identifier, .scopedIdentifier].contains kind) || lexeme.isPlain
  | seq a b | alt a b => a.keepsNames && b.keepsNames
  | many a | ahead a | notAhead a => a.keepsNames
  | slot s a => if s == .name then a.readsNames else a.keepsNames
  | node kind a => !([Kind.identifier, .scopedIdentifier].contains kind) && a.keepsNames
  | wrap kind s a => !([Kind.identifier, .scopedIdentifier].contains kind) && s != some .name &&
      a.keepsNames
  | _ => true

/-- What holds of each form of a choice holds of the choice, if two of them keep it. -/
lemma alts_of {P : Form Rule → Prop} (hnone : P (notAhead done))
    (halt : ∀ a b, P a → P b → P (alt a b)) {forms : List (Form Rule)} (h : ∀ a ∈ forms, P a) :
    P (alts forms) := by
  induction forms with
  | nil => exact hnone
  | cons a rest ih =>
    have ha := h a List.mem_cons_self
    have hrest := ih fun b hb => h b (List.mem_cons_of_mem _ hb)
    cases rest with
    | nil => exact ha
    | cons b rest => exact halt a _ ha hrest

lemma levelTail_of {P : Form Rule → Prop} (hnone : P (notAhead done))
    (halt : ∀ a b, P a → P b → P (alt a b)) {n : Nat} {arrow : Bool}
    (hop : ∀ op, P (wrap .binary (some .left) (seq (slot .operator (operator op))
      (slot .right (rule (.level (n + 1) arrow))))))
    (htest : P Rule.instanceTail) : P (Rule.levelTail n arrow) := by
  have htails : ∀ a ∈ ((Rule.operatorLevels[n]?).getD []).map fun op =>
      wrap .binary (some .left) (seq (slot .operator (operator op))
        (slot .right (rule (.level (n + 1) arrow)))), P a := by
    intro a ha
    obtain ⟨op, -, rfl⟩ := List.mem_map.mp ha
    exact hop op
  refine alts_of hnone halt fun a ha => ?_
  split at ha
  · rcases List.mem_append.mp ha with ha | ha
    · exact htails a ha
    · obtain rfl := List.mem_singleton.mp ha
      exact htest
  · exact htails a ha

lemma body_keepsNames {r : Rule} (hr : r ≠ .qualifiedName) : (Rule.body r).keepsNames = true := by
  cases r with
  | qualifiedName => exact absurd rfl hr
  | level n arrow =>
    rw [Rule.body]
    split
    · exact levelTail_of (P := (keepsNames · = true)) rfl
        (fun _ _ ha hb => Bool.and_eq_true_iff.mpr ⟨ha, hb⟩) (fun _ => rfl) rfl
    · rfl
  | expression arrow => cases arrow <;> rfl
  | operandCore arrow => cases arrow <;> rfl
  | _ => rfl

end Form

/-- The node covers plain tokens up to those that are left. -/
def ReadTo (ts : List Token) (n : Node) (rest : List Token) : Prop :=
  ∃ t us last, t :: us ++ rest <:+ ts ∧ (t :: us).getLast? = some last ∧
    n.start = t.start ∧ n.stop = last.stop ∧ ∀ u ∈ t :: us, u.Plain

namespace ReadTo

variable {rest : List Token}

lemma spelt (h : ReadTo ts n rest) : Spelt ts n := by
  obtain ⟨t, us, last, ⟨pre, hpre⟩, hlast⟩ := h
  exact ⟨t, us, last, ⟨pre, rest, by rw [← hpre]; simp⟩, hlast⟩

lemma suffix (h : ReadTo ts n rest) : rest <:+ ts := by
  obtain ⟨t, us, -, hs, -⟩ := h
  exact (List.suffix_append _ _).trans hs

lemma leaf {t : Token} (hs : t :: rest <:+ ts) (hp : t.Plain) (kind : Kind) :
    ReadTo ts (t.leaf kind) rest :=
  ⟨t, [], t, hs, rfl, rfl, rfl, by simpa using hp⟩

lemma extend {dot id : Token} (h : ReadTo ts n (dot :: id :: rest)) (hdot : dot.Plain)
    (hid : id.Plain) {m : Node} (hstart : m.start = n.start) (hstop : m.stop = id.stop) :
    ReadTo ts m rest := by
  obtain ⟨t, us, last, hs, -, hn, -, hplain⟩ := h
  have hlast : (t :: (us ++ [dot, id])).getLast? = some id := by
    simp [List.getLast?_cons, List.getLast?_append]
  refine ⟨t, us ++ [dot, id], id, by simpa using hs, hlast, hstart.trans hn, hstop, ?_⟩
  intro u hu
  have hcases : u ∈ t :: us ∨ u = dot ∨ u = id := by simpa [or_assoc] using hu
  rcases hcases with hu | rfl | rfl
  · exact hplain u hu
  · exact hdot
  · exact hid

end ReadTo

lemma named_of_spelt_leaf {t : Token} {kind : Kind} {s : Option Slot}
    (h : Spelt ts (t.leaf kind)) : Named ts ((t.leaf kind).withSlot s) :=
  named_withSlot (named_leaf fun _ => h) fun _ => h

lemma dot_plain {t : Token} (h : t.spelling = ".") : t.Plain := by
  rw [Token.Plain, h]
  refine ⟨by simp, fun c hc => ?_⟩
  obtain rfl : c = '.' := by simpa using hc
  simp [isNameChar]

def scopedForm : Form Rule :=
  .wrap .scopedIdentifier none (.seq (.word ".") (.slot .name Rule.ident))

section Words

variable (hwords : ∀ t ∈ ts, t.cls = .word → t.Plain)
include hwords

lemma plain_of_matches {t : Token} {us : List Token} {x : Lexeme} (hs : t :: us <:+ ts)
    (hx : x.isPlain = true) (hm : x.matches t = true) : t.Plain :=
  Lexeme.plain_of_matches (hwords t (hs.subset List.mem_cons_self)) hx hm

/-- One more part of a qualified name. -/
lemma reads_scopedForm {fuel : Nat} {before : List Node} {us : List Token} {r : Reading}
    (hn : Named ts n) (hto : ReadTo ts n us)
    (h : Form.Reads Rule.body fuel scopedForm (n :: before) us r) :
    ∃ m, r.1 = m :: before ∧ Named ts m ∧ ReadTo ts m r.2 := by
  obtain ⟨k, found, hinner, hr⟩ : ∃ k found, Form.Reads Rule.body k
      (.seq (.word ".") (.slot .name Rule.ident)) [n.withSlot none] us (found, r.2) ∧
      r.1 = Node.ofReversed .scopedIdentifier n.start found :: before := by
    cases h with
    | wrap hinner => exact ⟨_, _, hinner, rfl⟩
  obtain ⟨dot, id, hus, hdot, hid, hfound⟩ : ∃ dot id, us = dot :: id :: r.2 ∧
      dot.spelling = "." ∧ Lexeme.name.matches id = true ∧ found =
        [(id.leaf .identifier).withSlot (some .name), dot.leaf .mark, n.withSlot none] := by
    cases hinner with
    | seq hword hslot =>
      cases hword with
      | word hdot =>
        cases hslot with
        | slot hleaf =>
          cases hleaf with
          | leaf hid => exact ⟨_, _, rfl, hdot, hid, rfl⟩
  subst hus hfound
  have hsuffix : id :: r.2 <:+ ts := (List.suffix_cons dot _).trans hto.suffix
  have hplain := plain_of_matches hwords hsuffix rfl hid
  have hextended := hto.extend (m := Node.ofReversed .scopedIdentifier n.start
    [(id.leaf .identifier).withSlot (some .name), dot.leaf .mark, n.withSlot none])
    (dot_plain hdot) hplain (by cases n; rfl) rfl
  refine ⟨_, hr, (Node.all_iff _).mpr ⟨fun _ => hextended.spelt, fun c hc => ?_⟩, hextended⟩
  have hcases : c = n.withSlot none ∨ c = dot.leaf .mark ∨
      c = (id.leaf .identifier).withSlot (some .name) := by
    simpa [Node.ofReversed, Node.children] using hc
  rcases hcases with rfl | rfl | rfl
  · exact named_withSlot hn fun hs => absurd hs (by decide)
  · exact named_mark
  · exact named_of_spelt_leaf (ReadTo.leaf hsuffix hplain .identifier).spelt

lemma reads_scopedForms {fuel : Nat} {before : List Node} {us : List Token} {r : Reading}
    (hn : Named ts n) (hto : ReadTo ts n us)
    (h : Form.Reads Rule.body fuel (.many scopedForm) (n :: before) us r) :
    ∃ m, r.1 = m :: before ∧ Named ts m ∧ ReadTo ts m r.2 := by
  induction fuel generalizing n us with
  | zero => cases h
  | succ fuel ih =>
    cases h with
    | enough => exact ⟨n, rfl, hn, hto⟩
    | @more _ _ _ _ mid _ hone hothers =>
      obtain ⟨siblings, rest⟩ := mid
      obtain ⟨m, rfl, hm, hto'⟩ := reads_scopedForm hwords hn hto hone
      exact ih hm hto' hothers

lemma reads_qualifiedName {fuel : Nat} {siblings : List Node} {us : List Token} {r : Reading}
    (hs : us <:+ ts) (h : Form.Reads Rule.body fuel (Rule.body .qualifiedName) siblings us r) :
    ∃ m, r.1 = m :: siblings ∧ Named ts m ∧ ReadTo ts m r.2 := by
  cases h with
  | seq hleaf hmany =>
    cases hleaf with
    | leaf hid =>
      have hto := ReadTo.leaf hs (plain_of_matches hwords hs rfl hid) .identifier
      exact reads_scopedForms hwords (named_leaf fun _ => hto.spelt) hto hmany

/-- What stands for a name is a name. -/
lemma reads_readsNames {fuel : Nat} {form : Form Rule} {us : List Token} {r : Reading}
    (hs : us <:+ ts) (hform : form.readsNames = true)
    (h : Form.Reads Rule.body fuel form [] us r) : ∀ m ∈ r.1, Named ts m ∧ Spelt ts m := by
  generalize hnone : ([] : List Node) = siblings at h
  induction h with
  | @leaf _ _ t rest kind x hx =>
    have hto := ReadTo.leaf hs (plain_of_matches hwords hs hform hx) kind
    subst hnone
    exact List.forall_mem_singleton.mpr ⟨named_leaf fun _ => hto.spelt, hto.spelt⟩
  | first _ ih => exact ih hs (Bool.and_eq_true_iff.mp hform).1 hnone
  | second _ _ ih => exact ih hs (Bool.and_eq_true_iff.mp hform).2 hnone
  | rule hbody =>
    obtain rfl := eq_of_beq hform
    obtain ⟨m, hr, hm, hto⟩ := reads_qualifiedName hwords hs hbody
    rw [hr, ← hnone]
    exact List.forall_mem_singleton.mpr ⟨hm, hto.spelt⟩
  | _ => simp [Form.readsNames] at hform

omit hwords in
lemma named_cons {m : Node} {ms : List Node} (hm : Named ts m) (hms : ∀ n ∈ ms, Named ts n) :
    ∀ n ∈ m :: ms, Named ts n := List.forall_mem_cons.mpr ⟨hm, hms⟩

/-- Whatever is read, names are read as names. -/
lemma reads_named {fuel : Nat} {form : Form Rule} {siblings : List Node} {us : List Token}
    {r : Reading} (hform : form.keepsNames = true) (hs : us <:+ ts)
    (hsib : ∀ m ∈ siblings, Named ts m) (h : Form.Reads Rule.body fuel form siblings us r) :
    ∀ m ∈ r.1, Named ts m := by
  induction h with
  | done | enough | ahead | notAhead | lastIs | lastHolds => exact hsib
  | word | operator | adjoined => exact named_cons named_mark hsib
  | @leaf _ _ t rest kind x hx =>
    refine named_cons (named_leaf fun hname => ?_) hsib
    simp only [Form.keepsNames, Bool.or_eq_true, Bool.not_eq_true'] at hform
    rcases hform with hk | hplain
    · simp only [Node.isName, Node.slot?, Node.kind, hk] at hname
      simp at hname
    · exact spelt_leaf hs (plain_of_matches hwords hs hplain hx) kind
  | @rule _ _ _ _ r' hbody ih =>
    by_cases hr : r' = .qualifiedName
    · subst hr
      obtain ⟨m, heq, hm, -⟩ := reads_qualifiedName hwords hs hbody
      exact heq ▸ named_cons hm hsib
    · exact ih (Form.body_keepsNames hr) hs hsib
  | seq hmid _ ihmid ih =>
    obtain ⟨ha, hb⟩ := Bool.and_eq_true_iff.mp hform
    exact ih hb (hmid.suffix.trans hs) (ihmid ha hs hsib)
  | first _ ih => exact ih (Bool.and_eq_true_iff.mp hform).1 hs hsib
  | second _ _ ih => exact ih (Bool.and_eq_true_iff.mp hform).2 hs hsib
  | more hmid _ ihmid ih => exact ih hform (hmid.suffix.trans hs) (ihmid hform hs hsib)
  | @slot _ a _ _ found _ s hinner ih =>
    simp only [Form.keepsNames] at hform
    have hfound : ∀ m ∈ found, Named ts m ∧ (s = .name → Spelt ts m) := by
      split at hform
      · exact fun m hm => (reads_readsNames hwords hs hform hinner m hm).imp_right fun h _ => h
      · next hne =>
        exact fun m hm => ⟨ih hform hs (by simp) m hm, fun heq => absurd (by simpa using heq) hne⟩
    refine List.forall_mem_append.mpr ⟨List.forall_mem_map.mpr fun m hm => ?_, hsib⟩
    obtain ⟨hn, hspelt⟩ := hfound m hm
    exact named_withSlot hn fun heq => hspelt (Option.some.inj heq)
  | node _ ih =>
    obtain ⟨hk, ha⟩ := Bool.and_eq_true_iff.mp hform
    exact named_cons (named_ofReversed (by simpa using hk) _ (ih ha hs (by simp))) hsib
  | @wrap _ _ last before _ _ _ kind s _ ih =>
    simp only [Form.keepsNames, Bool.and_eq_true, bne_iff_ne, ne_eq, Bool.not_eq_true'] at hform
    obtain ⟨hlast, hbefore⟩ := List.forall_mem_cons.mp hsib
    have hwrapped : Named ts (last.withSlot s) :=
      named_withSlot hlast fun heq => absurd heq hform.1.2
    exact named_cons (named_ofReversed hform.1.1 _ (ih hform.2 hs (by simpa using hwrapped))) hbefore

end Words

end Reading

section Weaving

variable {ts comments : List Token} {n : Node}

lemma named_comment (t : Token) : Named ts (t.leaf .comment) :=
  named_leaf fun h => by simp [Node.isName, Node.slot?, Node.kind] at h

lemma weave_eq (comments : List Token) (n : Node) : n.weave comments =
    .mk n.kind n.slot? n.start n.stop (Node.weaveList comments n.children) := by
  cases n
  rw [Node.weave]
  rfl

lemma mem_weaveList {comments : List Token} {ns : List Node} {m : Node}
    (h : m ∈ Node.weaveList comments ns) :
    (∃ t : Token, m = t.leaf .comment) ∨ ∃ n ∈ ns, ∃ cs, m = n.weave cs := by
  induction ns generalizing comments with
  | nil =>
    rw [Node.weaveList] at h
    obtain ⟨t, -, rfl⟩ := List.mem_map.mp h
    exact .inl ⟨t, rfl⟩
  | cons n ns ih =>
    rw [Node.weaveList] at h
    rcases List.mem_append.mp h with h | h
    · obtain ⟨t, -, rfl⟩ := List.mem_map.mp h
      exact .inl ⟨t, rfl⟩
    · rcases List.mem_cons.mp h with rfl | h
      · exact .inr ⟨n, List.mem_cons_self, _, rfl⟩
      · rcases ih h with ht | ⟨n', hn', hw⟩
        · exact .inl ht
        · exact .inr ⟨n', List.mem_cons_of_mem _ hn', hw⟩

lemma named_weave (h : Named ts n) (comments : List Token) : Named ts (n.weave comments) := by
  induction n using Node.induct generalizing comments with
  | _ n ih =>
    obtain ⟨hn, hc⟩ := (Node.all_iff _).mp h
    rw [weave_eq]
    refine (Node.all_iff _).mpr ⟨hn, fun m hm => ?_⟩
    rcases mem_weaveList hm with ⟨t, rfl⟩ | ⟨c, hmem, cs, rfl⟩
    · exact named_comment t
    · exact ih c hmem (hc c hmem) cs

end Weaving

lemma named_parseTokens {tokens : List Token} (hwords : ∀ t ∈ tokens, t.cls = .word → t.Plain) :
    Named tokens (parseTokens tokens) := by
  have hform : (Form.rule Rule.program).keepsNames = true := rfl
  refine parseTokens_of (named_leaf fun h => ?_) fun _ _ h =>
    reads_named hwords hform (List.suffix_refl tokens) (by simp) h
  simp [Node.isName, Node.slot?, Node.kind] at h

lemma parse_eq (source : List Char) : parse source =
    ((parseTokens ((lex source).filter fun t => !(t.cls == .comment))).weave
      ((lex source).filter (·.cls == .comment))).covering := by
  rw [parse, List.partition_eq_filter_filter]
  rfl

/-- Every name in the tree of a source has a text that shows where it ends. -/
theorem parse_nameText (source : List Char) :
    (parse source).All fun m => m.isName = true → NameText (slice source m.start m.stop).toList := by
  rw [parse_eq]
  generalize hts : (lex source).filter (fun t => !(t.cls == .comment)) = ts
  obtain ⟨hkind, hslot⟩ := kind_parseTokens ts
  have hwords : ∀ t ∈ ts, t.cls = .word → t.Plain := fun t ht hc => by
    rw [← hts] at ht
    exact plain_of_word (List.mem_filter.mp ht).1 hc
  have hnamed := named_weave (named_parseTokens hwords) ((lex source).filter (·.cls == .comment))
  have htext (m : Node) (hm : m.isName = true → Spelt ts m) (hname : m.isName = true) :
      NameText (slice source m.start m.stop).toList := Spelt.nameText (hts ▸ hm hname)
  refine Node.All.mono htext ?_
  rw [weave_eq, hkind, hslot] at hnamed ⊢
  refine (Node.all_iff _).mpr ⟨fun hname => ?_, ((Node.all_iff _).mp hnamed).2⟩
  simp [Node.covering, Node.isName, Node.slot?, Node.kind] at hname

end JavaAtlas.Syntax
