import JavaAtlas.Syntax.Grammar
import Mathlib.Tactic.Common

/-! What a form does to the siblings: it puts nodes of one sort before them, it makes one node, or it
puts one in place of the last. Each way of building forms has a lemma that says what is done by the
whole if it is known of the parts. -/

namespace JavaAtlas.Syntax

open List

variable {ts : List Token}

variable (ts) in
/-- The form puts nodes of this sort before the siblings. -/
def Pushes (Q : Node → Prop) (form : Form Rule) : Prop :=
  ∀ fuel siblings us r, us <:+ ts → form.read Rule.body fuel siblings us = some r →
    ∃ new, r.1 = new ++ siblings ∧ ∀ c ∈ new, Q c

variable (ts) in
/-- The form puts one node of this sort before the siblings. -/
def Makes (Q : Node → Prop) (form : Form Rule) : Prop :=
  ∀ fuel siblings us r, us <:+ ts → form.read Rule.body fuel siblings us = some r →
    ∃ n, r.1 = n :: siblings ∧ Q n

variable (ts) in
/-- The form puts a node of this sort in place of one. -/
def Turns (Q : Node → Prop) (form : Form Rule) : Prop :=
  ∀ fuel first siblings us r, us <:+ ts → Q first →
    form.read Rule.body fuel (first :: siblings) us = some r → ∃ n, r.1 = n :: siblings ∧ Q n

variable {Q R : Node → Prop} {a b : Form Rule} {kind : Kind} {s : Slot} {x : Lexeme} {text : String}

namespace Pushes

lemma done : Pushes ts Q .done := by
  intro fuel siblings us r _ h
  cases Form.reads_of_read h with
  | done => exact ⟨[], rfl, by simp⟩

lemma seq (ha : Pushes ts Q a) (hb : Pushes ts Q b) : Pushes ts Q (.seq a b) := by
  intro fuel siblings us r hs h
  cases Form.reads_of_read h with
  | seq hmid hrest =>
    obtain ⟨new, heq, hnew⟩ := ha _ _ _ _ hs hmid.read_eq
    obtain ⟨new', heq', hnew'⟩ := hb _ _ _ _ (hmid.suffix.trans hs) hrest.read_eq
    exact ⟨new' ++ new, by rw [heq', heq, append_assoc], forall_mem_append.mpr ⟨hnew', hnew⟩⟩

lemma alt (ha : Pushes ts Q a) (hb : Pushes ts Q b) : Pushes ts Q (.alt a b) := by
  intro fuel siblings us r hs h
  cases Form.reads_of_read h with
  | first h => exact ha _ _ _ _ hs h.read_eq
  | second _ h => exact hb _ _ _ _ hs h.read_eq

lemma opt (ha : Pushes ts Q a) : Pushes ts Q (.opt a) := ha.alt done

lemma rule {r' : Rule} (ha : Pushes ts Q (Rule.body r')) : Pushes ts Q (.rule r') := by
  intro fuel siblings us r hs h
  cases Form.reads_of_read h with
  | rule h => exact ha _ _ _ _ hs h.read_eq

lemma many (ha : Pushes ts Q a) : Pushes ts Q (.many a) := by
  intro fuel
  induction fuel with
  | zero => simp [Form.read]
  | succ fuel ih =>
    intro siblings us r hs h
    cases Form.reads_of_read h with
    | enough => exact ⟨[], rfl, by simp⟩
    | more hone hothers =>
      obtain ⟨new, heq, hnew⟩ := ha _ _ _ _ hs hone.read_eq
      obtain ⟨new', heq', hnew'⟩ := ih _ _ _ (hone.suffix.trans hs) hothers.read_eq
      exact ⟨new' ++ new, by rw [heq', heq, append_assoc], forall_mem_append.mpr ⟨hnew', hnew⟩⟩

lemma slot (ha : Pushes ts R a) (hR : ∀ c, R c → Q (c.withSlot (some s))) :
    Pushes ts Q (.slot s a) := by
  intro fuel siblings us r hs h
  cases Form.reads_of_read h with
  | @slot _ _ _ _ found _ _ hinner =>
    obtain ⟨new, heq, hnew⟩ := ha _ _ _ _ hs hinner.read_eq
    obtain rfl : found = new := heq.trans (append_nil new)
    exact ⟨_, rfl, forall_mem_map.mpr fun m hm => hR m (hnew m hm)⟩

end Pushes

namespace Makes

lemma pushes (ha : Makes ts Q a) : Pushes ts Q a := by
  intro fuel siblings us r hs h
  obtain ⟨n, heq, hn⟩ := ha _ _ _ _ hs h
  exact ⟨[n], heq, by simpa using hn⟩

lemma mono (ha : Makes ts Q a) (h : ∀ n, Q n → R n) : Makes ts R a := by
  intro fuel siblings us r hs hr
  obtain ⟨n, heq, hn⟩ := ha _ _ _ _ hs hr
  exact ⟨n, heq, h n hn⟩

lemma word (h : ∀ t ∈ ts, t.spelling = text → Q (t.leaf .mark)) : Makes ts Q (.word text) := by
  intro fuel siblings us r hs hr
  cases Form.reads_of_read hr with
  | @word _ _ t _ _ ht => exact ⟨_, rfl, h t (hs.subset mem_cons_self) ht⟩

lemma leaf (h : ∀ n, n.kind = kind → n.slot? = none → Q n) : Makes ts Q (.leaf kind x) := by
  intro fuel siblings us r hs hr
  cases Form.reads_of_read hr with
  | leaf => exact ⟨_, rfl, h _ rfl rfl⟩

lemma rule {r' : Rule} (ha : Makes ts Q (Rule.body r')) : Makes ts Q (.rule r') := by
  intro fuel siblings us r hs h
  cases Form.reads_of_read h with
  | rule h => exact ha _ _ _ _ hs h.read_eq

lemma alt (ha : Makes ts Q a) (hb : Makes ts Q b) : Makes ts Q (.alt a b) := by
  intro fuel siblings us r hs h
  cases Form.reads_of_read h with
  | first h => exact ha _ _ _ _ hs h.read_eq
  | second _ h => exact hb _ _ _ _ hs h.read_eq

lemma alts {forms : List (Form Rule)} (ha : Makes ts Q a) (h : ∀ b ∈ forms, Makes ts Q b) :
    Makes ts Q (Form.alts (a :: forms)) := by
  induction forms generalizing a with
  | nil => exact ha
  | cons b forms ih =>
    obtain ⟨hb, hforms⟩ := forall_mem_cons.mp h
    exact ha.alt (ih hb hforms)

/-- Whatever is read inside, a node is made of its kind. -/
lemma node (h : ∀ n, n.kind = kind → n.slot? = none → Q n) : Makes ts Q (.node kind a) := by
  intro fuel siblings us r hs hr
  cases Form.reads_of_read hr with
  | node => exact ⟨_, rfl, h _ rfl rfl⟩

lemma node_pushes (ha : Pushes ts R a) (h : ∀ n, n.kind = kind → (∀ c ∈ n.children, R c) → Q n) :
    Makes ts Q (.node kind a) := by
  intro fuel siblings us r hs hr
  cases Form.reads_of_read hr with
  | @node _ _ _ _ found _ _ hinner =>
    obtain ⟨new, heq, hnew⟩ := ha _ _ _ _ hs hinner.read_eq
    obtain rfl : found = new := heq.trans (append_nil new)
    exact ⟨_, rfl, h _ rfl fun c hc => hnew c (mem_reverse.mp hc)⟩

lemma seq_turns (ha : Makes ts Q a) (hb : Turns ts Q b) : Makes ts Q (.seq a b) := by
  intro fuel siblings us r hs h
  cases Form.reads_of_read h with
  | @seq _ _ _ _ _ mid _ hmid hrest =>
    obtain ⟨found, left⟩ := mid
    obtain ⟨n, rfl, hn⟩ := ha _ _ _ _ hs hmid.read_eq
    exact hb _ _ _ _ _ (hmid.suffix.trans hs) hn hrest.read_eq

end Makes

namespace Turns

lemma done : Turns ts Q .done := by
  intro fuel first siblings us r _ hfirst h
  cases Form.reads_of_read h with
  | done => exact ⟨first, rfl, hfirst⟩

lemma lastIs {kinds : List Kind} : Turns ts Q (.lastIs kinds) := by
  intro fuel first siblings us r _ hfirst h
  cases Form.reads_of_read h with
  | lastIs => exact ⟨first, rfl, hfirst⟩

lemma seq (ha : Turns ts Q a) (hb : Turns ts Q b) : Turns ts Q (.seq a b) := by
  intro fuel first siblings us r hs hfirst h
  cases Form.reads_of_read h with
  | @seq _ _ _ _ _ mid _ hmid hrest =>
    obtain ⟨found, left⟩ := mid
    obtain ⟨n, rfl, hn⟩ := ha _ _ _ _ _ hs hfirst hmid.read_eq
    exact hb _ _ _ _ _ (hmid.suffix.trans hs) hn hrest.read_eq

lemma alt (ha : Turns ts Q a) (hb : Turns ts Q b) : Turns ts Q (.alt a b) := by
  intro fuel first siblings us r hs hfirst h
  cases Form.reads_of_read h with
  | first h => exact ha _ _ _ _ _ hs hfirst h.read_eq
  | second _ h => exact hb _ _ _ _ _ hs hfirst h.read_eq

lemma many (ha : Turns ts Q a) : Turns ts Q (.many a) := by
  intro fuel
  induction fuel with
  | zero => simp [Form.read]
  | succ fuel ih =>
    intro first siblings us r hs hfirst h
    cases Form.reads_of_read h with
    | enough => exact ⟨first, rfl, hfirst⟩
    | @more _ _ _ _ mid _ hone hothers =>
      obtain ⟨found, left⟩ := mid
      obtain ⟨n, rfl, hn⟩ := ha _ _ _ _ _ hs hfirst hone.read_eq
      exact ih _ _ _ _ (hone.suffix.trans hs) hn hothers.read_eq

lemma wrap (ha : Pushes ts R a)
    (h : ∀ n first rest, n.kind = kind → n.children = first :: rest → Q first →
      (∀ c ∈ rest, R c) → Q n)
    (hslot : ∀ n, Q n → Q (n.withSlot none)) : Turns ts Q (.wrap kind none a) := by
  intro fuel first siblings us r hs hfirst hr
  cases Form.reads_of_read hr with
  | @wrap _ _ _ _ _ found _ _ _ hinner =>
    obtain ⟨new, heq, hnew⟩ := ha _ _ _ _ hs hinner.read_eq
    obtain rfl : found = new ++ [first.withSlot none] := heq
    refine ⟨_, rfl, h _ (first.withSlot none) new.reverse rfl ?_ (hslot first hfirst)
      fun c hc => hnew c (mem_reverse.mp hc)⟩
    simp [Node.ofReversed, Node.children]

end Turns

end JavaAtlas.Syntax
