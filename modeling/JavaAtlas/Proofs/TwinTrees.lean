import JavaAtlas.Proofs.LegibleNames

/-! Two lists of tokens that the grammar cannot tell apart are read as trees of one shape, whose nodes
begin and end at corresponding tokens. -/

namespace JavaAtlas.Syntax

open List

/-- Spellings that mean something else when they are parted. -/
def joints : List (String × String) := [(">", ">"), (">", "="), ("non", "-"), ("-", "sealed")]

def Token.joins (t u : Token) : Bool := t.adjoins u && joints.contains (t.spelling, u.spelling)

/-- All that the grammar sees of tokens: what each is, how it is spelled, and whether the next one goes
on with it. -/
def sight : List Token → List (TokenClass × String × Bool)
  | [] => []
  | t :: ts => (t.cls, t.spelling, ts.head?.any t.joins) :: sight ts

abbrev TokenPair := Token × Token

def Matched (zs : List TokenPair) : Prop := sight (zs.map Prod.fst) = sight (zs.map Prod.snd)

variable {zs ws : List TokenPair} {z : TokenPair}

lemma Matched.cons (h : Matched (z :: ws)) : z.1.cls = z.2.cls ∧ z.1.spelling = z.2.spelling ∧
    (∀ w ∈ ws.head?, z.1.joins w.1 = z.2.joins w.2) ∧ Matched ws := by
  rw [Matched, map_cons, map_cons, sight, sight] at h
  obtain ⟨hz, hws⟩ := cons.inj h
  simp only [Prod.mk.injEq] at hz
  refine ⟨hz.1, hz.2.1, fun w hw => ?_, hws⟩
  obtain ⟨ws, rfl⟩ := head?_eq_some_iff.mp hw
  simpa using hz.2.2

lemma Matched.suffix (h : Matched zs) (hw : ws <:+ zs) : Matched ws := by
  obtain ⟨pre, rfl⟩ := hw
  induction pre with
  | nil => exact h
  | cons z pre ih => exact ih h.cons.2.2.2

/-- Corresponding tokens at which two nodes begin and end. -/
structure Spans (zs : List TokenPair) (a b a' b' : Nat) : Prop where
  first : ∃ z ∈ zs, a = z.1.start ∧ a' = z.2.start
  last : ∃ z ∈ zs, b = z.1.stop ∧ b' = z.2.stop

/-- Trees of one shape over corresponding tokens. A node begins where its first part does, which
a reference to a method has. -/
inductive Twin (zs : List TokenPair) : Node → Node → Prop
  | mk {kind : Kind} {slot : Option Slot} {a b a' b' : Nat} {cs cs' : List Node}
      (code : kind ≠ .comment) (spans : Spans zs a b a' b')
      (first : (∀ c ∈ cs.head?, c.start = a) ∧ ∀ c ∈ cs'.head?, c.start = a')
      (qualified : kind = .methodReference → cs ≠ []) (parts : Forall₂ (Twin zs) cs cs') :
      Twin zs (.mk kind slot a b cs) (.mk kind slot a' b' cs')

namespace Twin

variable {n n' c c' : Node} {ns ns' : List Node}

lemma kind_eq (h : Twin zs n n') : n.kind = n'.kind := by
  cases h
  rfl

lemma slot_eq (h : Twin zs n n') : n.slot? = n'.slot? := by
  cases h
  rfl

lemma kind_ne (h : Twin zs n n') : n.kind ≠ .comment := by
  cases h
  assumption

lemma spans (h : Twin zs n n') : Spans zs n.start n.stop n'.start n'.stop := by
  cases h
  assumption

lemma first (h : Twin zs n n') : (∀ c ∈ n.children.head?, c.start = n.start) ∧
    ∀ c ∈ n'.children.head?, c.start = n'.start := by
  cases h
  assumption

lemma qualified (h : Twin zs n n') : n.kind = .methodReference → n.children ≠ [] := by
  cases h
  assumption

lemma children (h : Twin zs n n') : Forall₂ (Twin zs) n.children n'.children := by
  cases h
  assumption

lemma withSlot (h : Twin zs n n') (s : Option Slot) : Twin zs (n.withSlot s) (n'.withSlot s) := by
  cases h with
  | mk code spans first qualified parts => exact .mk code spans first qualified parts

lemma holds_eq (h : Twin zs n n') (kinds : List Kind) : n.holds kinds = n'.holds kinds := by
  induction n using Node.induct generalizing n' with
  | _ n ih =>
    cases h with
    | @mk kind _ _ _ _ _ cs cs' code spans first qualified parts =>
      have hlist : ∀ cs cs' : List Node, Forall₂ (Twin zs) cs cs' →
          (∀ c ∈ cs, ∀ c', Twin zs c c' → c.holds kinds = c'.holds kinds) →
          Node.holdsList kinds cs = Node.holdsList kinds cs' := by
        intro cs cs' hs hcs
        induction hs with
        | nil => rfl
        | @cons c c' cs cs' hc _ ih =>
          rw [Node.holdsList, Node.holdsList, hcs c mem_cons_self c' hc,
            ih fun d hd => hcs d (mem_cons_of_mem _ hd)]
      rw [Node.holds, Node.holds, hlist cs cs' parts fun c hc c' => ih c hc]

lemma leaf (hz : z ∈ zs) (kind : Kind) (hk : kind ≠ .comment) (hm : kind ≠ .methodReference) :
    Twin zs (z.1.leaf kind) (z.2.leaf kind) :=
  .mk hk ⟨⟨z, hz, rfl, rfl⟩, ⟨z, hz, rfl, rfl⟩⟩ ⟨by simp, by simp⟩ (absurd · hm) .nil

/-- A node over parts that were read from last to first. -/
lemma ofReversed {kind : Kind} (hk : kind ≠ .comment) (hs : Forall₂ (Twin zs) ns ns') (hne : ns ≠ [])
    (origin origin' : Nat) :
    Twin zs (Node.ofReversed kind origin ns) (Node.ofReversed kind origin' ns') := by
  obtain ⟨last, before, rfl⟩ := exists_cons_of_ne_nil hne
  obtain ⟨last', before', hlast, hbefore, rfl⟩ := forall₂_cons_left_iff.mp hs
  have hreverse := rel_reverse hs
  obtain ⟨c, rest, hc⟩ := exists_cons_of_ne_nil (show (last :: before).reverse ≠ [] by simp)
  rw [hc] at hreverse
  obtain ⟨c', rest', hfirst, hrest, hc'⟩ := forall₂_cons_left_iff.mp hreverse
  rw [Node.ofReversed, Node.ofReversed, hc, hc']
  refine .mk hk ⟨?_, ?_⟩ ⟨by simp, by simp⟩ (fun _ => cons_ne_nil _ _) (.cons hfirst hrest)
  · simpa using hfirst.spans.first
  · simpa using hlast.spans.last

end Twin

namespace Form

/-- Rules that always read something. -/
def fillingRules : List Rule :=
  [.simpleType, .unannotatedType, .type, .recordPattern, .annotationUse, .primaryBase, .primary,
   .creation, .variableName, .stringLiteral, .arrayCreation, .parenthesized]

/-- Forms that leave a node to begin with. -/
def fills : Form Rule → Bool
  | word _ | operator _ | adjoined _ | leaf .. | node .. | wrap .. => true
  | rule r => fillingRules.contains r
  | seq a b => a.fills || b.fills
  | alt a b => a.fills && b.fills
  | slot _ a => a.fills
  | _ => false

/-- Forms that make no node of nothing, no comment and no reference to a method that is a leaf. The rule
for a whole file is not one of them. -/
def solid : Form Rule → Bool
  | leaf kind _ => kind != .comment && kind != .methodReference
  | adjoined texts => texts == ["non", "-", "sealed"]
  | seq a b | alt a b => a.solid && b.solid
  | many a | ahead a | notAhead a | slot _ a => a.solid
  | node kind a => kind != .comment && a.fills && a.solid
  | wrap kind _ a => kind != .comment && a.solid
  | rule r => r != .program
  | _ => true

lemma body_fills {r : Rule} (hr : r ∈ fillingRules) : (Rule.body r).fills = true := by
  simp only [fillingRules, mem_cons, not_mem_nil, or_false] at hr
  rcases hr with rfl | rfl | rfl | rfl | rfl | rfl | rfl | rfl | rfl | rfl | rfl | rfl <;> rfl

lemma body_solid {r : Rule} (hr : r ≠ .program) : (Rule.body r).solid = true := by
  cases r with
  | program => exact absurd rfl hr
  | level n arrow =>
    rw [Rule.body]
    split
    · exact levelTail_of (P := (solid · = true)) rfl
        (fun _ _ ha hb => Bool.and_eq_true_iff.mpr ⟨ha, hb⟩) (fun _ => rfl) rfl
    · rfl
  | expression arrow => cases arrow <;> rfl
  | operandCore arrow => cases arrow <;> rfl
  | _ => rfl

/-- What a form leaves is not empty if it began with something or if it always reads something. -/
lemma Reads.ne_nil {fuel : Nat} {form : Form Rule} {siblings : List Node} {us : List Token}
    {r : Reading} (h : Reads Rule.body fuel form siblings us r)
    (hne : siblings ≠ [] ∨ form.fills = true) : r.1 ≠ [] := by
  induction h with
  | done | enough | ahead | notAhead | lastIs | lastHolds => exact hne.resolve_right nofun
  | word | operator | adjoined | leaf | node | wrap => exact cons_ne_nil _ _
  | rule _ ih => exact ih (hne.imp_right fun hf => body_fills (contains_iff_mem.mp hf))
  | seq _ _ ihmid ih =>
    rw [fills, Bool.or_eq_true] at hne
    rcases hne with hs | ha | hb
    · exact ih (.inl (ihmid (.inl hs)))
    · exact ih (.inl (ihmid (.inr ha)))
    · exact ih (.inr hb)
  | first _ ih => exact ih (hne.imp_right fun hf => (Bool.and_eq_true_iff.mp hf).1)
  | second _ _ ih => exact ih (hne.imp_right fun hf => (Bool.and_eq_true_iff.mp hf).2)
  | more _ _ ihmid ih => exact ih (.inl (ihmid (.inl (hne.resolve_right nofun))))
  | slot _ ih =>
    rcases hne with hs | hf
    · simp [hs]
    · simp [ih (.inr hf)]

end Form

section Reading

/-- Two readings that leave trees of one shape and corresponding tokens. -/
structure TwinReading (zs : List TokenPair) (r r' : Reading) : Prop where
  nodes : Forall₂ (Twin zs) r.1 r'.1
  tokens : ∃ ws, ws <:+ zs ∧ r.2 = ws.map Prod.fst ∧ r'.2 = ws.map Prod.snd

variable {siblings siblings' : List Node}

lemma TwinReading.rest (hs : Forall₂ (Twin zs) siblings siblings') (hw : ws <:+ zs) :
    TwinReading zs (siblings, ws.map Prod.fst) (siblings', ws.map Prod.snd) := ⟨hs, ws, hw, rfl, rfl⟩

lemma matches_eq {z : TokenPair} (hcls : z.1.cls = z.2.cls) (hspell : z.1.spelling = z.2.spelling)
    (x : Lexeme) : x.matches z.1 = x.matches z.2 := by
  cases x <;> simp [Lexeme.matches, hcls, hspell]

lemma adjoins_eq {w : TokenPair} (hm : Matched (z :: w :: ws))
    (hj : (z.1.spelling, w.1.spelling) ∈ joints) : z.1.adjoins w.1 = z.2.adjoins w.2 := by
  obtain ⟨-, hz, hjoin, hws⟩ := hm.cons
  have hj' : (z.2.spelling, w.2.spelling) ∈ joints := by
    rw [← hz, ← hws.cons.2.1]
    exact hj
  have heq := hjoin w (by simp)
  simpa [Token.joins, hj, hj'] using heq

lemma adjoined_eq {w : TokenPair} (hm : Matched (z :: w :: ws)) {text : String}
    (hj : (z.1.spelling, text) ∈ joints) :
    (z.1.adjoins w.1 && w.1.spelling == text) = (z.2.adjoins w.2 && w.2.spelling == text) := by
  rw [← hm.cons.2.2.2.cons.2.1]
  by_cases hw : w.1.spelling = text
  · rw [adjoins_eq hm (hw ▸ hj)]
  · rw [beq_eq_false_iff_ne.mpr hw, Bool.and_false, Bool.and_false]

/-- A run of angle brackets is as long in both lists. -/
lemma bracketRun_take (hm : Matched (z :: ws)) (hz : z.1.spelling = ">") (n : Nat) : ∃ k,
    operatorTokens.bracketRun n z.1 (ws.map Prod.fst) = (ws.take k).map Prod.fst ∧
      operatorTokens.bracketRun n z.2 (ws.map Prod.snd) = (ws.take k).map Prod.snd := by
  have hstep {z w : TokenPair} {ws : List TokenPair} (hm : Matched (z :: w :: ws))
      (hz : z.1.spelling = ">") (text : String) (ht : (">", text) ∈ joints) :
      (z.1.adjoins w.1 && w.1.spelling == text) = (z.2.adjoins w.2 && w.2.spelling == text) :=
    adjoined_eq hm (hz ▸ ht)
  induction n generalizing z ws with
  | zero =>
    cases ws with
    | nil => exact ⟨0, by simp [operatorTokens.bracketRun]⟩
    | cons w ws =>
      simp only [map_cons, operatorTokens.bracketRun, hstep hm hz "=" (by decide)]
      split
      · exact ⟨1, by simp⟩
      · exact ⟨0, by simp⟩
  | succ n ih =>
    cases ws with
    | nil => exact ⟨0, by simp [operatorTokens.bracketRun]⟩
    | cons w ws =>
      simp only [map_cons, operatorTokens.bracketRun, hstep hm hz "=" (by decide),
        hstep hm hz ">" (by decide)]
      split
      · exact ⟨1, by simp⟩
      · split
        · next hw =>
          have hspell : w.1.spelling = ">" := by
            rw [hm.cons.2.2.2.cons.2.1]
            exact beq_iff_eq.mp (Bool.and_eq_true_iff.mp hw).2
          obtain ⟨k, hk, hk'⟩ := ih hm.cons.2.2.2 hspell
          exact ⟨k + 1, by simp [hk], by simp [hk']⟩
        · exact ⟨0, by simp⟩

lemma operatorTokens_take (hm : Matched ws) : ∃ k,
    operatorTokens (ws.map Prod.fst) = (ws.take k).map Prod.fst ∧
      operatorTokens (ws.map Prod.snd) = (ws.take k).map Prod.snd := by
  cases ws with
  | nil => exact ⟨0, rfl, rfl⟩
  | cons z ws =>
    simp only [map_cons, operatorTokens, ← hm.cons.2.1]
    split
    · next hz =>
      obtain ⟨k, hk, hk'⟩ := bracketRun_take hm (eq_of_beq hz) 2
      exact ⟨k + 1, by simp [hk], by simp [hk']⟩
    · exact ⟨1, by simp⟩

lemma spellings_eq (hm : Matched ws) : ws.map (·.1.spelling) = ws.map (·.2.spelling) := by
  induction ws with
  | nil => rfl
  | cons z ws ih => rw [map_cons, map_cons, hm.cons.2.1, ih hm.cons.2.2.2]

lemma Matched.take (hm : Matched ws) (k : Nat) :
    (ws.take k).map (·.1.spelling) = (ws.take k).map (·.2.spelling) := by
  rw [map_take, map_take, spellings_eq hm]

/-- A mark over corresponding tokens. -/
lemma Twin.markOver {us : List TokenPair} (hu : us ⊆ zs) (hne : us ≠ []) :
    Twin zs (markOver (us.map Prod.fst)) (markOver (us.map Prod.snd)) := by
  have hhead := hu (head_mem hne)
  have hlast := hu (getLast_mem hne)
  refine .mk (by simp) ⟨⟨us.head hne, hhead, ?_⟩, ⟨us.getLast hne, hlast, ?_⟩⟩ ⟨by simp, by simp⟩
    (by simp) .nil
  · simp [head?_eq_some_head hne]
  · simp [getLast?_eq_some_getLast hne]

lemma takeAdjoined_twin {texts : List String} (ht : texts.IsChain fun a b => (a, b) ∈ joints)
    (hm : Matched ws) :
    (takeAdjoined texts (ws.map Prod.fst) = none ∧ takeAdjoined texts (ws.map Prod.snd) = none) ∨
    ∃ us vs, ws = us ++ vs ∧ us.map (·.1.spelling) = texts ∧
      takeAdjoined texts (ws.map Prod.fst) = some (us.map Prod.fst, vs.map Prod.fst) ∧
      takeAdjoined texts (ws.map Prod.snd) = some (us.map Prod.snd, vs.map Prod.snd) := by
  induction texts generalizing ws with
  | nil => exact .inr ⟨[], ws, rfl, rfl, by simp [takeAdjoined], by simp [takeAdjoined]⟩
  | cons text texts ih =>
    cases ws with
    | nil => exact .inl ⟨rfl, rfl⟩
    | cons z ws =>
      obtain ⟨-, hz, -, hws⟩ := hm.cons
      simp only [map_cons, takeAdjoined, ← hz]
      by_cases hspell : z.1.spelling = text
      · subst hspell
        rcases ih ht.of_cons hws with ⟨h, h'⟩ | ⟨us, vs, rfl, rfl, h, h'⟩
        · exact .inl (by simp [h, h'])
        · have hadjoins : (us.map Prod.fst).head?.all (z.1.adjoins ·) =
              (us.map Prod.snd).head?.all (z.2.adjoins ·) := by
            cases us with
            | nil => rfl
            | cons w us =>
              have hj := (isChain_cons_cons.mp ht).1
              exact adjoins_eq hm hj
          rw [h, h']
          simp only [bne_self_eq_false, Bool.false_eq_true, if_false, ← hadjoins]
          split
          · exact .inr ⟨z :: us, vs, rfl, rfl, rfl, rfl⟩
          · exact .inl ⟨rfl, rfl⟩
      · exact .inl (by simp [hspell])

lemma operator_twin (hm : Matched ws) (hw : ws <:+ zs) (hs : Forall₂ (Twin zs) siblings siblings')
    (text : String) (fuel : Nat) : Option.Rel (TwinReading zs)
      ((Form.operator text).read Rule.body (fuel + 1) siblings (ws.map Prod.fst))
      ((Form.operator text).read Rule.body (fuel + 1) siblings' (ws.map Prod.snd)) := by
  obtain ⟨k, hk, hk'⟩ := operatorTokens_take hm
  have hlen (f : TokenPair → Token) : ((ws.take k).map f).length = (ws.take k).length :=
    length_map _
  simp only [Form.read, hk, hk', map_map, Function.comp_def, ← hm.take k, hlen, isEmpty_map,
    ← map_drop]
  split
  · next hif =>
    have hne : ws.take k ≠ [] := by simpa using (Bool.and_eq_true_iff.mp hif).1
    have hmark := Twin.markOver (List.Subset.trans (take_subset k ws) hw.subset) hne
    exact .some (.rest (.cons hmark hs) ((drop_suffix _ ws).trans hw))
  · exact .none

lemma adjoined_twin (hm : Matched ws) (hw : ws <:+ zs) (hs : Forall₂ (Twin zs) siblings siblings')
    (fuel : Nat) : Option.Rel (TwinReading zs)
      ((Form.adjoined ["non", "-", "sealed"]).read Rule.body (fuel + 1) siblings (ws.map Prod.fst))
      ((Form.adjoined ["non", "-", "sealed"]).read Rule.body (fuel + 1) siblings'
        (ws.map Prod.snd)) := by
  simp only [Form.read]
  have hchain : ["non", "-", "sealed"].IsChain fun a b => (a, b) ∈ joints := by decide
  rcases takeAdjoined_twin hchain hm with ⟨h, h'⟩ | ⟨us, vs, rfl, htexts, h, h'⟩
  · rw [h, h']
    exact .none
  · rw [h, h']
    have hne : us ≠ [] := by
      rintro rfl
      cases htexts
    have hmark := Twin.markOver (List.Subset.trans (subset_append_left us vs) hw.subset) hne
    exact .some (.rest (.cons hmark hs) ((suffix_append us vs).trans hw))

/-- Tokens that the grammar cannot tell apart are read as trees of one shape. -/
lemma read_twin (hm : Matched zs) {fuel : Nat} {form : Form Rule} (hform : form.solid = true)
    (hw : ws <:+ zs) (hs : Forall₂ (Twin zs) siblings siblings') :
    Option.Rel (TwinReading zs) (form.read Rule.body fuel siblings (ws.map Prod.fst))
      (form.read Rule.body fuel siblings' (ws.map Prod.snd)) := by
  induction fuel generalizing form siblings siblings' ws with
  | zero => exact .none
  | succ fuel ih =>
    have hmatched := hm.suffix hw
    cases form with
    | done => exact .some (.rest hs hw)
    | word text =>
      cases ws with
      | nil => exact .none
      | cons z ws =>
        simp only [Form.read, map_cons, ← hmatched.cons.2.1]
        split
        · exact .some (.rest (.cons (.leaf (hw.subset mem_cons_self) _ (by simp) (by simp)) hs)
            ((suffix_cons z ws).trans hw))
        · exact .none
    | leaf kind x =>
      cases ws with
      | nil => exact .none
      | cons z ws =>
        have hk : kind ≠ .comment ∧ kind ≠ .methodReference := by simpa [Form.solid] using hform
        simp only [Form.read, map_cons,
          ← matches_eq hmatched.cons.1 hmatched.cons.2.1 x]
        split
        · exact .some (.rest (.cons (.leaf (hw.subset mem_cons_self) _ hk.1 hk.2) hs)
            ((suffix_cons z ws).trans hw))
        · exact .none
    | operator text => exact operator_twin hmatched hw hs text fuel
    | adjoined texts =>
      obtain rfl : texts = ["non", "-", "sealed"] := by simpa [Form.solid] using hform
      exact adjoined_twin hmatched hw hs fuel
    | rule r =>
      simp only [Form.read]
      exact ih (Form.body_solid (by simpa [Form.solid] using hform)) hw hs
    | seq a b =>
      obtain ⟨ha, hb⟩ := Bool.and_eq_true_iff.mp hform
      have hread := ih ha hw hs
      simp only [Form.read]
      generalize a.read Rule.body fuel siblings (ws.map Prod.fst) = r,
        a.read Rule.body fuel siblings' (ws.map Prod.snd) = r' at hread
      cases hread with
      | none => exact .none
      | @some r r' hr =>
        obtain ⟨found, us⟩ := r
        obtain ⟨found', us'⟩ := r'
        obtain ⟨hnodes, vs, hv, rfl, rfl⟩ := hr
        exact ih hb hv hnodes
    | alt a b =>
      obtain ⟨ha, hb⟩ := Bool.and_eq_true_iff.mp hform
      have hread := ih ha hw hs
      simp only [Form.read]
      generalize a.read Rule.body fuel siblings (ws.map Prod.fst) = r,
        a.read Rule.body fuel siblings' (ws.map Prod.snd) = r' at hread
      cases hread with
      | none => exact ih hb hw hs
      | some hr => exact .some hr
    | many a =>
      have ha : a.solid = true := hform
      have hread := ih ha hw hs
      simp only [Form.read]
      generalize a.read Rule.body fuel siblings (ws.map Prod.fst) = r,
        a.read Rule.body fuel siblings' (ws.map Prod.snd) = r' at hread
      cases hread with
      | none => exact .some (.rest hs hw)
      | @some r r' hr =>
        obtain ⟨found, us⟩ := r
        obtain ⟨found', us'⟩ := r'
        obtain ⟨hnodes, vs, hv, rfl, rfl⟩ := hr
        exact ih hform hv hnodes
    | ahead a | notAhead a =>
      have ha : a.solid = true := hform
      have hread := ih ha hw .nil
      simp only [Form.read]
      generalize a.read Rule.body fuel [] (ws.map Prod.fst) = r,
        a.read Rule.body fuel [] (ws.map Prod.snd) = r' at hread
      cases hread with
      | none => first | exact .none | exact .some (.rest hs hw)
      | some hr => first | exact .none | exact .some (.rest hs hw)
    | slot s a =>
      have ha : a.solid = true := hform
      have hread := ih ha hw .nil
      simp only [Form.read]
      generalize a.read Rule.body fuel [] (ws.map Prod.fst) = r,
        a.read Rule.body fuel [] (ws.map Prod.snd) = r' at hread
      cases hread with
      | none => exact .none
      | @some r r' hr =>
        obtain ⟨found, us⟩ := r
        obtain ⟨found', us'⟩ := r'
        obtain ⟨hnodes, vs, hv, rfl, rfl⟩ := hr
        refine .some (.rest (rel_append ?_ hs) hv)
        exact forall₂_map_left_iff.mpr (forall₂_map_right_iff.mpr
          (hnodes.imp fun _ _ hn => hn.withSlot (some s)))
    | node kind a =>
      simp only [Form.solid, Bool.and_eq_true, bne_iff_ne, ne_eq] at hform
      have hread := ih hform.2 hw .nil
      have hfound {found : List Node} {rest : List Token}
          (h : a.read Rule.body fuel [] (ws.map Prod.fst) = some (found, rest)) : found ≠ [] :=
        (Form.reads_of_read h).ne_nil (.inr hform.1.2)
      simp only [Form.read]
      generalize a.read Rule.body fuel [] (ws.map Prod.fst) = r,
        a.read Rule.body fuel [] (ws.map Prod.snd) = r' at hread hfound
      cases hread with
      | none => exact .none
      | @some r r' hr =>
        obtain ⟨found, us⟩ := r
        obtain ⟨found', us'⟩ := r'
        obtain ⟨hnodes, vs, hv, rfl, rfl⟩ := hr
        exact .some (.rest (.cons (.ofReversed hform.1.1 hnodes (hfound rfl) _ _) hs) hv)
    | wrap kind s a =>
      simp only [Form.solid, Bool.and_eq_true, bne_iff_ne, ne_eq] at hform
      cases hs with
      | nil => exact .none
      | @cons last last' before before' hlast hbefore =>
        have hread := ih hform.2 hw (.cons (hlast.withSlot s) .nil)
        have hfound {found : List Node} {rest : List Token}
            (h : a.read Rule.body fuel [last.withSlot s] (ws.map Prod.fst) = some (found, rest)) :
            found ≠ [] := (Form.reads_of_read h).ne_nil (.inl (by simp))
        simp only [Form.read]
        generalize a.read Rule.body fuel [last.withSlot s] (ws.map Prod.fst) = r,
          a.read Rule.body fuel [last'.withSlot s] (ws.map Prod.snd) = r' at hread hfound
        cases hread with
        | none => exact .none
        | @some r r' hr =>
          obtain ⟨found, us⟩ := r
          obtain ⟨found', us'⟩ := r'
          obtain ⟨hnodes, vs, hv, rfl, rfl⟩ := hr
          exact .some (.rest (.cons (.ofReversed hform.1 hnodes (hfound rfl) _ _) hbefore) hv)
    | lastIs kinds =>
      have htest : siblings.head?.any (kinds.contains ·.kind) =
          siblings'.head?.any (kinds.contains ·.kind) := by
        cases hs with
        | nil => rfl
        | cons h _ => simp [h.kind_eq]
      simp only [Form.read, htest]
      split
      · exact .some (.rest hs hw)
      · exact .none
    | lastHolds kinds =>
      have htest : siblings.head?.any (·.holds kinds) = siblings'.head?.any (·.holds kinds) := by
        cases hs with
        | nil => rfl
        | cons h _ => simp [h.holds_eq]
      simp only [Form.read, htest]
      split
      · exact .some (.rest hs hw)
      · exact .none

lemma parseTokens_twin (hm : Matched zs) : Forall₂ (Twin zs) (parseTokens (zs.map Prod.fst)).children
    (parseTokens (zs.map Prod.snd)).children := by
  have hfuel : fuelFor (zs.map Prod.snd) = fuelFor (zs.map Prod.fst) := by simp [fuelFor]
  rw [children_parseTokens, children_parseTokens, hfuel]
  generalize fuelFor (zs.map Prod.fst) - 2 = k
  have hread : Option.Rel (TwinReading zs)
      ((Form.many (.rule .topLevel)).read Rule.body k [] (zs.map Prod.fst))
      ((Form.many (.rule .topLevel)).read Rule.body k [] (zs.map Prod.snd)) :=
    read_twin hm rfl (suffix_refl zs) .nil
  generalize (Form.many (.rule Rule.topLevel)).read Rule.body k [] (zs.map Prod.fst) = r,
    (Form.many (.rule Rule.topLevel)).read Rule.body k [] (zs.map Prod.snd) = r' at hread ⊢
  cases hread with
  | none => exact .nil
  | some hr => exact rel_reverse hr.nodes

end Reading

end JavaAtlas.Syntax
