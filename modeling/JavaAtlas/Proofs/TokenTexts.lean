import JavaAtlas.Syntax.Tree
import Mathlib.Data.List.TakeWhile
import Mathlib.Tactic.Common

/-! Where tokens stand in the source. The tokens of a source follow one another with nothing but
white space between, and what lies between the first byte of one and the last of another is their
spellings with these gaps. -/

namespace JavaAtlas.Text

@[simp] lemma byteLength_append (a b : List Char) :
    byteLength (a ++ b) = byteLength a + byteLength b := by
  induction a with
  | nil => simp [byteLength]
  | cons c a ih =>
    simp only [List.cons_append, byteLength, ih]
    omega

lemma byteLength_eq_zero {a : List Char} (h : byteLength a = 0) : a = [] := by
  cases a with
  | nil => rfl
  | cons c a =>
    have hc := c.utf8Size_pos
    simp only [byteLength] at h
    omega

lemma byteLength_cons_sub (c : Char) (a : List Char) :
    ∃ k, byteLength (c :: a) = k + 1 ∧ k + 1 - c.utf8Size = byteLength a := by
  have hc := c.utf8Size_pos
  refine ⟨c.utf8Size + byteLength a - 1, ?_, by omega⟩
  rw [byteLength]
  omega

lemma dropBytes_append (a b : List Char) : dropBytes (byteLength a) (a ++ b) = b := by
  induction a with
  | nil => rw [byteLength, dropBytes, List.nil_append]
  | cons c a ih =>
    obtain ⟨k, hk, hrest⟩ := byteLength_cons_sub c a
    rw [hk, List.cons_append, dropBytes, hrest, ih]

lemma takeBytes_append (a b : List Char) : takeBytes (byteLength a) (a ++ b) = a := by
  induction a with
  | nil => rw [byteLength, takeBytes]
  | cons c a ih =>
    obtain ⟨k, hk, hrest⟩ := byteLength_cons_sub c a
    rw [hk, List.cons_append, takeBytes, hrest, ih]

lemma slice_append (a b c : List Char) :
    slice (a ++ b ++ c) (byteLength a) (byteLength a + byteLength b) = String.ofList b := by
  rw [slice, sliceBytes, List.append_assoc, dropBytes_append, Nat.add_sub_cancel_left,
    takeBytes_append]

end JavaAtlas.Text

namespace JavaAtlas.Syntax

open Text

/-- The rest of a block comment, which ends with its first star and slash. -/
inductive Closes : List Char → Prop
  | stop : Closes ['*', '/']
  | step {c : Char} {cs : List Char} : ¬ (c = '*' ∧ cs.head? = some '/') → Closes cs →
      Closes (c :: cs)

/-- What a comment and the text after it look like. -/
inductive Finished : List Char → List Char → Prop
  | block {body next : List Char} : Closes body → Finished ('/' :: '*' :: body) next
  | line {body next : List Char} : '\n' ∉ body → Finished ('/' :: '/' :: body) ('\n' :: next)

lemma Finished.of_append {cs next rest : List Char} (h : Finished cs (next ++ rest))
    (hne : next ≠ []) : Finished cs next := by
  generalize hn : next ++ rest = tail at h
  cases h with
  | block hc => exact .block hc
  | line hb =>
    cases next with
    | nil => exact absurd rfl hne
    | cons d next =>
      obtain rfl : d = '\n' := (List.cons.inj hn).1
      exact .line hb

/-- The text from the first token to the last. Only white space stands between two tokens, a comment
that another token follows is finished, and a word ends where no character goes on with it. -/
inductive Laid : List Token → List Char → Prop
  | one (t : Token) : Laid [t] t.spelling.toList
  | cons {t u : Token} {us : List Token} {gap body : List Char} :
      (∀ c ∈ gap, isBlank c = true) → t.stop + byteLength gap = u.start →
      (t.cls = .comment → Finished t.spelling.toList (gap ++ body)) →
      (t.cls = .word → ∀ c ∈ (gap ++ body).head?, isIdentifierPart c = false) → Laid (u :: us) body →
      Laid (t :: u :: us) (t.spelling.toList ++ gap ++ body)

lemma scanComment_closes (cs : List Char) :
    Closes (cs.take (scanComment cs)) ∨ scanComment cs = cs.length := by
  fun_induction scanComment cs with
  | case1 => exact .inr rfl
  | case2 cs => exact .inl .stop
  | case3 c cs hno ih =>
    rcases ih with ih | ih
    · left
      rw [List.take_succ_cons]
      refine .step ?_ ih
      rintro ⟨rfl, hh⟩
      obtain ⟨d, hd⟩ := List.head?_eq_some_iff.mp hh
      have hcs : cs = '/' :: (d ++ cs.drop (scanComment cs)) := by
        rw [← List.cons_append, ← hd, List.take_append_drop]
      exact hno _ rfl hcs
    · exact .inr (by rw [ih, List.length_cons])

lemma scanToken_comment {splices splices' : Splices} {cs : List Char} {n : Nat}
    (h : scanToken splices cs = (.comment, n, splices')) :
    (∃ rest, cs = '/' :: '/' :: rest ∧ n = 2 + (rest.takeWhile (· != '\n')).length) ∨
      ∃ rest, cs = '/' :: '*' :: rest ∧ n = 2 + scanComment rest := by
  unfold scanToken at h
  split at h
  · exact .inl ⟨_, rfl, by simpa using (Prod.mk.inj (Prod.mk.inj h).2).1.symm⟩
  · exact .inr ⟨_, rfl, by simpa using (Prod.mk.inj (Prod.mk.inj h).2).1.symm⟩
  · dsimp only at h
    split at h <;> simp at h
  all_goals repeat' split at h
  all_goals simp at h

lemma scanToken_word {splices splices' : Splices} {cs : List Char} {n : Nat}
    (h : scanToken splices cs = (.word, n, splices')) :
    ∃ c rest, cs = c :: rest ∧ isIdentifierStart c = true ∧
      n = 1 + (rest.takeWhile isIdentifierPart).length := by
  unfold scanToken at h
  split at h
  · simp at h
  · simp at h
  · dsimp only at h
    split at h <;> simp at h
  · simp at h
  · split at h <;> simp at h
  · split at h
    · split at h <;> simp at h
    · simp at h
    · simp at h
  · split at h
    · next hc => exact ⟨_, _, rfl, hc, by simpa using (Prod.mk.inj (Prod.mk.inj h).2).1.symm⟩
    · split at h <;> simp at h
  · simp at h

/-- A token as it is read off the characters that begin with its spelling; `rest` are the others. -/
structure TokenAt (splices : Splices) (t : Token) (rest : List Char) : Prop where
  ne_nil : t.spelling.toList ≠ []
  stop_eq : t.stop = t.start + byteLength t.spelling.toList
  head_eq : ∀ c ∈ t.spelling.toList.head?, isBlank c = false
  scan : ∃ n splices', scanToken splices (t.spelling.toList ++ rest) = (t.cls, n, splices') ∧
    t.spelling.toList = (t.spelling.toList ++ rest).take (max n 1)

/-- The first token of some characters, the ones that are passed over before it, and the tokens of
those after it. -/
lemma lexFrom_eq_cons {fuel : Nat} {splices : Splices} {pos : Nat} {cs : List Char} {t : Token}
    {ts : List Token} (h : lexFrom fuel splices pos cs = t :: ts) :
    ∃ lead rest fuel' splices', cs = lead ++ (t.spelling.toList ++ rest) ∧
      (pos ≠ 0 → ∀ c ∈ lead, isBlank c = true) ∧ t.start = pos + byteLength lead ∧
      TokenAt splices t rest ∧ ts = lexFrom fuel' splices' t.stop rest := by
  induction fuel generalizing pos cs with
  | zero => simp [lexFrom] at h
  | succ fuel ih =>
    cases cs with
    | nil => simp [lexFrom] at h
    | cons c cs =>
      rw [lexFrom] at h
      split at h
      · next hskip =>
        obtain ⟨lead, rest, fuel', splices', hcs, hlead, hstart, htoken, hts⟩ := ih h
        refine ⟨c :: lead, rest, fuel', splices', by rw [hcs, List.cons_append], ?_, ?_, htoken, hts⟩
        · intro hpos d hd
          have hc : isBlank c = true := by simpa [hpos] using hskip
          rcases List.mem_cons.mp hd with rfl | hd
          · exact hc
          · exact hlead (by omega) d hd
        · rw [hstart, byteLength]
          omega
      · next hskip =>
        rcases hs : scanToken splices (c :: cs) with ⟨cls, n, splices'⟩
        rw [hs] at h
        obtain ⟨rfl, rfl⟩ := List.cons.inj h
        have hne : (c :: cs).take (max n 1) ≠ [] := by simp
        have hhead : (c :: cs).take (max n 1) = c :: cs.take (max n 1 - 1) := by
          rw [List.take_cons (by omega)]
        have hsplit := List.take_append_drop (max n 1) (c :: cs)
        refine ⟨[], (c :: cs).drop (max n 1), fuel, splices', ?_, by simp, rfl, ⟨?_, ?_, ?_, ?_⟩, ?_⟩
        · simp
        · simp
        · simp
        · intro d hd
          simp only [String.toList_ofList, hhead, List.head?_cons, Option.mem_some_iff] at hd
          subst hd
          simp only [Bool.or_eq_true, not_or, Bool.not_eq_true] at hskip
          exact hskip.1
        · refine ⟨n, splices', ?_, ?_⟩
          · rw [String.toList_ofList, hsplit, hs]
          · rw [String.toList_ofList, hsplit]
        · rfl

namespace TokenAt

variable {splices : Splices} {t : Token} {rest : List Char}

/-- A token of two marks and a known number of characters more. -/
lemma split_eq (h : TokenAt splices t rest) {a b : Char} {tail : List Char} {k : Nat}
    {splices' : Splices} (hcs : t.spelling.toList ++ rest = a :: b :: tail)
    (hs : scanToken splices (t.spelling.toList ++ rest) = (t.cls, 2 + k, splices')) :
    t.spelling.toList = a :: b :: tail.take k ∧ rest = tail.drop k := by
  obtain ⟨n, _, hs', ht⟩ := h.scan
  obtain rfl : n = 2 + k := by
    rw [hs] at hs'
    simpa using (Prod.mk.inj (Prod.mk.inj hs').2).1.symm
  have hmax : max (2 + k) 1 = k + 1 + 1 := by omega
  rw [hmax] at ht
  have hspell : t.spelling.toList = a :: b :: tail.take k := by
    rw [hcs, List.take_succ_cons, List.take_succ_cons] at ht
    exact ht
  refine ⟨hspell, ?_⟩
  rw [hspell] at hcs
  have htail : tail.take k ++ rest = tail := by simpa using hcs
  exact List.append_cancel_left (htail.trans (List.take_append_drop k tail).symm)

lemma finished (h : TokenAt splices t rest) (hc : t.cls = .comment) (hne : rest ≠ []) :
    Finished t.spelling.toList rest := by
  obtain ⟨n, splices', hs, -⟩ := h.scan
  have hs' := hs
  rw [hc] at hs'
  rcases scanToken_comment hs' with ⟨tail, hcs, rfl⟩ | ⟨tail, hcs, rfl⟩
  · obtain ⟨hspell, hrest⟩ := h.split_eq hcs hs
    have htake := (List.prefix_iff_eq_take.mp (tail.takeWhile_prefix (· != '\n'))).symm
    have hdrop : rest = tail.dropWhile (· != '\n') := by
      have hsplit : tail.takeWhile (· != '\n') ++ rest = tail := by
        rw [hrest]
        nth_rewrite 1 [← htake]
        rw [List.take_append_drop]
      exact List.append_cancel_left (hsplit.trans List.takeWhile_append_dropWhile.symm)
    rw [hspell, htake]
    cases hd : tail.dropWhile (· != '\n') with
    | nil => exact absurd (hdrop.trans hd) hne
    | cons d ds =>
      have hline : (d != '\n') = false := by
        have hhead := List.head_dropWhile_not (· != '\n') (l := tail) (by simp [hd])
        simpa [hd] using hhead
      obtain rfl : d = '\n' := by simpa using hline
      rw [hdrop, hd]
      refine .line fun hmem => ?_
      simpa using List.mem_takeWhile_imp hmem
  · obtain ⟨hspell, hrest⟩ := h.split_eq hcs hs
    rw [hspell]
    rcases scanComment_closes tail with hclose | hlen
    · exact .block hclose
    · exact absurd (by rw [hrest, hlen, List.drop_length]) hne

/-- A word holds only characters of names, and all of them that stand there. -/
lemma word (h : TokenAt splices t rest) (hc : t.cls = .word) :
    ∃ c cs, t.spelling.toList = c :: cs ∧ isIdentifierStart c = true ∧
      (∀ d ∈ cs, isIdentifierPart d = true) ∧ ∀ d ∈ rest.head?, isIdentifierPart d = false := by
  obtain ⟨n, splices', hs, ht⟩ := h.scan
  rw [hc] at hs
  obtain ⟨c, tail, hcs, hstart, rfl⟩ := scanToken_word hs
  have hmax : max (1 + (tail.takeWhile isIdentifierPart).length) 1 =
      (tail.takeWhile isIdentifierPart).length + 1 := by omega
  rw [hcs, hmax, List.take_succ_cons,
    ← List.prefix_iff_eq_take.mp (tail.takeWhile_prefix isIdentifierPart)] at ht
  refine ⟨c, _, ht, hstart, fun d hd => List.mem_takeWhile_imp hd, fun d hd => ?_⟩
  rw [ht, List.cons_append] at hcs
  have hrest : rest = tail.dropWhile isIdentifierPart :=
    List.append_cancel_left ((List.cons.inj hcs).2.trans List.takeWhile_append_dropWhile.symm)
  have hnot := List.head?_dropWhile_not isIdentifierPart tail
  rw [← hrest, Option.mem_def.mp hd] at hnot
  simpa using hnot

/-- What begins like a name is a word. -/
lemma cls_eq_word (h : TokenAt splices t rest) {c : Char} (hc : t.spelling.toList.head? = some c)
    (hstart : isIdentifierStart c = true) : t.cls = .word := by
  obtain ⟨cs, hcs⟩ := List.head?_eq_some_iff.mp hc
  obtain ⟨n, splices', hs, -⟩ := h.scan
  rw [hcs, List.cons_append] at hs
  have hne {d : Char} (hd : isIdentifierStart d = false) : c ≠ d := by
    rintro rfl
    rw [hd] at hstart
    cases hstart
  have hslash : c ≠ '/' := hne (by decide)
  have hquote : c ≠ '"' := hne (by decide)
  have htick : c ≠ '\'' := hne (by decide)
  have hopen : c ≠ '\x7b' := hne (by decide)
  have hclose : c ≠ '\x7d' := hne (by decide)
  unfold scanToken at hs
  split at hs
  all_goals simp_all

end TokenAt

section Laid

variable {fuel pos : Nat} {splices : Splices} {cs : List Char} {t : Token} {us post : List Token}

lemma Laid.ne_nil {body : List Char} (h : Laid us body) (hne : ∀ t ∈ us, t.spelling.toList ≠ []) :
    body ≠ [] := by
  cases h with
  | one t => exact hne t (List.mem_singleton_self t)
  | @cons t u us gap body _ _ _ _ _ =>
    have ht := hne t List.mem_cons_self
    simp [ht]

lemma spelling_ne_nil_of_lexFrom (ht : t ∈ lexFrom fuel splices pos cs) :
    t.spelling.toList ≠ [] := by
  generalize hts : lexFrom fuel splices pos cs = ts at ht
  induction ts generalizing fuel splices pos cs with
  | nil => simp at ht
  | cons u ts ih =>
    obtain ⟨lead, rest, fuel', splices', -, -, -, hu, hts'⟩ := lexFrom_eq_cons hts
    rcases List.mem_cons.mp ht with rfl | ht
    · exact hu.ne_nil
    · exact ih hts'.symm ht

/-- The first tokens of some characters are laid out at their front, after what is passed over. -/
lemma lexFrom_laid (h : lexFrom fuel splices pos cs = t :: us ++ post) :
    ∃ lead body rest, cs = lead ++ body ++ rest ∧ Laid (t :: us) body ∧
      (pos ≠ 0 → ∀ c ∈ lead, isBlank c = true) ∧ t.start = pos + byteLength lead ∧
      ∀ last ∈ (t :: us).getLast?, last.stop = t.start + byteLength body := by
  induction us generalizing fuel splices pos cs t with
  | nil =>
    obtain ⟨lead, rest, _, _, hcs, hlead, hstart, ht, -⟩ := lexFrom_eq_cons h
    refine ⟨lead, t.spelling.toList, rest, by rw [hcs, List.append_assoc], .one t, hlead, hstart, ?_⟩
    intro last hl
    obtain rfl : t = last := by simpa using hl
    exact ht.stop_eq
  | cons u us ih =>
    obtain ⟨lead, rest, fuel', splices', hcs, hlead, hstart, ht, hrest⟩ := lexFrom_eq_cons h
    obtain ⟨gap, body, after, hcs', hlaid, hgap, hustart, hlast⟩ := ih hrest.symm
    have hpos : t.stop ≠ 0 := by
      have hb : byteLength t.spelling.toList ≠ 0 := fun hz => ht.ne_nil (byteLength_eq_zero hz)
      have hstop := ht.stop_eq
      omega
    have hbody : body ≠ [] := hlaid.ne_nil fun v hv => by
      have hv' : v ∈ lexFrom fuel' splices' t.stop rest := by
        rw [← hrest]
        exact List.mem_append_left post hv
      exact spelling_ne_nil_of_lexFrom hv'
    refine ⟨lead, t.spelling.toList ++ gap ++ body, after, ?_, ?_, hlead, hstart, ?_⟩
    · rw [hcs, hcs']
      simp only [List.append_assoc]
    · refine .cons (hgap hpos) hustart.symm (fun hc => ?_) (fun hc c hm => ?_) hlaid
      · have hf := ht.finished hc (by rw [hcs']; simp [hbody])
        rw [hcs'] at hf
        exact hf.of_append (by simp [hbody])
      · obtain ⟨_, _, -, -, -, hends⟩ := ht.word hc
        refine hends c ?_
        rw [hcs', List.head?_append]
        simp [Option.mem_def.mp hm]
    · intro last hl
      have hstop := hlast last (by simpa using hl)
      rw [hstop, hustart, ht.stop_eq]
      simp only [byteLength_append]
      omega

lemma lexFrom_append {pre us : List Token} (h : lexFrom fuel splices pos cs = pre ++ us) :
    ∃ lead rest fuel' splices', cs = lead ++ rest ∧
      lexFrom fuel' splices' (pos + byteLength lead) rest = us := by
  induction pre generalizing fuel splices pos cs with
  | nil => exact ⟨[], cs, fuel, splices, rfl, h⟩
  | cons t pre ih =>
    obtain ⟨lead, rest, fuel', splices', hcs, -, hstart, ht, hrest⟩ := lexFrom_eq_cons h
    obtain ⟨lead', rest', fuel'', splices'', hcs', hus⟩ := ih hrest.symm
    refine ⟨lead ++ (t.spelling.toList ++ lead'), rest', fuel'', splices'', ?_, ?_⟩
    · rw [hcs, hcs']
      simp only [List.append_assoc]
    · rw [← hus, ht.stop_eq, hstart]
      simp only [byteLength_append, Nat.add_assoc]

end Laid

/-- The text between two tokens of a source, both included. -/
lemma slice_laid {source : List Char} {pre us post : List Token} {t last : Token}
    (h : lex source = pre ++ (t :: us) ++ post) (hl : (t :: us).getLast? = some last) :
    ∃ body, slice source t.start last.stop = String.ofList body ∧ Laid (t :: us) body := by
  rw [List.append_assoc] at h
  obtain ⟨lead, rest, fuel, splices, hsource, hus⟩ := lexFrom_append h
  obtain ⟨lead', body, after, hrest, hlaid, -, hstart, hlast⟩ := lexFrom_laid hus
  refine ⟨body, ?_, hlaid⟩
  have hall : source = (lead ++ lead') ++ body ++ after := by
    rw [hsource, hrest]
    simp only [List.append_assoc]
  have hfirst : t.start = byteLength (lead ++ lead') := by
    rw [hstart, byteLength_append]
    omega
  rw [hlast last hl, hfirst, hall, slice_append]

lemma slice_token {source : List Char} {t : Token} (h : t ∈ lex source) :
    slice source t.start t.stop = t.spelling := by
  obtain ⟨pre, post, hlex⟩ := List.append_of_mem h
  have hone : lex source = pre ++ [t] ++ post := by simpa using hlex
  have hlast : [t].getLast? = some t := rfl
  obtain ⟨body, hslice, hlaid⟩ := slice_laid hone hlast
  cases hlaid
  rw [hslice, String.ofList_toList]

lemma tokenAt_of_mem_lex {source : List Char} {t : Token} (h : t ∈ lex source) :
    ∃ splices rest, TokenAt splices t rest := by
  obtain ⟨pre, post, hlex⟩ := List.append_of_mem h
  obtain ⟨_, _, fuel, splices, -, hus⟩ := lexFrom_append hlex
  obtain ⟨_, rest, _, _, -, -, -, ht, -⟩ := lexFrom_eq_cons hus
  exact ⟨splices, rest, ht⟩

end JavaAtlas.Syntax
