import JavaAtlas.Json
import JavaAtlas.Position
import JavaAtlas.Proofs.PathNames
import JavaAtlas.Proofs.TokenTexts

/-! Lines and columns against bytes. A byte is found again at its line and column, and a column of a
line that exists has its own byte; a scan of the bytes finds them without ever leaving the text. -/

namespace JavaAtlas.Position

open Text

variable {text : String} {cs : List Char} {pos offset : Nat}

lemma startsAfter_bounds {t : Nat} (h : t ∈ startsAfter pos cs) :
    pos < t ∧ t ≤ pos + byteLength cs := by
  induction cs generalizing pos with
  | nil => cases h
  | cons c cs ih =>
    have hc := c.utf8Size_pos
    rw [startsAfter] at h
    rw [byteLength]
    split at h
    · rcases List.mem_cons.mp h with rfl | h
      · omega
      · have := ih h
        omega
    · have := ih h
      omega

lemma startsAfter_sorted (pos : Nat) (cs : List Char) :
    (pos :: startsAfter pos cs).Pairwise (· < ·) := by
  refine List.pairwise_cons.mpr ⟨fun t ht => (startsAfter_bounds ht).1, ?_⟩
  induction cs generalizing pos with
  | nil => exact .nil
  | cons c cs ih =>
    rw [startsAfter]
    split
    · exact List.pairwise_cons.mpr ⟨fun t ht => (startsAfter_bounds ht).1, ih (pos + 1)⟩
    · exact ih (pos + c.utf8Size)

/-- The starts of the lines around a byte: `start` is the last one up to it. -/
structure Around (text : String) (before : List Nat) (start : Nat) (after : List Nat)
    (offset : Nat) : Prop where
  starts : lineStarts text = before ++ start :: after
  start_le : start ≤ offset
  lt_after : ∀ t ∈ after, offset < t

lemma exists_around (text : String) (offset : Nat) :
    ∃ before start after, Around text before start after offset := by
  have hsorted : (lineStarts text).Pairwise (· < ·) := startsAfter_sorted 0 text.toList
  set reached := (lineStarts text).takeWhile (· ≤ offset) with hreached
  have hsplit : lineStarts text = reached ++ (lineStarts text).dropWhile (· ≤ offset) :=
    List.takeWhile_append_dropWhile.symm
  have hne : reached ≠ [] := by simp [hreached, lineStarts]
  refine ⟨reached.dropLast, reached.getLast hne, (lineStarts text).dropWhile (· ≤ offset), ?_, ?_,
    fun t ht => ?_⟩
  · rw [List.append_cons, List.dropLast_concat_getLast]
    exact hsplit
  · simpa using List.mem_takeWhile_imp (List.getLast_mem hne)
  · obtain ⟨first, rest, hrest⟩ := List.exists_cons_of_ne_nil (List.ne_nil_of_mem ht)
    have hfirst : offset < first := by
      have hnot := List.head?_dropWhile_not (fun t => decide (t ≤ offset)) (lineStarts text)
      rw [hrest] at hnot
      simpa using hnot
    rw [hsplit, hrest] at hsorted
    have hafter := List.pairwise_cons.mp (List.pairwise_append.mp hsorted).2.1
    rw [hrest] at ht
    rcases List.mem_cons.mp ht with rfl | ht
    · exact hfirst
    · exact Nat.lt_trans hfirst (hafter.1 t ht)

namespace Around

variable {before after : List Nat} {start : Nat}

lemma startsUpTo_eq (h : Around text before start after (min offset (byteLength text.toList))) :
    startsUpTo text offset = before ++ [start] := by
  have hsorted : (lineStarts text).Pairwise (· < ·) := startsAfter_sorted 0 text.toList
  rw [h.starts, List.pairwise_append] at hsorted
  have hle := h.start_le
  have hbefore : ∀ t ∈ before, t ≤ min offset (byteLength text.toList) := fun t ht => by
    have := hsorted.2.2 t ht start List.mem_cons_self
    omega
  have hafter : ∀ t ∈ after, ¬ t ≤ min offset (byteLength text.toList) := fun t ht => by
    have := h.lt_after t ht
    omega
  have hkept : List.filter (· ≤ min offset (byteLength text.toList)) before = before :=
    List.filter_eq_self.mpr fun t ht => decide_eq_true (hbefore t ht)
  have hdropped : List.filter (· ≤ min offset (byteLength text.toList)) after = [] :=
    List.filter_eq_nil_iff.mpr fun t ht => by simpa only [decide_eq_true_eq] using hafter t ht
  rw [startsUpTo, h.starts, List.filter_append, hkept, List.filter_cons, if_pos (decide_eq_true hle),
    hdropped]

lemma lineFor_eq (h : Around text before start after (min offset (byteLength text.toList))) :
    lineFor text offset = before.length := by
  rw [lineFor, h.startsUpTo_eq, List.length_append, List.length_singleton, Nat.add_sub_cancel]

lemma columnFor_eq (h : Around text before start after (min offset (byteLength text.toList))) :
    columnFor text offset = min offset (byteLength text.toList) - start := by
  rw [columnFor, h.startsUpTo_eq, List.getLast?_concat, Option.getD_some]

lemma offsetFor_eq (h : Around text before start after offset) (column : Nat) :
    offsetFor text before.length column = min (start + column) (byteLength text.toList) := by
  rw [offsetFor, h.starts, List.getElem?_append_right (Nat.le_refl _), Nat.sub_self]
  rfl

end Around

/-- The line and column of a byte lead back to it. -/
lemma offsetFor_lineFor (text : String) (offset : Nat) :
    offsetFor text (lineFor text offset) (columnFor text offset) =
      min offset (byteLength text.toList) := by
  obtain ⟨before, start, after, h⟩ := exists_around text (min offset (byteLength text.toList))
  have hle := h.start_le
  rw [h.lineFor_eq, h.columnFor_eq, h.offsetFor_eq]
  omega

/-- The lines of a text, without the line breaks; what follows the last break is one, too. -/
def rows (text : String) : List (List Char) := splitChars '\n' text.toList

/-- A line has its start in its place, and the next one begins after its last byte. -/
lemma exists_start (pos : Nat) {line : Nat} {piece : List Char}
    (h : (splitChars '\n' cs)[line]? = some piece) :
    ∃ before start after, pos :: startsAfter pos cs = before ++ start :: after ∧
      before.length = line ∧ start + byteLength piece ≤ pos + byteLength cs ∧
      ∀ t ∈ after, start + byteLength piece < t := by
  induction cs generalizing pos line piece with
  | nil =>
    obtain ⟨rfl, rfl⟩ : line = 0 ∧ [] = piece := by
      cases line <;> simp_all [splitChars]
    exact ⟨[], pos, [], rfl, rfl, Nat.le_refl _, by simp⟩
  | cons c cs ih =>
    rw [splitChars] at h
    rw [startsAfter, byteLength]
    split at h
    · next hc =>
      subst hc
      rw [if_pos rfl]
      cases line with
      | zero =>
        obtain rfl : [] = piece := by simpa using h
        refine ⟨[], pos, _, rfl, rfl, by rw [byteLength]; omega, fun t ht => ?_⟩
        rw [byteLength, Nat.add_zero]
        rcases List.mem_cons.mp ht with rfl | ht
        · omega
        · have := (startsAfter_bounds ht).1
          omega
      | succ line =>
        obtain ⟨before, start, after, hs, hlen, hle, hlt⟩ := ih (pos + 1) h
        refine ⟨pos :: before, start, after, by rw [hs, List.cons_append], by simp [hlen], ?_, hlt⟩
        have hsize : '\n'.utf8Size = 1 := by decide
        omega
    · next hc =>
      rw [if_neg hc]
      obtain ⟨first, rest, hsplit⟩ := List.exists_cons_of_ne_nil (splitChars_ne_nil '\n' cs)
      rw [hsplit] at h ih
      cases line with
      | zero =>
        -- the line is the first one of the rest with one more character in front
        obtain rfl : c :: first = piece := by simpa using h
        obtain ⟨before, start, after, hs, hlen, hle, hlt⟩ :=
          ih (pos + c.utf8Size) (show (first :: rest)[0]? = some first from rfl)
        obtain rfl := List.length_eq_zero_iff.mp hlen
        obtain ⟨rfl, rfl⟩ := List.cons.inj hs
        refine ⟨[], pos, _, rfl, rfl, by rw [byteLength]; omega, fun t ht => ?_⟩
        have := hlt t ht
        rw [byteLength]
        omega
      | succ line =>
        obtain ⟨before, start, after, hs, hlen, hle, hlt⟩ :=
          ih (pos + c.utf8Size) (show (first :: rest)[line + 1]? = some piece from h)
        obtain ⟨first, before, rfl⟩ := List.exists_cons_of_length_eq_add_one hlen
        obtain ⟨rfl, htail⟩ := List.cons.inj hs
        exact ⟨pos :: before, start, after, congrArg (pos :: ·) htail, by simpa using hlen,
          by omega, hlt⟩

/-- The byte at a column of a line has that line and that column. -/
lemma lineFor_offsetFor {line column : Nat} {piece : List Char}
    (h : (rows text)[line]? = some piece) (hc : column ≤ byteLength piece) :
    lineFor text (offsetFor text line column) = line ∧
      columnFor text (offsetFor text line column) = column := by
  obtain ⟨before, start, after, hs, rfl, hle, hlt⟩ := exists_start 0 h
  have haround : Around text before start after (start + column) :=
    ⟨hs, Nat.le_add_right _ _, fun t ht => by have := hlt t ht; omega⟩
  have hmin : min (start + column) (byteLength text.toList) = start + column := by omega
  rw [haround.offsetFor_eq, hmin]
  have hself : Around text before start after (min (start + column) (byteLength text.toList)) := by
    rwa [hmin]
  rw [hself.lineFor_eq, hself.columnFor_eq, hmin, Nat.add_sub_cancel_left]
  exact ⟨rfl, rfl⟩

section Scans

variable {bytes : List UInt8} {α : Type}

def isBreak (b : UInt8) : Bool := b == 10

/-! Arithmetic of machine words and slices of bytes as a scan uses them: where it would overflow or
leave the text, there is no outcome. -/

def plus? (a b : Nat) : Option Nat := if a + b < Json.wordLimit then some (a + b) else none

def minus? (a b : Nat) : Option Nat := if b ≤ a then some (a - b) else none

def bytesFrom? (bytes : List UInt8) (n : Nat) : Option (List UInt8) :=
  if n ≤ bytes.length then some (bytes.drop n) else none

def bytesBefore? (bytes : List UInt8) (n : Nat) : Option (List UInt8) :=
  if n ≤ bytes.length then some (bytes.take n) else none

/-- The start of the line that many lines after a byte; `some none` if there are not so many, and
`none` if an index leaves the text or a sum the machine words. -/
def skipLines? (bytes : List UInt8) : Nat → Nat → Option (Option Nat)
  | 0, offset => some (some offset)
  | n + 1, offset => do
    match (← bytesFrom? bytes offset).findIdx? isBreak with
    | some i => skipLines? bytes n (← plus? offset (← plus? i 1))
    | none => some none

/-- The byte at a line and column, by skipping line breaks; the last sum stops at the greatest word. -/
def scanOffset? (bytes : List UInt8) (line column : Nat) : Option Nat := do
  match ← skipLines? bytes line 0 with
  | some offset => some (min (min (offset + column) (Json.wordLimit - 1)) bytes.length)
  | none => some bytes.length

def scanLine? (bytes : List UInt8) (offset : Nat) : Option Nat := do
  return (← bytesBefore? bytes (min offset bytes.length)).countP isBreak

def lastIdx? (p : α → Bool) : List α → Option Nat
  | [] => none
  | a :: as => ((lastIdx? p as).map (· + 1)).or (if p a then some 0 else none)

/-- The column of a byte, from the last line break before it. -/
def scanColumn? (bytes : List UInt8) (offset : Nat) : Option Nat := do
  let offset := min offset bytes.length
  match lastIdx? isBreak (← bytesBefore? bytes offset) with
  | some i => minus? (← minus? offset i) 1
  | none => some offset

def breaksAfter : Nat → List UInt8 → List Nat
  | _, [] => []
  | pos, b :: bs =>
    if isBreak b then (pos + 1) :: breaksAfter (pos + 1) bs else breaksAfter (pos + 1) bs

def utf8 (cs : List Char) : List UInt8 := cs.flatMap String.utf8EncodeChar

lemma length_utf8 (cs : List Char) : (utf8 cs).length = byteLength cs := by
  induction cs with
  | nil => rfl
  | cons c cs ih =>
    rw [utf8, List.flatMap_cons, List.length_append, ← utf8, ih, String.length_utf8EncodeChar,
      byteLength]

/-- No byte of another character is a line break. -/
lemma isBreak_of_mem {c : Char} (hc : c ≠ '\n') {b : UInt8} (hb : b ∈ String.utf8EncodeChar c) :
    isBreak b = false := by
  have hv : c.val.toNat ≠ 10 := fun h => hc (Char.toNat_inj.mp h)
  have hbyte {n : Nat} (hlt : n < 256) (hn : n ≠ 10) : isBreak (UInt8.ofNat n) = false := by
    rw [isBreak, beq_eq_false_iff_ne]
    intro h
    have heq := congrArg UInt8.toNat h
    rw [UInt8.toNat_ofNat_of_lt' hlt] at heq
    exact hn heq
  have hall : ∀ b ∈ String.utf8EncodeChar c, isBreak b = false := by
    simp only [String.utf8EncodeChar]
    split_ifs
    all_goals simp only [List.forall_mem_cons]
    · exact ⟨hbyte (by omega) hv, List.forall_mem_nil _⟩
    -- every byte of a longer character is at least 128
    · exact ⟨hbyte (by omega) (by omega), hbyte (by omega) (by omega), List.forall_mem_nil _⟩
    · exact ⟨hbyte (by omega) (by omega), hbyte (by omega) (by omega),
        hbyte (by omega) (by omega), List.forall_mem_nil _⟩
    · exact ⟨hbyte (by omega) (by omega), hbyte (by omega) (by omega),
        hbyte (by omega) (by omega), hbyte (by omega) (by omega), List.forall_mem_nil _⟩
  exact hall b hb

lemma breaksAfter_append (pos : Nat) (a b : List UInt8) :
    breaksAfter pos (a ++ b) = breaksAfter pos a ++ breaksAfter (pos + a.length) b := by
  induction a generalizing pos with
  | nil => rfl
  | cons x a ih =>
    simp only [List.cons_append, breaksAfter, List.length_cons, ih]
    rw [Nat.add_assoc, Nat.add_comm 1]
    split <;> rfl

lemma breaksAfter_eq_nil (h : ∀ b ∈ bytes, isBreak b = false) : breaksAfter pos bytes = [] := by
  induction bytes generalizing pos with
  | nil => rfl
  | cons b bytes ih =>
    obtain ⟨hb, hbytes⟩ := List.forall_mem_cons.mp h
    rw [breaksAfter, hb, if_neg Bool.false_ne_true, ih hbytes]

lemma startsAfter_eq (pos : Nat) (cs : List Char) :
    startsAfter pos cs = breaksAfter pos (utf8 cs) := by
  induction cs generalizing pos with
  | nil => rfl
  | cons c cs ih =>
    rw [utf8, List.flatMap_cons, ← utf8, breaksAfter_append, String.length_utf8EncodeChar,
      startsAfter]
    split
    · next hc =>
      subst hc
      rw [ih]
      rfl
    · next hc =>
      rw [breaksAfter_eq_nil fun b hb => isBreak_of_mem hc hb, List.nil_append, ih]

lemma breaksAfter_of_findIdx? (pos : Nat) {i : Nat} (h : bytes.findIdx? isBreak = some i) :
    i < bytes.length ∧ breaksAfter pos bytes =
      (pos + (i + 1)) :: breaksAfter (pos + (i + 1)) (bytes.drop (i + 1)) := by
  induction bytes generalizing pos i with
  | nil => cases h
  | cons b bytes ih =>
    rw [List.findIdx?_cons] at h
    rw [breaksAfter]
    split at h
    · next hb =>
      obtain rfl := Option.some.inj h
      rw [if_pos hb]
      exact ⟨by simp, rfl⟩
    · next hb =>
      obtain ⟨j, hj, rfl⟩ := Option.map_eq_some_iff.mp h
      obtain ⟨hlt, heq⟩ := ih (pos + 1) hj
      rw [if_neg hb, heq, List.drop_succ_cons, List.length_cons, Nat.add_assoc, Nat.add_comm 1]
      exact ⟨Nat.succ_lt_succ hlt, rfl⟩

lemma skipLines?_eq (hlen : bytes.length < Json.wordLimit) (n : Nat) (h : offset ≤ bytes.length) :
    skipLines? bytes n offset =
      some ((offset :: breaksAfter offset (bytes.drop offset))[n]?) := by
  induction n generalizing offset with
  | zero => rfl
  | succ n ih =>
    rw [skipLines?, bytesFrom?, if_pos h]
    simp only [Option.bind_eq_bind, Option.bind_some, List.getElem?_cons_succ]
    cases hfind : (bytes.drop offset).findIdx? isBreak with
    | none =>
      have hno : ∀ b ∈ bytes.drop offset, isBreak b = false := List.findIdx?_eq_none_iff.mp hfind
      rw [breaksAfter_eq_nil hno]
      rfl
    | some i =>
      obtain ⟨hi, hbreaks⟩ := breaksAfter_of_findIdx? offset hfind
      rw [List.length_drop] at hi
      have hone : plus? i 1 = some (i + 1) := if_pos (by omega)
      have hsum : plus? offset (i + 1) = some (offset + (i + 1)) := if_pos (by omega)
      simp only [hone, hsum, Option.bind_some]
      rw [ih (by omega), hbreaks, List.drop_drop]

lemma breaksAfter_gt {t : Nat} (h : t ∈ breaksAfter pos bytes) : pos < t := by
  induction bytes generalizing pos with
  | nil => cases h
  | cons b bytes ih =>
    rw [breaksAfter] at h
    split at h
    · rcases List.mem_cons.mp h with rfl | h
      · omega
      · exact Nat.lt_of_succ_lt (ih h)
    · exact Nat.lt_of_succ_lt (ih h)

/-- The line breaks up to an index are those of the bytes before it. -/
lemma filter_breaksAfter (pos : Nat) (bytes : List UInt8) (k : Nat) :
    (breaksAfter pos bytes).filter (· ≤ pos + k) = breaksAfter pos (bytes.take k) := by
  induction bytes generalizing pos k with
  | nil => simp [breaksAfter]
  | cons b bytes ih =>
    cases k with
    | zero =>
      refine List.filter_eq_nil_iff.mpr fun t ht => ?_
      simpa using breaksAfter_gt ht
    | succ k =>
      have hrest := ih (pos + 1) k
      rw [Nat.add_assoc, Nat.add_comm 1] at hrest
      rw [List.take_succ_cons, breaksAfter, breaksAfter]
      split
      · rw [List.filter_cons_of_pos (by simp), hrest]
      · exact hrest

lemma length_breaksAfter : (breaksAfter pos bytes).length = bytes.countP isBreak := by
  induction bytes generalizing pos with
  | nil => rfl
  | cons b bytes ih =>
    rw [breaksAfter]
    split
    · next hb => rw [List.length_cons, ih, List.countP_cons_of_pos hb]
    · next hb => rw [ih, List.countP_cons_of_neg hb]

lemma getLast?_breaksAfter :
    (breaksAfter pos bytes).getLast? = (lastIdx? isBreak bytes).map (pos + · + 1) := by
  induction bytes generalizing pos with
  | nil => rfl
  | cons b bytes ih =>
    rw [breaksAfter, lastIdx?]
    split
    · next hb =>
      rw [List.getLast?_cons, ih]
      cases lastIdx? isBreak bytes <;> simp [Nat.add_assoc, Nat.add_comm 1]
    · rw [ih]
      cases lastIdx? isBreak bytes <;> simp [Nat.add_assoc, Nat.add_comm 1]

lemma lt_of_lastIdx? {p : α → Bool} {as : List α} {i : Nat} (h : lastIdx? p as = some i) :
    i < as.length := by
  induction as generalizing i with
  | nil => cases h
  | cons a as ih =>
    rw [lastIdx?] at h
    cases hi : lastIdx? p as with
    | none =>
      obtain ⟨-, rfl⟩ : p a = true ∧ 0 = i := by simpa [hi] using h
      exact Nat.succ_pos _
    | some j =>
      obtain rfl : j + 1 = i := by simpa [hi] using h
      exact Nat.succ_lt_succ (ih hi)

/-- In a text that fits into memory the scans never leave it, whatever they are asked for, and they
find what the starts of its lines say. -/
lemma scans_eq (hlen : byteLength text.toList < Json.wordLimit) (line column offset : Nat) :
    scanOffset? (utf8 text.toList) line column = some (offsetFor text line column) ∧
      scanLine? (utf8 text.toList) offset = some (lineFor text offset) ∧
      scanColumn? (utf8 text.toList) offset = some (columnFor text offset) := by
  have hbytes : (utf8 text.toList).length = byteLength text.toList := length_utf8 _
  have hstarts : lineStarts text = 0 :: breaksAfter 0 (utf8 text.toList) := by
    rw [lineStarts, startsAfter_eq]
  have hupTo : startsUpTo text offset =
      0 :: breaksAfter 0 ((utf8 text.toList).take (min offset (byteLength text.toList))) := by
    have hfilter := filter_breaksAfter 0 (utf8 text.toList)
      (min offset (byteLength text.toList))
    rw [Nat.zero_add] at hfilter
    rw [startsUpTo, hstarts, List.filter_cons_of_pos (by simp), hfilter]
  have hbefore : bytesBefore? (utf8 text.toList) (min offset (byteLength text.toList)) =
      some ((utf8 text.toList).take (min offset (byteLength text.toList))) :=
    if_pos (by rw [hbytes]; exact Nat.min_le_right _ _)
  refine ⟨?_, ?_, ?_⟩
  · rw [scanOffset?, skipLines?_eq (by rwa [hbytes]) line (Nat.zero_le _), List.drop_zero, ← hstarts,
      offsetFor, hbytes]
    cases (lineStarts text)[line]? with
    | none => rfl
    | some start =>
      simp only [Option.bind_eq_bind, Option.bind_some]
      congr 1
      omega
  · rw [scanLine?, hbytes, hbefore, lineFor, hupTo, List.length_cons, Nat.add_sub_cancel,
      length_breaksAfter]
    rfl
  · rw [scanColumn?, hbytes, columnFor, hupTo, List.getLast?_cons, getLast?_breaksAfter]
    simp only [hbefore, Option.bind_eq_bind, Option.bind_some]
    cases hlast : lastIdx? isBreak
        ((utf8 text.toList).take (min offset (byteLength text.toList))) with
    | none => rfl
    | some i =>
      have hi := lt_of_lastIdx? hlast
      rw [List.length_take, hbytes] at hi
      have hsub : minus? (min offset (byteLength text.toList)) i =
          some (min offset (byteLength text.toList) - i) := if_pos (by omega)
      have hone : minus? (min offset (byteLength text.toList) - i) 1 =
          some (min offset (byteLength text.toList) - i - 1) := if_pos (by omega)
      simp only [hsub, hone, Option.bind_some, Option.map_some, Option.getD_some]
      congr 1
      omega

end Scans

end JavaAtlas.Position
