import JavaAtlas.Command
import JavaAtlas.Proofs.ModuleChains

/-! What is kept of an output. A line is kept if there is room for it behind those that are kept already,
so a long line may be left out between short ones. What is kept never passes the limit, it is everything
that was written if that fits, and it is a beginning of it if no line fits behind the first one that
does not. -/

namespace JavaAtlas.Command

open FileTree

variable {lines before after : List String} {line : String} {bytes rest : List UInt8} {size : Nat}

/-- Lines as they are kept, each ended by a line feed. -/
def joined (lines : List String) : String := String.join (lines.map (· ++ "\n"))

def textSize (lines : List String) : Nat := (joined lines).utf8ByteSize

lemma joined_cons (line : String) (lines : List String) :
    joined (line :: lines) = line ++ "\n" ++ joined lines := by
  simp [joined, String.join_cons]

lemma textSize_cons (line : String) (lines : List String) :
    textSize (line :: lines) = line.utf8ByteSize + 1 + textSize lines := by
  rw [textSize, joined_cons, String.utf8ByteSize_append, String.utf8ByteSize_append]
  rfl

/-! ### Which lines are kept -/

lemma keepLines_sublist (size : Nat) (lines : List String) : (keepLines size lines).Sublist lines := by
  induction lines generalizing size with
  | nil => exact .slnil
  | cons line lines ih =>
    rw [keepLines]
    split
    · exact (ih _).cons_cons line
    · exact (ih _).cons line

lemma keepLines_append (size : Nat) (before after : List String) :
    keepLines size (before ++ after) =
      keepLines size before ++ keepLines (size + textSize (keepLines size before)) after := by
  induction before generalizing size with
  | nil => rfl
  | cons line before ih =>
    rw [List.cons_append, keepLines, keepLines]
    split
    · rw [ih, List.cons_append, textSize_cons]
      congr 3
      omega
    · exact ih size

lemma textSize_keepLines_le (h : size ≤ captureLimit) (lines : List String) :
    size + textSize (keepLines size lines) ≤ captureLimit := by
  induction lines generalizing size with
  | nil => exact h
  | cons line lines ih =>
    rw [keepLines]
    split
    · next hfits =>
      have hle := @ih (size + line.utf8ByteSize + 1) hfits
      rw [textSize_cons]
      omega
    · exact ih h

lemma keepLines_eq_self (h : size + textSize lines ≤ captureLimit) : keepLines size lines = lines := by
  induction lines generalizing size with
  | nil => rfl
  | cons line lines ih =>
    rw [textSize_cons] at h
    rw [keepLines, if_pos (by omega), ih (by omega)]

lemma keepLines_eq_nil_iff :
    keepLines size lines = [] ↔ ∀ line ∈ lines, captureLimit ≤ size + line.utf8ByteSize := by
  induction lines with
  | nil => simp [keepLines]
  | cons line lines ih =>
    rw [keepLines, List.forall_mem_cons, ← ih]
    split
    · next hfits =>
      simp only [List.cons_ne_nil, false_iff, not_and]
      omega
    · next hfits => simp only [Nat.le_of_not_lt hfits, true_and]

lemma head_keepLines_fits (h : line ∈ (keepLines size lines).head?) :
    size + line.utf8ByteSize < captureLimit := by
  induction lines with
  | nil => cases h
  | cons first lines ih =>
    rw [keepLines] at h
    split at h
    · next hfits =>
      obtain rfl : first = line := by simpa using h
      exact hfits
    · exact ih h

lemma exists_first_dropped (h : size ≤ captureLimit) (lines : List String) :
    size + textSize lines ≤ captureLimit ∨ ∃ before dropped after, lines = before ++ dropped :: after ∧
      size + textSize before ≤ captureLimit ∧
      captureLimit ≤ size + textSize before + dropped.utf8ByteSize := by
  induction lines generalizing size with
  | nil => exact .inl h
  | cons line lines ih =>
    rw [textSize_cons]
    by_cases hfits : size + line.utf8ByteSize < captureLimit
    · rcases ih (Nat.succ_le_of_lt hfits) with hall | ⟨before, dropped, after, rfl, hbefore, hdropped⟩
      · exact .inl (by omega)
      · refine .inr ⟨line :: before, dropped, after, rfl, ?_, ?_⟩
        all_goals
          rw [textSize_cons]
          omega
    · exact .inr ⟨[], line, lines, rfl, h, Nat.le_of_not_lt hfits⟩

/-- Behind the first line that does not fit only those are kept that do. -/
lemma keepLines_first_dropped {dropped : String} (hbefore : textSize before ≤ captureLimit)
    (hdropped : captureLimit ≤ textSize before + dropped.utf8ByteSize) :
    keepLines 0 (before ++ dropped :: after) = before ++ keepLines (textSize before) after := by
  have hself : keepLines 0 before = before := keepLines_eq_self (by rwa [Nat.zero_add])
  rw [keepLines_append, hself, Nat.zero_add, keepLines, if_neg (Nat.not_lt.mpr hdropped)]

/-- No line fits behind the first one that does not. -/
def NoneFitsLater (lines : List String) : Prop :=
  ∀ before dropped after, lines = before ++ dropped :: after → textSize before ≤ captureLimit →
    captureLimit ≤ textSize before + dropped.utf8ByteSize →
    ∀ line ∈ after, captureLimit ≤ textSize before + line.utf8ByteSize

lemma keepLines_isPrefix_iff : keepLines 0 lines <+: lines ↔ NoneFitsLater lines := by
  constructor
  · rintro hbeginning before dropped after rfl hbefore hdropped
    rw [keepLines_first_dropped hbefore hdropped, List.prefix_append_right_inj] at hbeginning
    apply keepLines_eq_nil_iff.mp
    cases hkept : keepLines (textSize before) after with
    | nil => rfl
    | cons first kept =>
      -- the first line that is kept later would be the one that does not fit
      rw [hkept] at hbeginning
      obtain ⟨rfl, -⟩ := List.cons_prefix_cons.mp hbeginning
      have hfits := head_keepLines_fits (hkept ▸ List.head?_cons)
      omega
  · intro hlater
    rcases exists_first_dropped (Nat.zero_le captureLimit) lines with
      hall | ⟨before, dropped, after, rfl, hbefore, hdropped⟩
    · exact (keepLines_eq_self hall).symm ▸ List.prefix_rfl
    · rw [Nat.zero_add] at hbefore hdropped
      have hnone := keepLines_eq_nil_iff.mpr (hlater before dropped after rfl hbefore hdropped)
      rw [keepLines_first_dropped hbefore hdropped, hnone, List.append_nil]
      exact List.prefix_append before _

/-! ### Outputs as bytes -/

/-- The lines of an output, up to the first that is no text. -/
inductive Writes : List String → List UInt8 → Prop
  | nothing : Writes [] []
  | garbled {bytes rest : List UInt8} : 10 ∉ bytes → decodeText? bytes = none →
      rest = [] ∨ rest.head? = some 10 → Writes [] (bytes ++ rest)
  | unended {line : String} {bytes : List UInt8} : bytes ≠ [] → 10 ∉ bytes →
      decodeText? bytes = some line → Writes [line] bytes
  | feed {line : String} {lines : List String} {bytes rest : List UInt8} : 10 ∉ bytes →
      bytes.getLast? ≠ some 13 → decodeText? bytes = some line → Writes lines rest →
      Writes (line :: lines) (bytes ++ [10] ++ rest)
  | returnFeed {line : String} {lines : List String} {bytes rest : List UInt8} : 10 ∉ bytes →
      decodeText? bytes = some line → Writes lines rest →
      Writes (line :: lines) (bytes ++ [13, 10] ++ rest)

lemma byteLines_feed (h : 10 ∉ bytes) (rest : List UInt8) :
    byteLines (bytes ++ 10 :: rest) = (bytes, true) :: byteLines rest := by
  induction bytes with
  | nil => rfl
  | cons b bytes ih =>
    obtain ⟨hb, hbytes⟩ := List.ne_and_not_mem_of_not_mem_cons h
    rw [List.cons_append, byteLines, List.foldr_cons, ← byteLines, ih hbytes, consByte,
      if_neg (Ne.symm hb)]

lemma byteLines_unended (h : 10 ∉ bytes) (hne : bytes ≠ []) : byteLines bytes = [(bytes, false)] := by
  induction bytes with
  | nil => exact absurd rfl hne
  | cons b bytes ih =>
    obtain ⟨hb, hbytes⟩ := List.ne_and_not_mem_of_not_mem_cons h
    rw [byteLines, List.foldr_cons, ← byteLines]
    cases bytes with
    | nil => exact if_neg (Ne.symm hb)
    | cons =>
      rw [ih hbytes (List.cons_ne_nil _ _)]
      exact if_neg (Ne.symm hb)

lemma encodeText_eq (s : String) : encodeText s = s.toByteArray.data.toList := by
  rw [encodeText, ByteArray.toList, toList_loop]
  rfl

lemma encodeText_eq_flatMap (s : String) : encodeText s = s.toList.flatMap String.utf8EncodeChar := by
  rw [encodeText_eq, ← String.utf8Encode_toList, List.utf8Encode, List.toList_data_toByteArray]

lemma encodeText_of_decode (h : decodeText? bytes = some line) : encodeText line = bytes := by
  rw [decodeText?, String.fromUTF8?] at h
  split at h
  · obtain rfl := Option.some.inj h
    rw [encodeText_eq]
    exact List.toList_data_toByteArray
  · cases h

lemma feed_not_mem (h : decodeText? bytes = some line) (hbytes : 10 ∉ bytes) : '\n' ∉ line.toList := by
  rw [← encodeText_of_decode h, encodeText_eq_flatMap] at hbytes
  exact fun hmem => hbytes (List.mem_flatMap.mpr ⟨'\n', hmem, by decide⟩)

lemma decodeText?_concat_return (h : decodeText? bytes = some line) :
    decodeText? (bytes ++ [13]) = some (line ++ "\r") := by
  have hencode : encodeText (line ++ "\r") = bytes ++ [13] := by
    rw [← encodeText_of_decode h, encodeText_eq_flatMap, encodeText_eq_flatMap, String.toList_append,
      List.flatMap_append]
    rfl
  rw [← hencode, decodeText?_encodeText]

namespace Writes

lemma feed_not_mem (h : Writes lines bytes) : ∀ line ∈ lines, '\n' ∉ line.toList := by
  induction h with
  | nothing | garbled => nofun
  | unended _ hbytes hline => exact List.forall_mem_singleton.mpr (Command.feed_not_mem hline hbytes)
  | feed hbytes _ hline _ ih | returnFeed hbytes hline _ ih =>
    exact List.forall_mem_cons.mpr ⟨Command.feed_not_mem hline hbytes, ih⟩

/-- The lines are those that are read. -/
lemma texts_eq (h : Writes lines bytes) :
    ((byteLines bytes).takeWhile isText).filterMap lineText? = lines := by
  induction h with
  | nothing => rfl
  | @garbled bytes rest hbytes hnone hrest =>
    have hfirst : ∃ ended later, byteLines (bytes ++ rest) = (bytes, ended) :: later := by
      rcases hrest with rfl | hrest
      · have hne : bytes ≠ [] := by
          rintro rfl
          cases hnone
        exact ⟨false, [], by rw [List.append_nil, byteLines_unended hbytes hne]⟩
      · obtain ⟨later, rfl⟩ := List.head?_eq_some_iff.mp hrest
        exact ⟨true, _, byteLines_feed hbytes later⟩
    obtain ⟨ended, later, heq⟩ := hfirst
    rw [heq, List.takeWhile_cons_of_neg (by simp [isText, hnone])]
    rfl
  | unended hne hbytes hline =>
    rw [byteLines_unended hbytes hne]
    simp [isText, lineText?, hline]
  | feed hbytes hlast hline _ ih =>
    rw [List.append_assoc, List.singleton_append, byteLines_feed hbytes]
    simp [isText, lineText?, hline, hlast, ih]
  | @returnFeed line lines bytes rest hbytes hline _ ih =>
    have hreturn : 10 ∉ bytes ++ [13] := by simpa using hbytes
    have hlist : bytes ++ [13, 10] ++ rest = bytes ++ [13] ++ 10 :: rest := by simp
    rw [hlist, byteLines_feed hreturn]
    simp [isText, lineText?, hline, decodeText?_concat_return hline, ih]

lemma capture_eq (h : Writes lines bytes) : capture bytes = joined (keepLines 0 lines) := by
  rw [capture, h.texts_eq]
  rfl

end Writes

/-! ### The kept text -/

/-- Lines without line feeds can be told from their text. -/
lemma joined_inj (h : ∀ line ∈ lines, '\n' ∉ line.toList) {lines' : List String}
    (h' : ∀ line ∈ lines', '\n' ∉ line.toList) (heq : joined lines = joined lines') : lines = lines' := by
  have hsplit {lines : List String} (h : ∀ line ∈ lines, '\n' ∉ line.toList) :
      Text.splitChars '\n' (joined lines).toList = lines.map (·.toList) ++ [[]] := by
    induction lines with
    | nil => rfl
    | cons line lines ih =>
      obtain ⟨hline, hlines⟩ := List.forall_mem_cons.mp h
      have hlist : (joined (line :: lines)).toList = line.toList ++ '\n' :: (joined lines).toList := by
        simp [joined_cons]
      rw [hlist, Text.splitChars_append_sep, Text.splitChars_of_not_mem hline, ih hlines]
      rfl
  have hboth := congrArg (fun s : String => Text.splitChars '\n' s.toList) heq
  rw [hsplit h, hsplit h'] at hboth
  exact (List.map_inj_right fun _ _ => String.toList_injective).mp (List.append_cancel_right hboth)

/-- The kept text has the lines for which there is room behind the kept ones before. It passes the limit
never, it is all of the output exactly if that does not pass it either, and it is a beginning of the output
exactly if no line fits behind the first one that does not. -/
theorem capture_writes (h : Writes lines bytes) :
    capture bytes = joined (keepLines 0 lines) ∧ (keepLines 0 lines).Sublist lines ∧
    (∀ before line, keepLines 0 (before ++ [line]) = keepLines 0 before ++
      if textSize (keepLines 0 before) + line.utf8ByteSize < captureLimit then [line] else []) ∧
    (capture bytes).utf8ByteSize ≤ captureLimit ∧
    (capture bytes = joined lines ↔ textSize lines ≤ captureLimit) ∧
    ((∃ n, capture bytes = joined (lines.take n)) ↔ NoneFitsLater lines) := by
  have hsublist := keepLines_sublist 0 lines
  have hkept : ∀ line ∈ keepLines 0 lines, '\n' ∉ line.toList := fun line hline =>
    h.feed_not_mem line (hsublist.subset hline)
  have hbound : textSize (keepLines 0 lines) ≤ captureLimit := by
    have hle := textSize_keepLines_le (Nat.zero_le captureLimit) lines
    rwa [Nat.zero_add] at hle
  rw [h.capture_eq]
  refine ⟨rfl, hsublist, ?_, hbound, ⟨?_, ?_⟩, ?_⟩
  · intro before line
    rw [keepLines_append, Nat.zero_add, keepLines, keepLines, keepLines]
  · intro heq
    rwa [← joined_inj hkept h.feed_not_mem heq]
  · intro hfits
    rw [keepLines_eq_self (by rwa [Nat.zero_add])]
  · rw [← keepLines_isPrefix_iff]
    constructor
    · rintro ⟨n, heq⟩
      have htake : ∀ line ∈ lines.take n, '\n' ∉ line.toList := fun line hline =>
        h.feed_not_mem line (List.mem_of_mem_take hline)
      rw [joined_inj hkept htake heq]
      exact List.take_prefix n lines
    · intro hbeginning
      exact ⟨_, congrArg joined (List.prefix_iff_eq_take.mp hbeginning)⟩

/-- A line that does not fit by itself. -/
def longLine : String := String.ofList (List.replicate captureLimit 'x')

lemma encodeText_longLine : encodeText longLine = List.replicate captureLimit 120 := by
  have hbyte : String.utf8EncodeChar 'x' = [120] := by decide
  rw [encodeText_eq_flatMap, longLine, String.toList_ofList, List.flatMap_replicate, hbyte,
    List.flatten_replicate_singleton]

lemma utf8ByteSize_longLine : longLine.utf8ByteSize = captureLimit := by
  have hlength (s : String) : (encodeText s).length = s.utf8ByteSize := by
    rw [encodeText_eq]
    rfl
  rw [← hlength, encodeText_longLine, List.length_replicate]

theorem capture_writes_longLine :
    Writes [longLine, "b"] (encodeText longLine ++ [10] ++ [98, 10]) ∧
    capture (encodeText longLine ++ [10] ++ [98, 10]) = "b\n" ∧
    ¬∃ n, capture (encodeText longLine ++ [10] ++ [98, 10]) = joined ([longLine, "b"].take n) := by
  have hb : encodeText "b" = [98] := (encodeText_eq_flatMap "b").trans (by decide)
  have hshort : Writes ["b"] [98, 10] :=
    @Writes.feed "b" [] [98] [] (by decide) (by decide) (hb ▸ decodeText?_encodeText "b") .nothing
  have hmem : ∀ b ∈ encodeText longLine, b = 120 := by
    rw [encodeText_longLine]
    exact fun b => List.eq_of_mem_replicate
  have hfeed : 10 ∉ encodeText longLine := fun h => absurd (hmem 10 h) (by decide)
  have hreturn : (encodeText longLine).getLast? ≠ some 13 := fun h =>
    absurd (hmem 13 (List.mem_of_getLast? h)) (by decide)
  have hlong := Writes.feed hfeed hreturn (decodeText?_encodeText longLine) hshort
  obtain ⟨hkept, -, -, -, -, hbeginning⟩ := capture_writes hlong
  refine ⟨hlong, ?_, ?_⟩
  · rw [hkept, keepLines, utf8ByteSize_longLine, if_neg (by omega)]
    decide
  · rw [hbeginning]
    intro hlater
    have hnone := hlater [] longLine ["b"] rfl (by decide) (by rw [utf8ByteSize_longLine]; omega) "b"
      List.mem_cons_self
    exact absurd hnone (by decide)

end JavaAtlas.Command
