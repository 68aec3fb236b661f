import JavaAtlas.FileTree
import Mathlib.Tactic.Lemma
import Mathlib.Tactic.Common

/-! The names that a path consists of. Joining paths joins their names, and the components of a path
are its names without points. -/

namespace JavaAtlas.Text

lemma splitChars_ne_nil (sep : Char) (cs : List Char) : splitChars sep cs ≠ [] := by
  cases cs with
  | nil => simp [splitChars]
  | cons c cs =>
    rw [splitChars]
    split
    · simp
    · split <;> simp

lemma splitChars_append_sep (sep : Char) (xs ys : List Char) :
    splitChars sep (xs ++ sep :: ys) = splitChars sep xs ++ splitChars sep ys := by
  induction xs with
  | nil => simp [splitChars]
  | cons x xs ih =>
    by_cases hx : x = sep
    · simp [splitChars, hx, ih]
    · obtain ⟨piece, rest, hs⟩ := List.exists_cons_of_ne_nil (splitChars_ne_nil sep xs)
      simp [splitChars, hx, ih, hs]

lemma splitChars_of_not_mem {sep : Char} {cs : List Char} (h : sep ∉ cs) :
    splitChars sep cs = [cs] := by
  induction cs with
  | nil => rfl
  | cons c cs ih =>
    obtain ⟨hc, hcs⟩ : sep ≠ c ∧ sep ∉ cs := by simpa using h
    simp [splitChars, hc.symm, ih hcs]

lemma not_mem_of_mem_splitChars {sep : Char} {cs piece : List Char}
    (h : piece ∈ splitChars sep cs) : sep ∉ piece := by
  induction cs generalizing piece with
  | nil => simp_all [splitChars]
  | cons c cs ih =>
    rw [splitChars] at h
    split at h
    · rcases List.mem_cons.mp h with rfl | h
      · exact List.not_mem_nil
      · exact ih h
    · next hc =>
      obtain ⟨first, rest, hs⟩ := List.exists_cons_of_ne_nil (splitChars_ne_nil sep cs)
      rw [hs] at h ih
      rcases List.mem_cons.mp h with rfl | h
      · have hf : sep ∉ first := ih List.mem_cons_self
        simp [Ne.symm hc, hf]
      · exact ih (List.mem_cons_of_mem _ h)

lemma pieces_append_slash (a b : String) :
    pieces '/' (a ++ "/" ++ b) = pieces '/' a ++ pieces '/' b := by
  have hs : (a ++ "/" ++ b).toList = a.toList ++ '/' :: b.toList := by simp
  rw [pieces, hs, splitChars_append_sep, List.map_append]
  rfl

lemma pieces_of_not_mem {s : String} (h : '/' ∉ s.toList) : pieces '/' s = [s] := by
  simp [pieces, splitChars_of_not_mem h]

lemma not_mem_of_mem_pieces {s piece : String} (h : piece ∈ pieces '/' s) :
    '/' ∉ piece.toList := by
  obtain ⟨cs, hcs, rfl⟩ := List.mem_map.mp h
  simpa using not_mem_of_mem_splitChars hcs

lemma pieces_joinWith {xs : List String} (hne : xs ≠ []) (h : ∀ x ∈ xs, '/' ∉ x.toList) :
    pieces '/' (joinWith "/" xs) = xs := by
  induction xs with
  | nil => exact absurd rfl hne
  | cons x xs ih =>
    cases xs with
    | nil => exact pieces_of_not_mem (h x List.mem_cons_self)
    | cons y ys =>
      rw [joinWith, pieces_append_slash, pieces_of_not_mem (h x List.mem_cons_self),
        ih (List.cons_ne_nil y ys) (fun z hz => h z (List.mem_cons_of_mem _ hz)),
        List.singleton_append]
      exact List.cons_ne_nil y ys

end JavaAtlas.Text

namespace JavaAtlas

open Text

/-- A text that can be the name of an entry. -/
structure IsName (n : String) : Prop where
  ne_empty : n ≠ ""
  ne_point : n ≠ "."
  ne_points : n ≠ ".."
  no_slash : '/' ∉ n.toList

instance (n : String) : Decidable (IsName n) :=
  decidable_of_iff (n ≠ "" ∧ n ≠ "." ∧ n ≠ ".." ∧ '/' ∉ n.toList)
    ⟨fun ⟨a, b, c, d⟩ => ⟨a, b, c, d⟩, fun ⟨a, b, c, d⟩ => ⟨a, b, c, d⟩⟩

namespace Path

def names (p : String) : List String := (pieces '/' p).filter (· != "")

lemma names_append_slash (a b : String) : names (a ++ "/" ++ b) = names a ++ names b := by
  rw [names, pieces_append_slash, List.filter_append]
  rfl

lemma names_of_not_mem {n : String} (hne : n ≠ "") (h : '/' ∉ n.toList) : names n = [n] := by
  simp [names, pieces_of_not_mem h, hne]

lemma names_joinWith {xs : List String} (h : ∀ x ∈ xs, x ≠ "" ∧ '/' ∉ x.toList) :
    names (joinWith "/" xs) = xs := by
  cases xs with
  | nil => decide
  | cons x xs =>
    rw [names, pieces_joinWith (List.cons_ne_nil x xs) (fun y hy => (h y hy).2),
      List.filter_eq_self]
    exact fun y hy => by simpa using (h y hy).1

lemma mem_names {p n : String} (h : n ∈ names p) : n ≠ "" ∧ '/' ∉ n.toList := by
  obtain ⟨hm, hne⟩ := List.mem_filter.mp h
  exact ⟨by simpa using hne, not_mem_of_mem_pieces hm⟩

lemma ends_in_slash {s : String} (h : s.toList.getLast? = some '/') : ∃ t, s = t ++ "/" := by
  obtain ⟨init, hi⟩ := List.getLast?_eq_some_iff.mp h
  refine ⟨String.ofList init, ?_⟩
  apply String.toList_injective
  simp [hi]

lemma names_join {base p : String} (hp : isAbsolute p = false) :
    names (join base p) = names base ++ names p := by
  simp only [join, hp, Bool.false_eq_true, if_false]
  split
  · next h =>
    rcases Bool.or_eq_true_iff.mp h with h | h
    · obtain rfl : base = "" := by simpa using h
      have he : names "" = [] := by decide
      rw [he, String.empty_append, List.nil_append]
    · obtain ⟨t, rfl⟩ := ends_in_slash (by simpa using h)
      have he : names (t ++ "/") = names t := by
        have hh := names_append_slash t ""
        rwa [String.append_empty, show names "" = [] by decide, List.append_nil] at hh
      rw [he, names_append_slash]
  · exact names_append_slash base p

lemma isAbsolute_join {base p : String} (hp : isAbsolute p = false) :
    isAbsolute (join base p) = isAbsolute base := by
  rw [join, if_neg (by simp [hp])]
  by_cases hb : base = ""
  · subst hb
    exact hp
  · have hne : base.toList ≠ [] := by simpa using hb
    obtain ⟨c, cs, hc⟩ := List.exists_cons_of_ne_nil hne
    split <;> simp [isAbsolute, hc]

lemma isAbsolute_of_isName {n : String} (h : IsName n) : isAbsolute n = false := by
  rw [isAbsolute, beq_eq_false_iff_ne]
  exact fun hh => h.no_slash (List.mem_of_mem_head? hh)

lemma join_ne_empty {base p : String} (hp : p ≠ "") : join base p ≠ "" := by
  rw [join]
  split
  · exact hp
  · split <;> simp [hp]

lemma getLast?_join {base p : String} (hp : p ≠ "") :
    (join base p).toList.getLast? = p.toList.getLast? := by
  have hne : p.toList ≠ [] := by simpa using hp
  have happ (xs : List Char) : (xs ++ p.toList).getLast? = p.toList.getLast? := by
    rw [List.getLast?_append, List.getLast?_eq_some_getLast hne, Option.some_or]
  rw [join]
  split
  · rfl
  · split <;> rw [String.toList_append, happ]

/-- The names that the components of a path stand for. -/
def texts (cs : List Component) : List String := (cs.filter (· != .root)).map (·.text)

/-- Leaves out some of the points. -/
inductive DropsPoints : List String → List String → Prop
  | nil : DropsPoints [] []
  | keep (n : String) {xs ys : List String} : DropsPoints xs ys → DropsPoints (n :: xs) (n :: ys)
  | drop {xs ys : List String} : DropsPoints xs ys → DropsPoints ("." :: xs) ys

lemma dropsPoints_filter (xs : List String) : DropsPoints xs (xs.filter (· != ".")) := by
  induction xs with
  | nil => exact .nil
  | cons x xs ih =>
    by_cases hx : x = "."
    · subst hx
      exact .drop ih
    · rw [List.filter_cons_of_pos (by simpa using hx)]
      exact .keep x ih

lemma texts_ofNames (ns : List String) :
    texts (ofNames ns) = (ns.filter (· != "")).filter (· != ".") := by
  rw [texts, ofNames, List.filter_eq_self.mpr, List.map_map, List.filter_filter]
  · have hf : ns.filter (fun n => n != "" && n != ".") =
        ns.filter (fun n => n != "." && n != "") := by
      congr 1
      funext n
      exact Bool.and_comm _ _
    rw [hf]
    nth_rewrite 2 [← List.map_id (ns.filter _)]
    apply List.map_congr_left
    intro n _
    simp only [Function.comp_apply, id_eq]
    split
    · next h => exact (by simpa using h : n = "..").symm
    · rfl
  · intro c hc
    obtain ⟨n, -, rfl⟩ := List.mem_map.mp hc
    split <;> rfl

lemma components_eq (p : String) : components p =
    (if isAbsolute p then [.root] else if (pieces '/' p).head? == some "." then [.current] else []) ++
      ofNames (pieces '/' p) := by
  rw [components]
  split
  · rfl
  · split <;> rfl

lemma dropsPoints_texts (p : String) : DropsPoints (names p) (texts (components p)) := by
  have ht : texts (ofNames (pieces '/' p)) = (names p).filter (· != ".") := texts_ofNames _
  have happ (xs ys : List Component) : texts (xs ++ ys) = texts xs ++ texts ys := by simp [texts]
  rw [components_eq, happ, ht]
  split
  · exact dropsPoints_filter _
  · split
    · next h =>
      obtain ⟨rest, hr⟩ := List.head?_eq_some_iff.mp (by simpa using h)
      have hn : names p = "." :: rest.filter (· != "") := by simp [names, hr]
      rw [hn]
      exact .keep "." (dropsPoints_filter _)
    · exact dropsPoints_filter _

lemma components_join {base p : String} (hb : base ≠ "") (hp : isAbsolute p = false) :
    components (join base p) = components base ++ ofNames (pieces '/' p) := by
  have hempty : ofNames (pieces '/' "") = [] := by decide
  have happ (xs ys : List String) : ofNames (xs ++ ys) = ofNames xs ++ ofNames ys := by
    simp [ofNames]
  obtain ⟨hof, hhead⟩ : ofNames (pieces '/' (join base p)) =
      ofNames (pieces '/' base) ++ ofNames (pieces '/' p) ∧
      (pieces '/' (join base p)).head? = (pieces '/' base).head? := by
    have hhead (s : String) (more : List String) :
        (pieces '/' s ++ more).head? = (pieces '/' s).head? := by
      obtain ⟨n, ns, hn⟩ := List.exists_cons_of_ne_nil (splitChars_ne_nil '/' s.toList)
      simp [pieces, hn]
    simp only [join, hp, Bool.false_eq_true, if_false]
    split
    · next h =>
      obtain ⟨t, rfl⟩ := ends_in_slash (by simpa [hb] using h)
      have ht := pieces_append_slash t ""
      rw [String.append_empty] at ht
      rw [pieces_append_slash, ht, happ, happ, hempty, List.append_nil, hhead, hhead]
      exact ⟨rfl, rfl⟩
    · rw [pieces_append_slash, happ, hhead]
      exact ⟨rfl, rfl⟩
  rw [components_eq, components_eq, isAbsolute_join hp, hof, hhead, List.append_assoc]

lemma ofNames_joinWith {ns : List String} (h : ∀ n ∈ ns, IsName n) :
    ofNames (pieces '/' (joinWith "/" ns)) = ns.map .normal := by
  have hf : ns.filter (fun n => n != "" && n != ".") = ns := by
    rw [List.filter_eq_self]
    intro n hn
    simp [(h n hn).ne_empty, (h n hn).ne_point]
  have hm : (ns.map fun n => if n == ".." then Component.parent else .normal n) =
      ns.map .normal := by
    apply List.map_congr_left
    intro n hn
    simp [(h n hn).ne_points]
  cases ns with
  | nil => decide
  | cons n ns =>
    rw [pieces_joinWith (List.cons_ne_nil n ns) (fun m hm => (h m hm).no_slash), ofNames, hf, hm]

/-- Components that a path can have: a root only at the front, and no part that is empty. -/
structure Proper (cs : List Component) : Prop where
  root_first : ∀ c ∈ cs.tail, c ≠ .root
  text_ok : ∀ c ∈ cs, c ≠ .root → c.text ≠ "" ∧ '/' ∉ c.text.toList

lemma mem_ofNames {ns : List String} {c : Component} (hc : c ∈ ofNames ns)
    (h : ∀ n ∈ ns, '/' ∉ n.toList) : c ≠ .root ∧ c.text ≠ "" ∧ '/' ∉ c.text.toList := by
  obtain ⟨n, hn, rfl⟩ := List.mem_map.mp hc
  obtain ⟨hm, hne⟩ := List.mem_filter.mp hn
  split
  · decide
  · exact ⟨nofun, by simp_all [Component.text], h n hm⟩

lemma proper_components (p : String) : Proper (components p) := by
  have hof : ∀ c ∈ ofNames (pieces '/' p), c ≠ .root ∧ c.text ≠ "" ∧ '/' ∉ c.text.toList :=
    fun c hc => mem_ofNames hc fun n hn => not_mem_of_mem_pieces hn
  rw [components]
  split
  · refine ⟨fun c hc => (hof c hc).1, fun c hc hne => ?_⟩
    rcases List.mem_cons.mp hc with rfl | hc
    · exact absurd rfl hne
    · exact (hof c hc).2
  · split
    · refine ⟨fun c hc => (hof c hc).1, fun c hc hne => ?_⟩
      rcases List.mem_cons.mp hc with rfl | hc
      · decide
      · exact (hof c hc).2
    · exact ⟨fun c hc => (hof c (List.mem_of_mem_tail hc)).1, fun c hc _ => (hof c hc).2⟩

lemma Proper.append_names {cs : List Component} {ns : List String} (h : Proper cs)
    (hn : ∀ n ∈ ns, IsName n) : Proper (cs ++ ns.map .normal) := by
  refine ⟨fun c hc => ?_, fun c hc hne => ?_⟩
  · rcases List.mem_append.mp (List.mem_of_mem_tail hc) with hm | hm
    · cases cs with
      | nil => simp at hm
      | cons a cs =>
        rcases List.mem_append.mp hc with hc | hc
        · exact h.root_first c hc
        · obtain ⟨n, -, rfl⟩ := List.mem_map.mp hc
          exact nofun
    · obtain ⟨n, -, rfl⟩ := List.mem_map.mp hm
      exact nofun
  · rcases List.mem_append.mp hc with hc | hc
    · exact h.text_ok c hc hne
    · obtain ⟨n, hm, rfl⟩ := List.mem_map.mp hc
      exact ⟨(hn n hm).ne_empty, (hn n hm).no_slash⟩

lemma texts_append_names (cs : List Component) (ns : List String) :
    texts (cs ++ ns.map .normal) = texts cs ++ ns := by
  have hf : (ns.map Component.normal).filter (· != .root) = ns.map .normal := by
    rw [List.filter_eq_self]
    intro c hc
    obtain ⟨n, -, rfl⟩ := List.mem_map.mp hc
    rfl
  have hm : (ns.map Component.normal).map (·.text) = ns := by
    rw [List.map_map]
    exact List.map_id ns
  rw [texts, List.filter_append, List.map_append, hf, hm]
  rfl

/-- Components are written as their texts with slashes between them, after a slash if they begin at
the root. -/
lemma Proper.render_eq {cs : List Component} (h : Proper cs) :
    render cs = (if cs.head? == some .root then "/" else "") ++ joinWith "/" (texts cs) ∧
      ∀ t ∈ texts cs, t ≠ "" ∧ '/' ∉ t.toList := by
  constructor
  · have hself (xs : List Component) (hx : ∀ c ∈ xs, c ≠ .root) :
        xs.filter (· != .root) = xs := by
      rw [List.filter_eq_self]
      exact fun c hc => by simpa using hx c hc
    cases cs with
    | nil => rfl
    | cons c cs =>
      by_cases hc : c = .root
      · subst hc
        have htail := hself cs h.root_first
        simp [render, texts, htail]
      · have hall := hself (c :: cs) fun d hd => by
          rcases List.mem_cons.mp hd with rfl | hd
          · exact hc
          · exact h.root_first d hd
        rw [texts, hall]
        cases c <;> simp_all [render]
  · intro t ht
    obtain ⟨c, hc, rfl⟩ := List.mem_map.mp ht
    obtain ⟨hm, hne⟩ := List.mem_filter.mp hc
    exact h.text_ok c hm (by simpa using hne)

lemma getLast?_joinWith {xs : List String} (hne : xs ≠ [])
    (h : ∀ x ∈ xs, x ≠ "" ∧ '/' ∉ x.toList) : (joinWith "/" xs).toList.getLast? ≠ some '/' := by
  induction xs with
  | nil => exact absurd rfl hne
  | cons x xs ih =>
    cases xs with
    | nil =>
      intro hl
      exact (h x List.mem_cons_self).2 (List.mem_of_getLast? hl)
    | cons y ys =>
      have hy := ih (List.cons_ne_nil y ys) fun z hz => h z (List.mem_cons_of_mem _ hz)
      have hj : (joinWith "/" (y :: ys)).toList ≠ [] := by
        intro he
        have hn := names_joinWith fun z hz => h z (List.mem_cons_of_mem x hz)
        rw [String.toList_eq_nil_iff.mp he] at hn
        exact absurd hn (by simp [show names "" = [] by decide])
      rw [joinWith, String.toList_append, List.getLast?_append,
        List.getLast?_eq_some_getLast hj, Option.some_or, ← List.getLast?_eq_some_getLast hj]
      · exact hy
      · exact List.cons_ne_nil y ys

lemma Proper.names_render {cs : List Component} (h : Proper cs) : names (render cs) = texts cs := by
  obtain ⟨hr, ht⟩ := h.render_eq
  rw [hr]
  split
  · have hn := names_append_slash "" (joinWith "/" (texts cs))
    rw [String.empty_append, show names "" = [] by decide, List.nil_append] at hn
    rw [hn, names_joinWith ht]
  · rw [String.empty_append, names_joinWith ht]

lemma Proper.isAbsolute_render {cs : List Component} (h : Proper cs) :
    isAbsolute (render cs) = (cs.head? == some .root) := by
  obtain ⟨hr, ht⟩ := h.render_eq
  rw [hr]
  split
  · next hroot => simpa [isAbsolute] using hroot
  · next hroot =>
    rw [String.empty_append, Bool.eq_false_iff.mpr hroot, isAbsolute, beq_eq_false_iff_ne]
    intro hh
    have hx := List.mem_of_mem_head? hh
    cases htx : texts cs with
    | nil => simp [htx, joinWith] at hx
    | cons t ts =>
      have hn := names_joinWith ht
      obtain ⟨hne, hns⟩ := ht t (htx ▸ List.mem_cons_self)
      obtain ⟨d, ds, hd⟩ := List.exists_cons_of_ne_nil (l := t.toList) (by simpa using hne)
      rw [htx] at hh
      have hd' : d = '/' := by
        cases ts with
        | nil => simpa [joinWith, hd] using hh
        | cons u us => simpa [joinWith, hd] using hh
      exact hns (by simp [hd, hd'])

lemma Proper.getLast?_render {cs : List Component} (h : Proper cs) (hne : texts cs ≠ []) :
    (render cs).toList.getLast? ≠ some '/' := by
  obtain ⟨hr, ht⟩ := h.render_eq
  have hl := getLast?_joinWith hne ht
  have hj : (joinWith "/" (texts cs)).toList ≠ [] := by
    intro he
    have hn := names_joinWith ht
    rw [String.toList_eq_nil_iff.mp he, show names "" = [] by decide] at hn
    exact hne hn.symm
  rw [hr, String.toList_append, List.getLast?_append, List.getLast?_eq_some_getLast hj,
    Option.some_or, ← List.getLast?_eq_some_getLast hj]
  exact hl

lemma head?_components (p : String) : ((components p).head? == some .root) = isAbsolute p := by
  rw [components]
  split
  · next h => simpa using h.symm
  · next h =>
    rw [Bool.eq_false_iff.mpr h]
    split
    · rfl
    · rw [beq_eq_false_iff_ne]
      intro hh
      exact (mem_ofNames (List.mem_of_mem_head? hh) fun n hn => not_mem_of_mem_pieces hn).1 rfl

end Path

namespace FileTree

lemma namesOf_eq {p : String} (h : p.toList.getLast? ≠ some '/') : namesOf p = Path.names p := by
  rw [namesOf, if_neg (by simpa using h)]
  rfl

lemma namesOf_join {p t : String} (habs : Path.isAbsolute t = false) (hne : t ≠ "") :
    namesOf (Path.join p t) = Path.names p ++ namesOf t := by
  rw [namesOf, namesOf, Path.getLast?_join hne]
  change (if _ then Path.names _ ++ _ else Path.names _) =
    Path.names p ++ if _ then Path.names _ ++ _ else Path.names _
  rw [Path.names_join habs]
  split
  · rw [List.append_assoc]
  · rfl

lemma getLast?_of_isName {n : String} (h : IsName n) : n.toList.getLast? ≠ some '/' :=
  fun hl => h.no_slash (List.mem_of_getLast? hl)

end FileTree

end JavaAtlas
