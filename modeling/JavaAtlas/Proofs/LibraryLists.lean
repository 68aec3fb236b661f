import JavaAtlas.Classpath.Dump
import JavaAtlas.Proofs.Repetitions
import JavaAtlas.Proofs.PathNames
import JavaAtlas.Proofs.QualifiedNames

/-! Lists of libraries that a build tool leaves behind. The paths of all lines are read in their order,
of those that are the same the first; a list that is written behind another one adds what is new in it. -/

namespace JavaAtlas.Text

variable {cs gap gap' : List Char} {c : Char}

lemma trimBlanks_padded (hgap : ∀ c ∈ gap, isBlank c = true) (hgap' : ∀ c ∈ gap', isBlank c = true) :
    trimBlanks (gap ++ cs ++ gap') = trimBlanks cs := by
  rw [trimBlanks, trimBlanks, List.append_assoc, List.dropWhile_append_of_pos hgap,
    List.dropWhile_append]
  split
  · next h =>
    rw [List.dropWhile_eq_nil_iff.mpr hgap', List.isEmpty_iff.mp h]
  · rw [List.reverse_append, List.dropWhile_append_of_pos]
    exact fun c hc => hgap' c (List.mem_reverse.mp hc)

lemma trimBlanks_withoutReturn (cs : List Char) : trimBlanks (withoutReturn cs) = trimBlanks cs := by
  rw [withoutReturn]
  split
  · next h =>
    obtain ⟨front, rfl⟩ := List.getLast?_eq_some_iff.mp h
    have hpadded := @trimBlanks_padded front [] ['\r'] nofun (List.forall_mem_singleton.mpr (by decide))
    rw [List.dropLast_concat]
    exact hpadded.symm
  · rfl

end JavaAtlas.Text

namespace JavaAtlas.Classpath

open Text

variable {paths : List String} {lists : List (List String)} {cs gap gap' : List Char} {p : String}

lemma linePaths_empty : linePaths [] = [] := by decide

lemma flatMap_closeLines (lines : List (List Char)) :
    (closeLines lines).flatMap linePaths = lines.flatMap linePaths := by
  induction lines with
  | nil => rfl
  | cons line lines ih =>
    cases lines with
    | nil =>
      cases line with
      | nil => simp [closeLines, linePaths_empty]
      | cons => rfl
    | cons next lines =>
      have hreturn : linePaths (withoutReturn line) = linePaths line := by
        rw [linePaths, linePaths, trimBlanks_withoutReturn]
      rw [closeLines, List.flatMap_cons, hreturn, ih]
      · rfl
      · exact List.cons_ne_nil next lines

lemma parseDump_eq (text : String) :
    parseDump text = Path.firsts ((splitChars '\n' text.toList).flatMap linePaths) := by
  rw [parseDump, linesOf, flatMap_closeLines, Path.distinct_eq_firsts]

/-! ### Lists as they are written -/

/-- A path that can stand in a list. -/
structure Listable (p : String) : Prop where
  ne_empty : p ≠ ""
  no_colon : ':' ∉ p.toList
  no_feed : '\n' ∉ p.toList
  head : ∀ c ∈ p.toList.head?, isBlank c = false
  last : ∀ c ∈ p.toList.getLast?, isBlank c = false

instance (p : String) : Decidable (Listable p) :=
  have := @Option.decidableForallMem _ (isBlank · = false) _ p.toList.head?
  have := @Option.decidableForallMem _ (isBlank · = false) _ p.toList.getLast?
  decidable_of_iff (p ≠ "" ∧ ':' ∉ p.toList ∧ '\n' ∉ p.toList ∧
      (∀ c ∈ p.toList.head?, isBlank c = false) ∧ ∀ c ∈ p.toList.getLast?, isBlank c = false)
    ⟨fun ⟨a, b, c, d, e⟩ => ⟨a, b, c, d, e⟩, fun ⟨a, b, c, d, e⟩ => ⟨a, b, c, d, e⟩⟩

/-- Paths with colons between them; more colons may stand anywhere before and after a path. -/
inductive Row : List String → List Char → Prop
  | nothing : Row [] []
  | path {p : String} : Row [p] p.toList
  | empty {paths : List String} {cs : List Char} : Row paths cs → Row paths (':' :: cs)
  | more {p : String} {paths : List String} {cs : List Char} : Row paths cs →
      Row (p :: paths) (p.toList ++ ':' :: cs)

def IsGap (gap : List Char) : Prop := ∀ c ∈ gap, isBlank c = true ∧ c ≠ '\n'

instance (gap : List Char) : Decidable (IsGap gap) := List.decidableBAll _ gap

/-- A row with white space around it. -/
inductive Line : List String → List Char → Prop
  | padded {paths : List String} {gap row gap' : List Char} : IsGap gap → Row paths row → IsGap gap' →
      Line paths (gap ++ row ++ gap')

def lineEnds : List (List Char) := [['\n'], ['\r', '\n']]

/-- A line for each of the lists, and others without paths anywhere. -/
inductive Listing : List (List String) → List Char → Prop
  | nothing : Listing [] []
  | last {paths : List String} {line : List Char} : Line paths line → Listing [paths] line
  | line {paths : List String} {lists : List (List String)} {line ending rest : List Char} :
      Line paths line → ending ∈ lineEnds → Listing lists rest →
      Listing (paths :: lists) (line ++ ending ++ rest)
  | blank {lists : List (List String)} {line ending rest : List Char} :
      Line [] line → ending ∈ lineEnds → Listing lists rest → Listing lists (line ++ ending ++ rest)

namespace Row

lemma no_feed (h : Row paths cs) (hp : ∀ p ∈ paths, Listable p) : '\n' ∉ cs := by
  induction h with
  | nothing => exact List.not_mem_nil
  | path => exact (hp _ List.mem_cons_self).no_feed
  | empty _ ih => simpa using ih hp
  | more _ ih =>
    obtain ⟨hp, hpaths⟩ := List.forall_mem_cons.mp hp
    simpa using ⟨hp.no_feed, ih hpaths⟩

lemma head (h : Row paths cs) (hp : ∀ p ∈ paths, Listable p) : ∀ c ∈ cs.head?, isBlank c = false := by
  cases h with
  | nothing => nofun
  | path => exact (hp _ List.mem_cons_self).head
  | empty => simp [show isBlank ':' = false by decide]
  | @more p =>
    have hp := hp _ List.mem_cons_self
    obtain ⟨d, ds, heq⟩ := List.exists_cons_of_ne_nil (String.toList_eq_nil_iff.not.mpr hp.ne_empty)
    have hhead := hp.head
    rw [heq] at hhead ⊢
    exact hhead

lemma last (h : Row paths cs) (hp : ∀ p ∈ paths, Listable p) : ∀ c ∈ cs.getLast?, isBlank c = false := by
  have hcolon {cs : List Char} (h : ∀ c ∈ cs.getLast?, isBlank c = false) :
      ∀ c ∈ (':' :: cs).getLast?, isBlank c = false := by
    intro c hc
    rw [List.getLast?_cons, Option.mem_some] at hc
    cases hlast : cs.getLast? with
    | none =>
      rw [← hc, hlast]
      decide
    | some d =>
      rw [← hc, hlast]
      exact h d hlast
  induction h with
  | nothing => nofun
  | path => exact (hp _ List.mem_cons_self).last
  | empty _ ih => exact hcolon (ih hp)
  | more _ ih =>
    rw [List.getLast?_append_of_ne_nil _ (List.cons_ne_nil _ _)]
    exact hcolon (ih (List.forall_mem_cons.mp hp).2)

lemma trimmed (h : Row paths cs) (hp : ∀ p ∈ paths, Listable p) : trimBlanks cs = cs := by
  by_cases hne : cs = []
  · rw [hne]
    rfl
  · apply trimBlanks_eq_self
    · exact ⟨_, List.head?_eq_some_head hne, h.head hp _ (List.head?_eq_some_head hne)⟩
    · exact ⟨_, List.getLast?_eq_some_getLast hne, h.last hp _ (List.getLast?_eq_some_getLast hne)⟩

lemma splits (h : Row paths cs) (hp : ∀ p ∈ paths, Listable p) :
    ((splitChars ':' cs).filter (!·.isEmpty)).map String.ofList = paths := by
  have hpath {p : String} (hp : Listable p) :
      ([p.toList].filter (!·.isEmpty)).map String.ofList = [p] := by
    have hne := hp.ne_empty
    simp [hne]
  induction h with
  | nothing => rfl
  | path =>
    have hp := hp _ List.mem_cons_self
    rw [splitChars_of_not_mem hp.no_colon, hpath hp]
  | empty _ ih => simpa [splitChars] using ih hp
  | more _ ih =>
    obtain ⟨hp, hpaths⟩ := List.forall_mem_cons.mp hp
    rw [splitChars_append_sep, splitChars_of_not_mem hp.no_colon, List.filter_append, List.map_append,
      hpath hp, ih hpaths, List.singleton_append]

end Row

namespace Line

lemma no_feed (h : Line paths cs) (hp : ∀ p ∈ paths, Listable p) : '\n' ∉ cs := by
  obtain ⟨hgap, hrow, hgap'⟩ := h
  simp only [List.mem_append, not_or]
  exact ⟨⟨fun hmem => (hgap _ hmem).2 rfl, hrow.no_feed hp⟩, fun hmem => (hgap' _ hmem).2 rfl⟩

lemma linePaths_eq (h : Line paths cs) (hp : ∀ p ∈ paths, Listable p) : linePaths cs = paths := by
  obtain ⟨hgap, hrow, hgap'⟩ := h
  rw [linePaths, trimBlanks_padded (fun c hc => (hgap c hc).1) (fun c hc => (hgap' c hc).1),
    hrow.trimmed hp]
  exact hrow.splits hp

/-- Of a line that ends with a carriage return and a line feed, the former is white space. -/
lemma exists_feed {ending : List Char} (h : Line paths cs) (hending : ending ∈ lineEnds) :
    ∃ line, Line paths line ∧ cs ++ ending = line ++ ['\n'] := by
  rcases List.mem_pair.mp hending with rfl | rfl
  · exact ⟨cs, h, rfl⟩
  · have hreturn : IsGap ['\r'] := List.forall_mem_singleton.mpr (by decide)
    cases h with
    | @padded gap row gap' hgap hrow hgap' =>
      refine ⟨gap ++ row ++ (gap' ++ ['\r']), .padded hgap hrow ?_, by simp⟩
      exact List.forall_mem_append.mpr ⟨hgap', hreturn⟩

lemma flatMap_splitChars {ending rest : List Char} (h : Line paths cs) (hp : ∀ p ∈ paths, Listable p)
    (hending : ending ∈ lineEnds) : (splitChars '\n' (cs ++ ending ++ rest)).flatMap linePaths =
      paths ++ (splitChars '\n' rest).flatMap linePaths := by
  obtain ⟨line, hline, heq⟩ := h.exists_feed hending
  rw [heq, List.append_assoc, List.singleton_append, splitChars_append_sep,
    splitChars_of_not_mem (hline.no_feed hp), List.flatMap_append, List.flatMap_singleton,
    hline.linePaths_eq hp]

end Line

lemma Listing.flatMap_splitChars (h : Listing lists cs)
    (hp : ∀ paths ∈ lists, ∀ p ∈ paths, Listable p) :
    (splitChars '\n' cs).flatMap linePaths = lists.flatten := by
  induction h with
  | nothing => simp [splitChars, linePaths_empty]
  | last hline =>
    have hp := hp _ List.mem_cons_self
    rw [splitChars_of_not_mem (hline.no_feed hp), List.flatMap_singleton, hline.linePaths_eq hp]
    simp
  | line hline hending _ ih =>
    obtain ⟨hp, hlists⟩ := List.forall_mem_cons.mp hp
    rw [hline.flatMap_splitChars hp hending, ih hlists, List.flatten_cons]
  | blank hline hending _ ih =>
    rw [hline.flatMap_splitChars (List.forall_mem_nil _) hending, ih hp, List.nil_append]

/-- A written list is read as the paths of its lines, of the same ones the first; and a text behind
another one, whatever the two are, adds the paths that are new in it. -/
theorem parseDump_listing_append :
    (∀ (lists : List (List String)) (text : String), Listing lists text.toList →
      (∀ paths ∈ lists, ∀ p ∈ paths, Listable p) → parseDump text = Path.firsts lists.flatten) ∧
    ∀ a b : String, parseDump (a ++ "\n" ++ b) = Path.firsts (parseDump a ++ parseDump b) := by
  constructor
  · intro lists text h hp
    rw [parseDump_eq, h.flatMap_splitChars hp]
  · intro a b
    have htext : (a ++ "\n" ++ b).toList = a.toList ++ '\n' :: b.toList := by simp
    rw [parseDump_eq, parseDump_eq, parseDump_eq, Path.firsts_append_firsts, htext,
      splitChars_append_sep, List.flatMap_append]

/-- A list of two lines: white space, points and slashes that do not count, and an empty line between. -/
def twoModules : String := " :/m2/a.jar:/m2/b.jar\r\n\t\n/m2//a.jar:\u00e9 x.jar"

theorem parseDump_listing_append_twoModules :
    Listing [["/m2/a.jar", "/m2/b.jar"], ["/m2//a.jar", "\u00e9 x.jar"]] twoModules.toList ∧
    parseDump twoModules = ["/m2/a.jar", "/m2/b.jar", "\u00e9 x.jar"] := by
  have hfirst : Line ["/m2/a.jar", "/m2/b.jar"]
      ([' '] ++ ':' :: ("/m2/a.jar".toList ++ ':' :: "/m2/b.jar".toList) ++ []) :=
    .padded (by decide) (.empty (.more .path)) nofun
  have hblank : Line [] (['\t'] ++ [] ++ []) := .padded (by decide) .nothing nofun
  have hlast : Line ["/m2//a.jar", "\u00e9 x.jar"]
      ([] ++ ("/m2//a.jar".toList ++ ':' :: "\u00e9 x.jar".toList) ++ []) :=
    .padded nofun (.more .path) nofun
  have hlisting : Listing [["/m2/a.jar", "/m2/b.jar"], ["/m2//a.jar", "\u00e9 x.jar"]]
      twoModules.toList := by
    convert Listing.line hfirst (show ['\r', '\n'] ∈ lineEnds by decide)
      (.blank hblank (show ['\n'] ∈ lineEnds by decide) (.last hlast)) using 1
    decide +kernel
  have hlistable : ∀ paths ∈ [["/m2/a.jar", "/m2/b.jar"], ["/m2//a.jar", "\u00e9 x.jar"]],
      ∀ p ∈ paths, Listable p := by
    decide +kernel
  refine ⟨hlisting, ?_⟩
  rw [parseDump_listing_append.1 _ _ hlisting hlistable]
  decide +kernel

end JavaAtlas.Classpath
