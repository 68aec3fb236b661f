import JavaAtlas.Proofs.CappedQueries
import JavaAtlas.Proofs.NameWords
import JavaAtlas.Proofs.QualifiedSearch
import JavaAtlas.Proofs.WalkTraces
import JavaAtlas.Query

/-! Searching for a declaration by its own name. The name of a declaration is a word, but a pattern is
made of letters and numbers: a declaration is found by its own name exactly when the name has no other
characters than these, underscores and dollar signs. -/

namespace JavaAtlas.Outline

open Syntax

variable {p : Place} {n x t : Node} {d : Declaration} {k i : Nat} {unit : UnitRef} {source : String}

lemma Under.all {P : Node → Prop} (h : Under t k n) (hn : n.All P) : t.All P := by
  induction h with
  | self => exact hn
  | child hc _ ih => exact ih (((Node.all_iff _).mp hn).2 _ hc)

lemma isWord_text (hn : n.All (WordNamed p.source)) (hk : n.kind ∉ qualifiedKinds)
    (hx : n.child? .name = some x) : IsWord (p.text x) := by
  have hslot : x.slot? = some .name := by simpa using List.find?_some hx
  exact ((Node.all_iff n).mp hn).1 hk x (Node.mem_children_of_child? hx) hslot

lemma DeclaredBy.isWord_name (h : DeclaredBy p n x d) (hn : n.All (WordNamed p.source)) :
    IsWord d.element.name := by
  have hchild {c : Node} (hc : c ∈ n.children) : c.All (WordNamed p.source) :=
    ((Node.all_iff n).mp hn).2 c hc
  cases h with
  | type ht hx =>
    have hapart : ∀ k ∈ typeKinds, k ∉ qualifiedKinds := by decide
    exact isWord_text hn (hapart _ (List.contains_iff_mem.mp ht)) hx
  | method hk hx _ _ =>
    have hapart : ∀ k ∈ methodKinds, k ∉ qualifiedKinds := by decide
    exact isWord_text hn (hapart _ hk) hx
  | field _ hx _ _ =>
    obtain ⟨c, hc, hname⟩ := List.mem_filterMap.mp hx
    have hck : c.kind = .variableDeclarator := eq_of_beq (List.mem_filter.mp hc).2
    exact isWord_text (hchild (mem_children_of_declarators hc)) (by rw [hck]; decide) hname
  | constant hk hx _ => exact isWord_text hn (by rw [hk]; decide) hx
  | component _ hps _ hc hck hx hname _ _ =>
    have hcomponent := ((Node.all_iff _).mp (hchild hps)).2 _ hc
    rw [hname]
    exact isWord_text hcomponent (by rw [hck]; decide) hx

lemma isWord_of_mem (h : d ∈ (JavaAtlas.Outline.ofSource unit i source).declarations) :
    IsWord d.element.name := by
  obtain ⟨p', n', k, m, g', hu, hq, hm, h₀, h₁⟩ :=
    exists_move (P := fun g => d ∈ g.declarations.toList) (fun _ _ => Iff.rfl)
      (by simp [Gathered.empty]) h
  obtain ⟨x, hx⟩ := of_declares hm (alone_declares h₀ h₁)
  have hall := hu.all (parse_wordNamed source.toList)
  exact hx.isWord_name (hq.source_eq ▸ hall)

lemma Marked.exists_family (h : Marked d) : ∃ f : ElementFamily, f.accepts d.element.kind = true := by
  cases ht : d.element.kind.isType with
  | true => exact ⟨.type, ht⟩
  | false =>
    rcases h.getLast?_id ht with ⟨hk, -⟩ | ⟨hk, -⟩
    · exact ⟨.field, hk⟩
    · exact ⟨.method, hk⟩

end JavaAtlas.Outline

namespace JavaAtlas.NamePattern

open Syntax Text

/-- The characters of names that a pattern may have. -/
def typeableChar (c : Char) : Bool := isAlphanumeric c || c == '_' || c == '$'

def typeable (name : String) : Bool := name.toList.all typeableChar

lemma ofChar?_of_isIdentifier {c : Char} (h : (isIdentifierStart c || isIdentifierPart c) = true) :
    Piece.ofChar? c = if typeableChar c then some (.letter c) else none := by
  have hstar : c ≠ '*' := by
    rintro rfl
    exact absurd h (by decide)
  have hmark : c ≠ '?' := by
    rintro rfl
    exact absurd h (by decide)
  have hpoint : c ≠ '.' := by
    rintro rfl
    exact absurd h (by decide)
  rw [Piece.ofChar?, if_neg hstar, if_neg hmark]
  simp [typeableChar, hpoint, or_assoc]

lemma mapM_ofChar?_eq {cs : List Char}
    (h : ∀ c ∈ cs, (isIdentifierStart c || isIdentifierPart c) = true) :
    cs.mapM Piece.ofChar? = if cs.all typeableChar then some (cs.map .letter) else none := by
  induction cs with
  | nil => rfl
  | cons c cs ih =>
    obtain ⟨hc, hcs⟩ := List.forall_mem_cons.mp h
    rw [List.mapM_cons, ofChar?_of_isIdentifier hc, ih hcs, List.all_cons]
    cases typeableChar c <;> cases cs.all typeableChar <;> rfl

/-- A word makes a pattern exactly if it can be typed in one. -/
lemma parse?_of_isWord {name : String} (h : IsWord name) (caseSensitive : Bool) :
    parse? name caseSensitive =
      if typeable name then some ⟨name.toList.map .letter, false, caseSensitive⟩ else none := by
  have hall : ∀ c ∈ name.toList, (isIdentifierStart c || isIdentifierPart c) = true :=
    fun _ => h.isIdentifier
  have hblank : ∀ c ∈ name.toList, isBlank c = false := fun c hc =>
    isBlank_of_isNameChar (by rw [isNameChar, hall c hc, Bool.true_or])
  have hpoint : '.' ∉ name.toList := fun hc => absurd (hall _ hc) (by decide)
  have htrim : trimBlanks name.toList = name.toList := by
    have hhead := List.head?_eq_some_head h.ne_nil
    have hlast := List.getLast?_eq_some_getLast h.ne_nil
    exact trimBlanks_eq_self ⟨_, hhead, hblank _ (List.head_mem h.ne_nil)⟩
      ⟨_, hlast, hblank _ (List.getLast_mem h.ne_nil)⟩
  have hends : ¬(name.toList.isEmpty = true ∨ name.toList.head? = some '.' ∨
      name.toList.getLast? = some '.') := by
    rintro (hempty | hhead | hlast)
    · exact h.ne_nil (List.isEmpty_iff.mp hempty)
    · exact hpoint (List.mem_of_head? hhead)
    · exact hpoint (List.mem_of_getLast? hlast)
  have hcontains : name.toList.contains '.' = false := by simpa using hpoint
  have hpieces : name.toList.mapM Piece.ofChar? =
      if typeable name then some (name.toList.map .letter) else none := mapM_ofChar?_eq hall
  simp only [parse?, htrim, if_neg hends, hpieces, hcontains]
  cases typeable name <;> rfl

lemma matchesName_self {name : String} (caseSensitive : Bool) (qualified : String) :
    matchesName ⟨name.toList.map .letter, false, caseSensitive⟩ name qualified = true := by
  rw [matchesName, if_neg Bool.false_ne_true, fits_letters rfl]
  exact agrees_self caseSensitive name.toList

end JavaAtlas.NamePattern

namespace JavaAtlas.Index

open Outline Syntax NamePattern

variable {index : Index} {d : Declaration} {files : List (String × String)}
variable {family : Option ElementFamily} {name : String}

lemma isWord_ofFiles (h : d ∈ (ofFiles files).declarations) : IsWord d.element.name := by
  simp only [ofFiles, ofOutlines, List.mem_flatMap, List.mem_map] at h
  obtain ⟨o, ⟨⟨⟨path, source⟩, unit⟩, -, rfl⟩, hd⟩ := h
  exact isWord_of_mem hd

lemma searchPattern?_of_isWord (h : IsWord name) :
    index.searchPattern? .declarations (.name name family) =
      if typeable name then some ⟨.name name family, .declarations, false⟩ else none := by
  have hfamily : (family.all fun f => Category.declarations.appliesTo f.typical) = true := by
    cases family <;> rfl
  rw [searchPattern?, admits, hfamily, parse?_of_isWord h]
  cases typeable name <;> rfl

lemma search_own_name (h : IsWord d.element.name) (ht : typeable d.element.name = true)
    (hd : d ∈ index.declarations) (hf : family.all (·.accepts d.element.kind) = true) :
    index.declarationHit d ∈
      index.search ⟨.name d.element.name family, .declarations, false⟩ .project := by
  have hparse := parse?_of_isWord h false
  rw [if_pos ht] at hparse
  simp only [search, declarationTest?, hparse, Option.map_some]
  refine List.mem_map_of_mem (List.mem_filter.mpr ⟨hd, ?_⟩)
  rw [hf, matchesName_self]
  rfl

lemma length_search_declarations_le (index : Index) (target : SearchTarget) (scope : SearchScope)
    (b : Bool) : (index.search ⟨target, .declarations, b⟩ scope).length ≤ index.declarations.length := by
  simp only [search]
  split
  · exact Nat.zero_le _
  · rw [List.length_map]
    exact List.length_filter_le _ _

end JavaAtlas.Index

namespace JavaAtlas.Query

open Outline Index NamePattern

/-- A declaration is found by its own name, alone or within its family, if the name can be typed in a
pattern. If it cannot, nothing is found by it, and no implementations of a method of that name. -/
theorem searchSymbols_own_name (files : List (String × String)) (paths : PathMap) {d : Declaration}
    (hd : d ∈ (Index.ofFiles files).declarations) {most : Nat}
    (hmost : (Index.ofFiles files).declarations.length ≤ most) :
    let q : Query := ⟨.ofFiles files, paths⟩
    Syntax.IsWord d.element.name ∧ (∃ f : ElementFamily, f.accepts d.element.kind = true) ∧
      (typeable d.element.name = true →
        (∀ family : Option ElementFamily, family.all (·.accepts d.element.kind) = true →
          q.present (q.index.declarationHit d) ∈ q.searchSymbols d.element.name family most) ∧
        (q.index.searchPattern? .declarations (.name d.element.name (some .method))).isSome) ∧
      (typeable d.element.name = false →
        (∀ family : Option ElementFamily, q.searchSymbols d.element.name family most = []) ∧
        ∀ e most, e.kind = .method → e.name = d.element.name →
          q.findImplementations e most = []) := by
  have hw := isWord_ofFiles hd
  refine ⟨hw, (marked_ofFiles hd).exists_family, fun ht => ⟨fun family hf => ?_, ?_⟩,
    fun ht => ⟨fun family => ?_, fun e most hk hname => ?_⟩⟩
  · have hlength := length_search_declarations_le (.ofFiles files) (.name d.element.name family)
      .project false
    have hpattern : (Index.ofFiles files).searchPattern? .declarations
        (.name d.element.name family) = some ⟨.name d.element.name family, .declarations, false⟩ :=
      (searchPattern?_of_isWord hw).trans (if_pos ht)
    rw [searchSymbols, run_eq_take, runAll_eq hpattern,
      List.take_of_length_le ((List.length_map _).trans_le (hlength.trans hmost))]
    exact List.mem_map_of_mem (search_own_name hw ht hd hf)
  · rw [searchPattern?_of_isWord hw, if_pos ht]
    rfl
  · simp [searchSymbols, run, searchPattern?_of_isWord hw, ht]
  · rw [findImplementations, hk, hname, searchPattern?_of_isWord hw, ht]
    cases e.declaringType.bind (Index.ofFiles files).declaration? with
    | none => rfl
    | some owner => exact ite_self []

/-- The accent of this name is a character of its own, which no pattern has. -/
def accented : List (String × String) := [("A.java", "class Cafe\u0301 {}")]

/-- A tree without links: every file is reported by the path it has. -/
def unmoved : PathMap := ⟨"/tree", [], false⟩

theorem searchSymbols_own_name_accented :
    ∃ d ∈ (Index.ofFiles accented).declarations, d.element.name = "Cafe\u0301" ∧
      (Index.ofFiles accented).declarations.length ≤ 1 ∧
      (⟨.ofFiles accented, unmoved⟩ : Query).searchSymbols "Cafe\u0301" none 1 = [] := by
  have hnames : (Index.ofFiles accented).declarations.map (·.element.name) = ["Cafe\u0301"] := by
    decide +kernel
  obtain ⟨d, hd, hname⟩ : ∃ d ∈ (Index.ofFiles accented).declarations,
      d.element.name = "Cafe\u0301" := List.mem_map.mp (by simp [hnames])
  have hlength : (Index.ofFiles accented).declarations.length ≤ 1 := by
    rw [← List.length_map (·.element.name), hnames]
    rfl
  have htypeable : typeable d.element.name = false := by
    rw [hname]
    decide +kernel
  obtain ⟨-, -, -, hnone⟩ := searchSymbols_own_name accented unmoved hd hlength
  exact ⟨d, hd, hname, hlength, hname ▸ (hnone htypeable).1 none⟩

end JavaAtlas.Query
