import JavaAtlas.Proofs.ImplementationSearch
import JavaAtlas.Proofs.LinePositions
import JavaAtlas.Proofs.MentionMoves
import JavaAtlas.Proofs.ReportedPaths
import JavaAtlas.Proofs.TiledTrees

/-! Where the results of a search lie. All that an outline says stands in the text of its file, so a
result points into the file that it names, and its line and column lead back to it. -/

namespace JavaAtlas.Syntax

open Text

variable {source : List Char} {n : Node}

lemma Inside.length_le (h : Inside source n) : n.start + n.length ≤ byteLength source := by
  obtain ⟨hstart, hstop⟩ := h.bounded
  rw [Node.length]
  omega

lemma kind_parse (source : List Char) : (parse source).kind = .program := by
  rw [parse_eq, weave_eq]
  exact (kind_parseTokens _).1

end JavaAtlas.Syntax

namespace JavaAtlas.Outline

open Syntax Text

variable {unit : UnitRef} {i : Nat} {source : String} {n : Node} {trail : List Node}

lemma Around.inside {source : List Char} (h : Around (parse source) trail n) (hk : n.kind ≠ .program) :
    Inside source n := by
  have hroot : n = parse source ∨ Inside source n := by
    clear hk
    induction h with
    | root => exact .inl rfl
    | child _ hc ih =>
      rcases ih with rfl | hin
      · exact .inr (parse_inside hc)
      · exact .inr (hin.child hc)
  exact hroot.resolve_left fun heq => hk (heq ▸ kind_parse source)

lemma mention_bounded {μ : Mention} (h : μ ∈ (JavaAtlas.Outline.ofSource unit i source).mentions) :
    μ.offset + μ.length ≤ byteLength source.toList := by
  obtain ⟨p, n, a, role, target, g, hμ⟩ := exists_madeAt h
  have hn : n.kind ≠ .program := fun hk => absurd (hk ▸ hμ.mentions.kind_mem) (by decide)
  rw [hμ.mention_eq]
  exact (hμ.mentions.closed (fun _ _ h hc => h.child hc) (hμ.reaches.around.inside hn)).length_le

lemma declaration_bounded {d : Declaration}
    (h : d ∈ (JavaAtlas.Outline.ofSource unit i source).declarations) :
    d.nameStart + d.element.nameLength ≤ byteLength source.toList := by
  obtain ⟨p, n, x, hp, hd⟩ := exists_declaredBy h
  have hn : n.kind ≠ .program := fun hk => absurd (hk ▸ hd.kind_mem) (by decide)
  rw [Declaration.nameStart, hd.name_place.1, hd.name_place.2]
  exact (hd.closed (fun _ _ h hc => h.child hc) (hp.around.inside hn)).length_le

end JavaAtlas.Outline

namespace JavaAtlas.Index

open Binding Outline Text

variable {files : List (String × String)} {u : Use} {d : Declaration} {hit : Hit}

def Placed (index : Index) (hit : Hit) : Prop :=
  ∃ unit ∈ index.units, hit.unit = unit.ref ∧ hit.offset + hit.length ≤ byteLength unit.source.toList

lemma unit_ofFiles {i : Nat} {path source : String} (h : files[i]? = some (path, source)) :
    ∃ unit ∈ (ofFiles files).units, (ofFiles files).unitRef i = unit.ref ∧ unit.source = source := by
  have hunit : (ofFiles files).units[i]? =
      some ⟨⟨path⟩, source, (Outline.ofSource ⟨path⟩ i source).package⟩ := by
    simp only [ofFiles, ofOutlines, List.getElem?_map, List.getElem?_zipIdx, h, Option.map_some,
      Nat.zero_add]
    rfl
  exact ⟨_, List.mem_of_getElem? hunit, by rw [unitRef, hunit]; rfl, rfl⟩

lemma exists_declaredIn (h : d ∈ (ofFiles files).declarations) :
    ∃ path source, files[d.unit]? = some (path, source) ∧
      d ∈ (Outline.ofSource ⟨path⟩ d.unit source).declarations := by
  rw [ofFiles_eq_ofTrees] at h
  obtain ⟨_, f, o, k, hat⟩ := exists_located_of_mem (fit_ofFiles files) h
  obtain ⟨f', hfile, rfl⟩ := getElem?_outlinesOf.mp hat.outline_eq
  rw [List.getElem?_map, Option.map_eq_some_iff] at hfile
  obtain ⟨⟨path, source⟩, hfile, rfl⟩ := hfile
  exact ⟨path, source, hfile, List.mem_of_getElem? hat.declaration_eq⟩

lemma placed_declarationHit (hd : d ∈ (ofFiles files).declarations) :
    Placed (ofFiles files) ((ofFiles files).declarationHit d) := by
  obtain ⟨path, source, hfile, hmem⟩ := exists_declaredIn hd
  obtain ⟨unit, hunit, href, rfl⟩ := unit_ofFiles hfile
  exact ⟨unit, hunit, href, declaration_bounded hmem⟩

lemma placed_useHit (hu : u ∈ (ofFiles files).uses) (h : (ofFiles files).useHit? u = some hit) :
    Placed (ofFiles files) hit := by
  obtain ⟨path, source, μ, lex, start, hused⟩ := exists_usedIn hu
  obtain ⟨unit, hunit, href, rfl⟩ := unit_ofFiles hused.file_eq
  have hbound := Lexicon.bind?_boundFrom _ hused.bound
  obtain ⟨hhit, hoffset, hlength⟩ := useHit?_eq_some h
  refine ⟨unit, hunit, hhit.trans href, ?_⟩
  rw [hoffset, hlength, hbound.offset_eq, hbound.length_eq]
  exact mention_bounded hused.mem

lemma placed_search {pattern : SearchPattern} {scope : SearchScope}
    (h : hit ∈ (ofFiles files).search pattern scope) : Placed (ofFiles files) hit := by
  rw [search_eq, List.mem_filterMap] at h
  obtain ⟨entry, hentry, hhit⟩ := h
  have hmem : entry ∈ (ofFiles files).declarations.map Entry.declared ∨
      entry ∈ (ofFiles files).uses.map Entry.used := by
    by_cases hc : pattern.category = .declarations
    · rw [hc] at hentry
      exact .inl (List.mem_filter.mp hentry).1
    · rw [entries_eq _ hc] at hentry
      exact .inr (List.mem_filter.mp hentry).1
  rcases hmem with hmem | hmem
  · obtain ⟨d, hd, rfl⟩ := List.mem_map.mp hmem
    obtain rfl := Option.some.inj hhit
    exact placed_declarationHit hd
  · obtain ⟨u, hu, rfl⟩ := List.mem_map.mp hmem
    exact placed_useHit hu hhit

end JavaAtlas.Index

namespace JavaAtlas.Query

open Index Position Text

variable {q : Query} {files : List (String × String)} {paths : PathMap} {m : SearchMatch}
variable {hits : List Hit} {hit : Hit}

/-- A caller is handed results of the search and no others. -/
lemma mem_report_collect {wanted : Hit → Bool} {most : Nat} {kept : List SearchMatch}
    (h : m ∈ report some (q.collect wanted most) kept hits) :
    m ∈ kept ∨ ∃ hit ∈ hits, m = q.present hit := by
  induction hits generalizing kept with
  | nil => exact .inl h
  | cons hit rest ih =>
    have hmore : m ∈ report some (q.collect wanted most)
          (if wanted hit then kept ++ [q.present hit] else kept) rest ∨
        m ∈ (if wanted hit then kept ++ [q.present hit] else kept) := by
      simp only [report] at h
      split at h
      · next hask => exact .inl ((Prod.mk.inj hask).1 ▸ h)
      · next hask => exact .inr ((Prod.mk.inj hask).1 ▸ h)
    have hkept (h : m ∈ (if wanted hit then kept ++ [q.present hit] else kept)) :
        m ∈ kept ∨ m = q.present hit := by
      split at h
      · simpa using h
      · exact .inl h
    rcases hmore.imp_left ih with (h | ⟨hit', hmem, rfl⟩) | h
    · exact (hkept h).imp_right fun heq => ⟨hit, List.mem_cons_self, heq⟩
    · exact .inr ⟨hit', List.mem_cons_of_mem hit hmem, rfl⟩
    · exact (hkept h).imp_right fun heq => ⟨hit, List.mem_cons_self, heq⟩

lemma placed_request {wanted : Hit → Bool} {most : Nat} {pattern : SearchPattern} {scope : SearchScope}
    (hq : q.index = ofFiles files)
    (h : m ∈ q.index.request pattern scope (q.collect wanted most) []) :
    ∃ hit, Placed q.index hit ∧ m = q.present hit := by
  rw [request_eq] at h
  rcases mem_report_collect h with h | ⟨hit, hmem, rfl⟩
  · cases h
  · exact ⟨hit, hq ▸ placed_search (hq ▸ hmem), rfl⟩

lemma placed_run {target : SearchTarget} {category : Category} {scope : SearchScope} {most : Nat}
    (hq : q.index = ofFiles files) (h : m ∈ q.run target category scope most) :
    ∃ hit, Placed q.index hit ∧ m = q.present hit := by
  rw [run] at h
  split at h
  · cases h
  · split at h
    · cases h
    · exact placed_request hq h

/-- Every answer presents a place in a file. -/
lemma placed_answer (hq : q.index = ofFiles files) {question : Question} {most : Nat}
    (h : m ∈ q.answer question most) : ∃ hit, Placed q.index hit ∧ m = q.present hit := by
  cases question with
  | symbols pattern family => exact placed_run hq h
  | references e access => exact placed_run hq h
  | shaped e shape => exact placed_run hq h
  | implementations e =>
    have h : m ∈ q.findImplementations e most := h
    rw [findImplementations] at h
    split at h
    · obtain ⟨t, ht, hm⟩ := List.mem_filterMap.mp (List.mem_of_mem_take h)
      obtain ⟨d, hd, rfl⟩ := mem_allSubtypes_declared ht
      obtain ⟨index, paths⟩ := q
      obtain rfl : index = ofFiles files := hq
      rw [declarationMatch?_eq hd] at hm
      exact ⟨_, placed_declarationHit hd, (Option.some.inj hm).symm⟩
    split at h
    · cases h
    split at h
    · cases h
    dsimp only at h
    split at h
    · cases h
    split at h
    · cases h
    · exact placed_request hq h

/-- What is presented of a place leads back to it. -/
lemma present_returns (hn : ((q.index.units.map (·.ref.path)).map Path.components).Nodup)
    (h : Placed q.index hit) : ∃ unit ∈ q.index.units,
      (q.present hit).path = q.paths.report unit.ref.path ∧
      offsetFor unit.source (q.present hit).line (q.present hit).column = (q.present hit).offset ∧
      (q.present hit).offset + (q.present hit).length ≤ byteLength unit.source.toList := by
  obtain ⟨unit, hunit, href, hle⟩ := h
  have hfound : q.index.unit? hit.unit.path = some unit := href ▸ Index.unit?_of_mem hn hunit
  refine ⟨unit, hunit, by rw [present, href], ?_, hle⟩
  simp only [present, hfound, Option.map_some, Option.getD_some]
  rw [offsetFor_lineFor]
  exact Nat.min_eq_left (by omega)

lemma nodup_readIndex (fs : FileTree) (p : Project) :
    (((p.readIndex fs).units.map (·.ref.path)).map Path.components).Nodup := by
  rw [Project.readIndex, Index.paths_ofFiles]
  exact (Path.nodup_distinct _).sublist ((Sources.texts_sublist fs _).map Path.components)

/-- Bytes and positions are two ways to say the same: a byte is found again from its line and column,
a line and column that are there from their byte. The scans over bytes never index beyond the text. And
the line and column of every result of a search lead back to its place in its file. -/
theorem places_and_positions_agree :
    (∀ (text : String) (offset : Nat), offsetFor text (lineFor text offset) (columnFor text offset) =
      min offset (byteLength text.toList)) ∧
    (∀ (text : String) (line column : Nat) (piece : List Char), (rows text)[line]? = some piece →
      column ≤ byteLength piece → lineFor text (offsetFor text line column) = line ∧
        columnFor text (offsetFor text line column) = column) ∧
    (∀ text : String, byteLength text.toList < Json.wordLimit → ∀ line column offset : Nat,
      scanOffset? (utf8 text.toList) line column = some (offsetFor text line column) ∧
        scanLine? (utf8 text.toList) offset = some (lineFor text offset) ∧
        scanColumn? (utf8 text.toList) offset = some (columnFor text offset)) ∧
    ∀ (fs : FileTree) (p : Project) (paths : PathMap) (question : Question) (most : Nat),
      ∀ m ∈ answer ⟨p.readIndex fs, paths⟩ question most, ∃ unit ∈ (p.readIndex fs).units,
        m.path = paths.report unit.ref.path ∧ offsetFor unit.source m.line m.column = m.offset ∧
          m.offset + m.length ≤ byteLength unit.source.toList := by
  refine ⟨offsetFor_lineFor, fun _ _ _ _ => lineFor_offsetFor, fun _ => scans_eq,
    fun fs p paths question most m hm => ?_⟩
  obtain ⟨hit, hplaced, rfl⟩ := placed_answer (q := ⟨p.readIndex fs, paths⟩) rfl hm
  exact present_returns (q := ⟨p.readIndex fs, paths⟩) (nodup_readIndex fs p) hplaced

/-- A tree with one source file, whose class is named on the second line. -/
def lowTree : FileTree where
  entries := [(["src"], .dir), (["src", "A.java"], .file (FileTree.encodeText "\nclass A {}") false)]
  cwd := []

def lowProject : Project := ⟨"p", "/p", "/p/out", [.source ⟨"/src", "src", ""⟩], none⟩

theorem places_and_positions_agree_lowTree :
    (lineFor "a\nbc" (offsetFor "a\nbc" 1 2) = 1 ∧ columnFor "a\nbc" (offsetFor "a\nbc" 1 2) = 2) ∧
    scanColumn? (utf8 "a\nbc".toList) 9 = some (columnFor "a\nbc" 9) ∧
    ∃ m, m ∈ answer ⟨lowProject.readIndex lowTree, ⟨"/src", [], false⟩⟩ (.symbols "A" none) 5 ∧
      (m.line, m.column) = (1, 6) ∧ ∃ unit ∈ (lowProject.readIndex lowTree).units,
        offsetFor unit.source m.line m.column = m.offset := by
  obtain ⟨-, hline, hscan, hmatch⟩ := places_and_positions_agree
  have hplaces : (answer ⟨lowProject.readIndex lowTree, ⟨"/src", [], false⟩⟩ (.symbols "A" none) 5).map
      (fun m => (m.line, m.column)) = [(1, 6)] := by decide +kernel
  have hone : (1, 6) ∈ [(1, 6)] := List.mem_singleton_self (1, 6)
  rw [← hplaces] at hone
  obtain ⟨m, hm, heq⟩ := List.mem_map.mp hone
  obtain ⟨unit, hunit, -, hreturns, -⟩ := hmatch lowTree lowProject _ _ 5 m hm
  exact ⟨hline "a\nbc" 1 2 "bc".toList (by decide) (by decide), (hscan _ (by decide) 0 0 9).2.2,
    m, hm, heq, unit, hunit, hreturns⟩

end JavaAtlas.Query
