import JavaAtlas.Proofs.SearchSelection
import JavaAtlas.Proofs.WalkTraces

/-! What a walk mentions stands apart, up to the constructor and the type of a created object, which are
mentioned at one place. So a search for an element reports no place twice, unless that constructor and
that type were taken for the same element. -/

namespace JavaAtlas.Outline

open Syntax Text

variable {p : Place} {n t x tree : Node} {g : Gathered} {h i k : Nat} {ref : UnitRef} {unit : Nat}
variable {source : String} {m a b : Mention}

/-- The mention was made at a node, of a token of it. -/
structure Site (m : Mention) (n x : Node) : Prop where
  using_kind : n.kind ∈ usingKinds
  token : TokenOf n x
  sited : Sited n x m.target
  offset_eq : m.offset = x.start
  length_eq : m.length = x.length

lemma Site.mem_token (h : Site m n x) : m.offset ∈ x.bytes :=
  ⟨h.offset_eq.ge, h.offset_eq.trans_lt h.token.nonempty⟩

lemma Site.mem_mention (h : Site m n x) : m.offset ∈ m.bytes := by
  have hpos : 0 < m.length := by
    rw [h.length_eq]
    exact Nat.sub_pos_of_lt h.token.nonempty
  exact ⟨Nat.le_refl _, Nat.lt_add_of_pos_right hpos⟩

lemma exists_site (hn : n.Grammatical) (hp : Plain n) (h₀ : m ∉ g.mentions.toList)
    (h₁ : m ∈ (visit h p n g).mentions.toList) : ∃ t k x, Under t k n ∧ Site m t x := by
  obtain ⟨p', t, k, move, g', ht, -, hof, hno, hyes⟩ :=
    exists_move (P := fun g => m ∈ g.mentions.toList) (fun _ _ => Iff.rfl) h₀ h₁
  obtain ⟨q, x, role, target, what, rfl, htarget, rfl⟩ := alone_mentions hno hyes
  cases hof with
  | mention hkind htoken _ hsited =>
    have htok := htoken (ht.everywhere hn) (ht.everywhere hp)
    exact ⟨t, k, x, ht, hkind, htok, hsited _ _ htarget, rfl, rfl⟩

/-- A `this` in a node is a word at which no node below that one mentions anything. -/
lemma eq_of_under_this (hn : n.Grammatical) (hp : Plain n) (hx : x ∈ n.children)
    (hthis : x.kind = .thisName) (ht : Under t k n) (hu : t.kind ∈ usingKinds) (hi : i ∈ t.bytes)
    (hi' : i ∈ x.bytes) : t = n := by
  cases ht with
  | self => rfl
  | @child k n c hc ht =>
    have hwf := hn.wellFormed
    obtain rfl := child_unique hwf hx hc hi' ((ht.within (hwf.child hc)).bytes_subset hi)
    have hleaf := (hp.child hx).leaf (show x.kind ∈ wordKinds by rw [hthis]; decide)
    cases ht with
    | self =>
      rw [hthis] at hu
      exact absurd hu (by decide)
    | child hc' _ => simp [hleaf] at hc'

/-- A constructor and a type, mentioned at the type of one created object. -/
structure OfCreation (tree : Node) (a b : Mention) : Prop where
  constructs : ∃ name arity, a.target = .constructor name arity
  names : ∃ name, b.target = .type name
  created : ∃ n k type, Under n k tree ∧ n.kind = .objectCreation ∧ n.child? .type = some type ∧
    (a.offset = (anchorOf type).start ∧ a.length = (anchorOf type).length) ∧
    b.offset = (anchorOf type).start ∧ b.length = (anchorOf type).length

section Tree

variable (hn : tree.Grammatical) (hp : Plain tree)
include hn hp

lemma exists_site_of_mem (hm : m ∈ (Outline.ofTree ref unit source tree).mentions) :
    ∃ t k x, Under t k tree ∧ Site m t x :=
  exists_site hn hp (by simp [Gathered.empty]) hm

lemma type_not_at_call (hb : b ∈ (Outline.ofTree ref unit source tree).mentions)
    (ht : ∃ name, b.target = .type name) (hu : Under t k tree) (hk : t.kind = .constructorCall)
    (hx : x ∈ t.children) (hthis : x.kind = .thisName) : b.offset ∉ x.bytes := by
  intro hbx
  have hgt : t.Grammatical := hu.everywhere hn
  have hpt : Plain t := hu.everywhere hp
  have hbt := (hgt.wellFormed.within hx).bytes_subset hbx
  -- had the walk mentioned it anywhere, it would have come by the call, whose `this` has no parts
  have hopen : Open .empty := List.cons_ne_nil [] []
  have hpassed : t.kind ∉ passedKinds := by rw [hk]; decide
  obtain ⟨_, _, _, _, hfirst⟩ := exists_site_of_mem hn hp hb
  obtain ⟨h, q, g, -, -, -, hno, hyes, -⟩ := (traced_mention hfirst.mem_mention).reaches hn hp hu
    (List.ne_nil_of_mem hx) hpassed hbt (Nat.le_refl _) hopen (by simp [Gathered.empty]) hb
  obtain ⟨s, l, y, hs, hsite⟩ := exists_site hgt hpt hno hyes
  have hbs := (hsite.token.within (hs.everywhere hgt.wellFormed)).bytes_subset hsite.mem_token
  obtain rfl := eq_of_under_this hgt hpt hx hthis hs hsite.using_kind hbs hbx
  obtain ⟨name, htype⟩ := ht
  have hsited := hsite.sited
  rw [htype] at hsited
  exact hsited.2 hk

lemma ofCreation (ha : a ∈ (Outline.ofTree ref unit source tree).mentions)
    (hb : b ∈ (Outline.ofTree ref unit source tree).mentions) (h : Creation a b) :
    OfCreation tree a b := by
  obtain ⟨hoffset, hlength, ⟨name, arity, htarget⟩, htype⟩ := h
  obtain ⟨t, k, x, hu, hsite⟩ := exists_site_of_mem hn hp ha
  have hsited := hsite.sited
  rw [htarget] at hsited
  rcases hsited with ⟨hk, type, htc, rfl⟩ | ⟨hk, hx, hthis⟩
  · exact ⟨⟨name, arity, htarget⟩, htype, t, k, type, hu, hk, htc,
      ⟨hsite.offset_eq, hsite.length_eq⟩,
      hoffset.symm.trans hsite.offset_eq, hlength.symm.trans hsite.length_eq⟩
  · have hbx : b.offset ∈ x.bytes := hoffset ▸ hsite.mem_token
    exact absurd hbx (type_not_at_call hn hp hb htype hu hk (Node.mem_children_of_child? hx) hthis)

/-- A mention has a first byte, and two of them have no byte in common, unless they are those of one
created object. -/
theorem mentions_separate (ref : UnitRef) (unit : Nat) (source : String) :
    (∀ m ∈ (Outline.ofTree ref unit source tree).mentions, m.offset ∈ m.bytes) ∧
      (Outline.ofTree ref unit source tree).mentions.Pairwise fun a b =>
        Disjoint a.bytes b.bytes ∨ OfCreation tree a b ∨ OfCreation tree b a := by
  refine ⟨fun m hm => ?_, ?_⟩
  · obtain ⟨_, _, _, _, hsite⟩ := exists_site_of_mem hn hp hm
    exact hsite.mem_mention
  · have hblock := ofTree_block (.of_grammatical hn) ref unit source
    refine (hblock.mentions_apart trivial).imp_of_mem fun ha hb h => ?_
    exact h.imp_right (.imp (ofCreation hn hp ha hb) (ofCreation hn hp hb ha))

end Tree

end JavaAtlas.Outline

namespace JavaAtlas.Binding.Lexicon

open Outline

variable {lex : Lexicon} {m : Mention} {unit offset : Nat} {u : Use}

lemma bind?_constructor (h : lex.bind? m unit offset = some u)
    (ht : ∃ name arity, m.target = .constructor name arity) :
    u.family = .method ∧ ∀ id ∈ u.targets,
      ∃ c ∈ lex.declarations, c.element.kind = .constructor ∧ c.id = id := by
  obtain ⟨name, arity, ht⟩ := ht
  obtain ⟨meaning, hm, rfl⟩ := Option.map_eq_some_iff.mp h
  rw [ht, meaning?] at hm
  split at hm
  · split at hm
    · cases hm
    · obtain rfl := Option.some.inj hm
      refine ⟨rfl, fun id hid => ?_⟩
      obtain ⟨c, hc, rfl⟩ := List.mem_map.mp hid
      obtain ⟨hin, htest⟩ := List.mem_filter.mp hc
      exact ⟨c, (List.mem_filter.mp hin).1, eq_of_beq (Bool.and_eq_true_iff.mp htest).1, rfl⟩
  · cases hm

lemma bind?_type (h : lex.bind? m unit offset = some u) (ht : ∃ name, m.target = .type name) :
    u.family = .type ∧ ∃ id, u.targets = [id] := by
  obtain ⟨name, ht⟩ := ht
  obtain ⟨meaning, hm, rfl⟩ := Option.map_eq_some_iff.mp h
  rw [ht] at hm
  obtain rfl := Option.some.inj hm
  exact ⟨rfl, _, rfl⟩

end JavaAtlas.Binding.Lexicon

namespace JavaAtlas.Index

open Binding Outline

variable {files : List ParsedFile} {u v : Use} {index : Index} {id : String} {scope : SearchScope}

/-- A constructor and a type, bound at one place. -/
structure OfObject (index : Index) (u v : Use) : Prop where
  unit_eq : u.unit = v.unit
  offset_eq : u.offset = v.offset
  length_eq : u.length = v.length
  constructs : u.family = .method ∧ ∀ id ∈ u.targets,
    ∃ c ∈ index.declarations, c.element.kind = .constructor ∧ c.id = id
  names : v.family = .type ∧ ∃ id, v.targets = [id]

/-- Uses at one place are those of a created object. -/
def Separate (index : Index) (u v : Use) : Prop :=
  (u.unit, u.offset) = (v.unit, v.offset) → OfObject index u v ∨ OfObject index v u

lemma pairwise_zipIdx_snd {α : Type} (l : List α) : l.zipIdx.Pairwise fun a b => a.2 ≠ b.2 := by
  refine List.pairwise_map.mp ?_
  rw [List.zipIdx_map_snd]
  exact List.nodup_range'

lemma OfObject.of_creation {outlines : List Outline} {tree : Syntax.Node} {a b : Mention} {i k : Nat}
    (hu : (lexiconOf outlines).bind? a i k = some u) (hv : (lexiconOf outlines).bind? b i k = some v)
    (h : OfCreation tree a b) : OfObject (ofOutlines outlines) u v := by
  obtain ⟨hconstructs, hnames, _, _, _, -, -, -, ⟨hao, hal⟩, hbo, hbl⟩ := h
  have hau := Lexicon.bind?_boundFrom _ hu
  have hbv := Lexicon.bind?_boundFrom _ hv
  exact {
    unit_eq := hau.unit_eq.trans hbv.unit_eq.symm
    offset_eq := by rw [hau.offset_eq, hbv.offset_eq, hao, hbo]
    length_eq := by rw [hau.length_eq, hbv.length_eq, hal, hbl]
    constructs := Lexicon.bind?_constructor hu hconstructs
    names := Lexicon.bind?_type hv hnames }

lemma uses_separate (hg : ∀ f ∈ files, f.tree.Grammatical) (hp : ∀ f ∈ files, Plain f.tree) :
    (ofTrees files).uses.Pairwise (Separate (ofTrees files)) := by
  rw [ofTrees, uses_ofOutlines]
  refine List.pairwise_flatMap.mpr ⟨fun o ho => ?_, ?_⟩
  · obtain ⟨f, hf, heq⟩ := getElem?_outlinesOf.mp (List.mem_zipIdx_iff_getElem?.mp ho)
    have hm := List.mem_of_getElem? hf
    obtain ⟨hne, hpw⟩ := mentions_separate (hg f hm) (hp f hm) f.ref o.2 f.source
    rw [heq] at hne hpw
    refine List.pairwise_filterMap.mpr (hpw.imp_of_mem fun {a b} ha hb hab u hu v hv hplace => ?_)
    obtain hdis | hcreated | hcreated := hab
    · -- both have their first byte
      have hau := Lexicon.bind?_boundFrom _ hu
      have hbv := Lexicon.bind?_boundFrom _ hv
      have hoffset := (Prod.mk.inj hplace).2
      rw [hau.offset_eq, hbv.offset_eq] at hoffset
      exact (Set.disjoint_left.mp hdis (hne a ha) (hoffset ▸ hne b hb)).elim
    · exact .inl (.of_creation hu hv hcreated)
    · exact .inr (.of_creation hv hu hcreated)
  · refine (pairwise_zipIdx_snd _).imp fun {o o'} hne u hu v hv hplace => ?_
    obtain ⟨a, -, hau⟩ := List.mem_filterMap.mp hu
    obtain ⟨b, -, hbv⟩ := List.mem_filterMap.mp hv
    have hunit := (Prod.mk.inj hplace).1
    rw [(Lexicon.bind?_boundFrom _ hau).unit_eq, (Lexicon.bind?_boundFrom _ hbv).unit_eq] at hunit
    exact absurd hunit hne

/-- A search for references to an identifier reports the use. -/
structure Reported (index : Index) (scope : SearchScope) (id : String) (u : Use) : Prop where
  target : id ∈ u.targets
  enclosed : scope.encloses u.enclosingType = true
  owned : (index.useHit? u).isSome = true

/-- The uses are not both reported at one place. -/
def Apart (index : Index) (scope : SearchScope) (id : String) (u v : Use) : Prop :=
  Reported index scope id u → Reported index scope id v → (u.unit, u.offset) ≠ (v.unit, v.offset)

instance : Std.Symm (Apart index scope id) := ⟨fun _ _ h hv hu => (h hu hv).symm⟩

/-- The constructor and the type of one created object were both taken for the same identifier. -/
def ReadTwice (index : Index) (scope : SearchScope) (id : String) : Prop :=
  ∃ u ∈ index.uses, ∃ v ∈ index.uses, OfObject index u v ∧ Reported index scope id u ∧
    Reported index scope id v

section Trees

variable (hpaths : DistinctPaths files) (hg : ∀ f ∈ files, f.tree.Grammatical)
include hpaths hg

lemma unit_eq_of_unitRef_eq (hu : u ∈ (ofTrees files).uses) (hv : v ∈ (ofTrees files).uses)
    (h : (ofTrees files).unitRef u.unit = (ofTrees files).unitRef v.unit) : u.unit = v.unit := by
  have hf := fit_of_grammatical hg
  obtain ⟨f, _, _, hm⟩ := exists_boundAt hf hu
  obtain ⟨f', _, _, hm'⟩ := exists_boundAt hf hv
  rw [unitRef_eq hm.file_eq, unitRef_eq hm'.file_eq] at h
  exact index_eq_of_same hpaths hm.file_eq hm'.file_eq (by simp [h, Path.same])

omit hpaths in
lemma passes_iff (hu : u ∈ (ofTrees files).uses) :
    (Category.references.accepts u.role && scope.encloses u.enclosingType && u.targets.contains id) =
        true ∧ ((ofTrees files).useHit? u).isSome = true ↔ Reported (ofTrees files) scope id u := by
  have hrole := role_ne_declaration (fit_of_grammatical hg) hu
  simp only [Category.accepts, Bool.and_eq_true, List.contains_iff_mem]
  constructor
  · rintro ⟨⟨⟨-, henclosed⟩, htarget⟩, howned⟩
    exact ⟨htarget, henclosed, howned⟩
  · rintro ⟨htarget, henclosed, howned⟩
    exact ⟨⟨⟨by simpa using hrole, henclosed⟩, htarget⟩, howned⟩

lemma nodup_positions_iff (e : Element) (caseSensitive : Bool) :
    (((ofTrees files).search ⟨.element e, .references, caseSensitive⟩ scope).map
        fun hit => (hit.unit, hit.offset)).Nodup ↔
      (ofTrees files).uses.Pairwise (Apart (ofTrees files) scope e.id) := by
  rw [List.Nodup, List.pairwise_map, search]
  dsimp only [useTest?]
  rw [List.pairwise_filterMap, List.pairwise_filter]
  refine List.Pairwise.iff_of_mem fun {u v} hu hv => ?_
  rw [Apart, ← passes_iff hg hu, ← passes_iff hg hv]
  constructor
  · rintro h ⟨hpass, hhit⟩ ⟨hpass', hhit'⟩ hplace
    obtain ⟨hit, hhit⟩ := Option.isSome_iff_exists.mp hhit
    obtain ⟨hit', hhit'⟩ := Option.isSome_iff_exists.mp hhit'
    obtain ⟨hunit, hoffset, -⟩ := useHit?_eq_some hhit
    obtain ⟨hunit', hoffset', -⟩ := useHit?_eq_some hhit'
    obtain ⟨hu, ho⟩ := Prod.mk.inj hplace
    exact h hpass hpass' hit hhit hit' hhit' (by rw [hunit, hunit', hoffset, hoffset', hu, ho])
  · intro h hpass hpass' hit hhit hit' hhit' hplace
    obtain ⟨hunit, hoffset, -⟩ := useHit?_eq_some hhit
    obtain ⟨hunit', hoffset', -⟩ := useHit?_eq_some hhit'
    obtain ⟨hsame, ho⟩ := Prod.mk.inj hplace
    rw [hunit, hunit'] at hsame
    rw [hoffset, hoffset'] at ho
    refine h ⟨hpass, by rw [hhit]; rfl⟩ ⟨hpass', by rw [hhit']; rfl⟩ (Prod.ext ?_ ho)
    exact unit_eq_of_unitRef_eq hpaths hg hu hv hsame

omit hpaths in
lemma pairwise_apart_iff (hp : ∀ f ∈ files, Plain f.tree) :
    (ofTrees files).uses.Pairwise (Apart (ofTrees files) scope id) ↔
      ¬ReadTwice (ofTrees files) scope id := by
  constructor
  · rintro hpw ⟨u, hu, v, hv, hobject, hru, hrv⟩
    have hne : u ≠ v := by
      rintro rfl
      exact absurd (hobject.constructs.1.symm.trans hobject.names.1) (by decide)
    exact hpw.forall hu hv hne hru hrv (Prod.ext hobject.unit_eq hobject.offset_eq)
  · intro hnot
    refine (uses_separate hg hp).imp_of_mem fun {u v} hu hv hsep hru hrv hplace => hnot ?_
    rcases hsep hplace with hobject | hobject
    · exact ⟨u, hu, v, hv, hobject, hru, hrv⟩
    · exact ⟨v, hv, u, hu, hobject, hrv, hru⟩

end Trees

lemma ReadTwice.misread (h : ReadTwice index scope id) :
    (∃ c ∈ index.declarations, c.element.kind = .constructor ∧ c.id = id) ∧
      ∃ v ∈ index.uses, v.family = .type ∧ v.targets = [id] := by
  obtain ⟨u, -, v, hv, hobject, hru, hrv⟩ := h
  obtain ⟨hfamily, t, ht⟩ := hobject.names
  obtain rfl : id = t := List.mem_singleton.mp (ht ▸ hrv.target)
  exact ⟨hobject.constructs.2 id hru.target, v, hv, hfamily, ht⟩

/-- Nothing is mentioned twice: two mentions of a file have no byte in common, unless they are the
constructor and the type of one created object. So a search for references reports no place twice,
unless the name of such a type was read as the identifier of such a constructor. -/
theorem references_distinct_iff (files : List ParsedFile) (hpaths : DistinctPaths files)
    (hg : ∀ f ∈ files, f.tree.Grammatical) (hp : ∀ f ∈ files, Plain f.tree) :
    let index := ofTrees files
    (∀ f ∈ files, ∀ unit, let mentions := (Outline.ofTree f.ref unit f.source f.tree).mentions
      (∀ m ∈ mentions, m.offset ∈ m.bytes) ∧ mentions.Pairwise fun a b =>
        Disjoint a.bytes b.bytes ∨ OfCreation f.tree a b ∨ OfCreation f.tree b a) ∧
    ∀ d ∈ index.declarations, ∀ scope caseSensitive,
      (((index.search ⟨.element d.element, .references, caseSensitive⟩ scope).map
        fun hit => (hit.unit, hit.offset)).Nodup ↔ ¬ReadTwice index scope d.id) ∧
      (ReadTwice index scope d.id →
        (∃ c ∈ index.declarations, c.element.kind = .constructor ∧ c.id = d.id) ∧
          ∃ v ∈ index.uses, v.family = .type ∧ v.targets = [d.id]) := by
  intro index
  refine ⟨fun f hf unit => mentions_separate (hg f hf) (hp f hf) f.ref unit f.source,
    fun d _ scope caseSensitive => ⟨?_, ReadTwice.misread⟩⟩
  exact (nodup_positions_iff hpaths hg d.element caseSensitive).trans (pairwise_apart_iff hg hp)

/-- The file `package x.y; class W { W() {} }`, with comments in the name of the package. -/
def remarkedPackage : ParsedFile where
  ref := ⟨"P.java"⟩
  source := "package x/*/y.W#W()*/./*.x/*/y; class W { W() {} }"
  tree := .mk .program none 0 50 [
    .mk .packageDeclaration none 0 31 [.mk .mark none 0 7 [],
      .mk .scopedIdentifier none 8 30 [.mk .identifier none 8 9 [], .mk .comment none 9 21 [],
        .mk .mark none 21 22 [], .mk .comment none 22 29 [], .mk .identifier (some .name) 29 30 []],
      .mk .mark none 30 31 []],
    .mk .classDeclaration none 32 50 [.mk .mark none 32 37 [], .mk .identifier (some .name) 38 39 [],
      .mk .classBody none 40 50 [.mk .mark none 40 41 [],
        .mk .constructorDeclaration none 42 48 [.mk .identifier (some .name) 42 43 [],
          .mk .formalParameters (some .parameters) 43 45 [.mk .mark none 43 44 [],
            .mk .mark none 44 45 []],
          .mk .constructorBody (some .body) 46 48 [.mk .mark none 46 47 [], .mk .mark none 47 48 []]],
        .mk .mark none 49 50 []]]]

/-- The file `import x.y; class Q { Object o = new x<A>.B<C>(); }`, with comments in both names. -/
def remarkedCreation : ParsedFile where
  ref := ⟨"Q.java"⟩
  source := "import x/*/y.W#W()*/./*.x/*/y; class Q \x7b Object o = new " ++
    "x</*>/*<*/ /*>/y.W#W()<<*/ A>.B</*>>*<*/ /*>/./*.x/*<*/ /*>/y.W<*/ C>(); \x7d"
  tree := .mk .program none 0 130 [
    .mk .importDeclaration none 0 30 [.mk .mark none 0 6 [],
      .mk .scopedIdentifier none 7 29 [.mk .identifier none 7 8 [], .mk .comment none 8 20 [],
        .mk .mark none 20 21 [], .mk .comment none 21 28 [], .mk .identifier (some .name) 28 29 []],
      .mk .mark none 29 30 []],
    .mk .classDeclaration none 31 130 [.mk .mark none 31 36 [], .mk .identifier (some .name) 37 38 [],
      .mk .classBody none 39 130 [.mk .mark none 39 40 [],
        .mk .fieldDeclaration none 41 128 [.mk .typeIdentifier (some .type) 41 47 [],
          .mk .variableDeclarator none 48 127 [.mk .identifier (some .name) 48 49 [],
            .mk .mark none 50 51 [],
            .mk .objectCreation (some .value) 52 127 [.mk .mark none 52 55 [],
              .mk .genericType (some .type) 56 125 [
                .mk .scopedType none 56 87 [
                  .mk .genericType none 56 85 [.mk .typeIdentifier none 56 57 [],
                    .mk .typeArguments none 57 85 [.mk .mark none 57 58 [], .mk .comment none 58 66 [],
                      .mk .comment none 67 82 [], .mk .typeIdentifier none 83 84 [],
                      .mk .mark none 84 85 []]],
                  .mk .mark none 85 86 [], .mk .typeIdentifier none 86 87 []],
                .mk .typeArguments none 87 125 [.mk .mark none 87 88 [], .mk .comment none 88 96 [],
                  .mk .comment none 97 111 [], .mk .comment none 112 122 [],
                  .mk .typeIdentifier none 123 124 [], .mk .mark none 124 125 []]],
              .mk .argumentList (some .arguments) 125 127 [.mk .mark none 125 126 [],
                .mk .mark none 126 127 []]]],
          .mk .mark none 127 128 []],
        .mk .mark none 129 130 []]]]

/-- Without its arguments, brackets in comments included, `x<A>.B` is read as `x/*/y.W#W()`. The import
makes that the identifier of the constructor of the type that the whole name means. -/
theorem references_distinct_iff_remarkedCreation :
    let index := ofTrees [remarkedPackage, remarkedCreation]
    ∃ d ∈ index.declarations, d.id = "x/*/y.W#W()*/./*.x/*/y.W#W()" ∧
      (index.search ⟨.element d.element, .references, true⟩ .project).map
        (fun hit => (hit.unit, hit.offset)) = [(⟨"Q.java"⟩, 86), (⟨"Q.java"⟩, 86)] ∧
      ReadTwice index .project d.id := by
  intro index
  obtain ⟨d, hd, hid, hsearch⟩ : ∃ d ∈ index.declarations, d.id = "x/*/y.W#W()*/./*.x/*/y.W#W()" ∧
      (index.search ⟨.element d.element, .references, true⟩ .project).map
        (fun hit => (hit.unit, hit.offset)) = [(⟨"Q.java"⟩, 86), (⟨"Q.java"⟩, 86)] := by
    decide +kernel
  have hiff := ((references_distinct_iff [remarkedPackage, remarkedCreation] (by decide)
    (by decide +kernel) (by decide +kernel)).2 d hd .project true).1
  rw [hsearch] at hiff
  exact ⟨d, hd, hid, hsearch, not_not.mp (mt hiff.mpr (by decide))⟩

end JavaAtlas.Index
