import JavaAtlas.Proofs.Walking

/-! The nodes that declare something: types, record components, methods, fields and enum constants.
Each opens a block that its declaration owns. -/

namespace JavaAtlas.Outline

open Syntax Text

variable {tidy strict : Prop} {p : Place} {owner : Option Placed} {S T : Set Nat}
variable {g g' : Gathered} {n c : Node}

lemma typeKind_isType (k : Kind) : (typeKind k).isType = true := by
  cases k <;> rfl

def NamedByIdentifier (strict : Prop) (n : Node) : Prop :=
  strict → ∀ c, n.child? .name = some c → c.kind = .identifier

def declarators (n : Node) : List Node := n.named.filter (·.kind == .variableDeclarator)

def fieldParts (n : Node) : Set Nat :=
  regions Node.bytes (n.named.filter (·.kind != .variableDeclarator)) ∪
    regions (slotBytes · .value) (declarators n)

lemma declarators_sublist (n : Node) : (declarators n).Sublist n.children :=
  filter_named_sublist _ n

lemma mem_children_of_declarators (h : c ∈ declarators n) : c ∈ n.children :=
  (declarators_sublist n).subset h

lemma disjoint_others (hf : Fits tidy strict n) (hs : strict) (hc : c ∈ declarators n) :
    Disjoint c.bytes (regions Node.bytes (n.named.filter (·.kind != .variableDeclarator))) := by
  refine disjoint_regions fun b hb => ?_
  obtain ⟨hm, hk⟩ := List.mem_filter.mp hb
  have hne : c ≠ b := by
    rintro rfl
    have hk' := (List.mem_filter.mp hc).2
    simp_all
  exact hf.disjoint hs (mem_children_of_declarators hc) (Node.mem_children_of_mem_named hm) hne

lemma fieldParts_subset (hf : Fits tidy strict n) (hs : strict) : fieldParts n ⊆ n.bytes := by
  refine Set.union_subset ?_ (regions_subset fun c hc => ?_)
  · exact regions_bytes_subset hf (filter_named_sublist _ n) hs
  · have hm := mem_children_of_declarators hc
    exact (slotBytes_subset (hf.child hm) .value hs).trans (hf.bytes_subset hm hs)

lemma disjoint_fieldParts (hf : Fits tidy strict n) (hs : strict) (hc : c ∈ declarators n)
    {name : Node} (hname : c.child? .name = some name) : Disjoint name.bytes (fieldParts n) := by
  have hm := mem_children_of_declarators hc
  have hsub : name.bytes ⊆ c.bytes :=
    (hf.child hm).bytes_subset (Node.mem_children_of_child? hname) hs
  refine Set.disjoint_union_right.mpr
    ⟨(disjoint_others hf hs hc).mono_left hsub, disjoint_regions fun b hb => ?_⟩
  by_cases hcb : c = b
  · subst hcb
    rw [← slotBytes_of_some hname]
    exact disjoint_slotBytes (hf.child hm) hs (by decide)
  · have hmb := mem_children_of_declarators hb
    exact (hf.disjoint hs hm hmb hcb).mono hsub (slotBytes_subset (hf.child hmb) .value hs)

def declareField (p : Place) (n : Node) (g : Gathered) (c : Node) : Gathered :=
  match c.child? .name with
  | none => g
  | some name =>
    match p.typeId?, p.anonymous with
    | some typeId, 0 => g.declare {
        declarationAt p n name (typeId ++ "#" ++ p.text name) .field with
        typeText := (n.child? .type).map p.text }
    | _, _ => g.bind (p.text name) (.variable ((n.child? .type).map p.text))

def declareFields (p : Place) (n : Node) (g : Gathered) : Gathered :=
  (declarators n).foldl (declareField p n) g

lemma visitField_eq (go : Visitor) (p : Place) (n : Node) (g : Gathered) :
    visitField go p n g =
      let q := if g.declarations.size < (declareFields p n g).declarations.size then
        p.withOwner g.declarations.size else p
      (declarators n).foldl (fun g d => visitSlot go .value (q.inside n) d g)
        (visitExcept go .variableDeclarator q n (declareFields p n g)) := rfl

def FieldBy (p : Place) (n c : Node) (d : Declaration) : Prop :=
  ∃ name id, c.child? .name = some name ∧ p.chain ≠ [] ∧ DeclaredAt p n name id .field d

lemma declareField_spec (p : Place) (n c : Node) (g : Gathered) :
    (declareField p n g c).mentions = g.mentions ∧ ∃ ds : List Declaration,
      (declareField p n g c).declarations.toList = g.declarations.toList ++ ds ∧
      ds.length ≤ 1 ∧ ∀ d ∈ ds, FieldBy p n c d := by
  rw [declareField]
  split
  · exact ⟨rfl, [], by simp⟩
  · next name hname =>
    split
    · next typeId htype _ =>
      refine ⟨rfl, [_], Array.toList_push, Nat.le_refl 1, fun d hd => ?_⟩
      obtain rfl := List.mem_singleton.mp hd
      exact ⟨name, _, hname, chain_ne_nil_of_typeId? htype, rfl, rfl, rfl, rfl, rfl⟩
    · rw [Gathered.bind]
      split <;> exact ⟨rfl, [], by simp⟩

lemma pairwise_of_length_le_one {α : Type} {R : α → α → Prop} {l : List α} (h : l.length ≤ 1) :
    l.Pairwise R := by
  match l, h with
  | [], _ => exact .nil
  | [a], _ => exact List.pairwise_singleton R a

lemma disjoint_fieldBy {a b : Node} {d e : Declaration} (hfa : Fits tidy strict a)
    (hfb : Fits tidy strict b) (hs : strict) (hab : Disjoint a.bytes b.bytes)
    (hd : FieldBy p n a d) (he : FieldBy p n b e) : Disjoint d.nameBytes e.nameBytes := by
  obtain ⟨x, _, hx, -, hdx⟩ := hd
  obtain ⟨y, _, hy, -, hey⟩ := he
  have hxa := hfa.bytes_subset (Node.mem_children_of_child? hx) hs
  have hyb := hfb.bytes_subset (Node.mem_children_of_child? hy) hs
  exact hab.mono (hdx.nameBytes_subset.trans hxa) (hey.nameBytes_subset.trans hyb)

lemma foldl_declareField_spec (hf : Fits tidy strict n) (p : Place) {cs : List Node}
    (hcs : cs.Sublist n.children) (g : Gathered) :
    (cs.foldl (declareField p n) g).mentions = g.mentions ∧ ∃ ds : List Declaration,
      (cs.foldl (declareField p n) g).declarations.toList = g.declarations.toList ++ ds ∧
      (∀ d ∈ ds, ∃ c ∈ cs, FieldBy p n c d) ∧
      (strict → ds.Pairwise fun a b => Disjoint a.nameBytes b.nameBytes) := by
  induction cs generalizing g with
  | nil => exact ⟨rfl, [], by simp⟩
  | cons c cs ih =>
    obtain ⟨hm, ds, hds, hlen, hby⟩ := declareField_spec p n c g
    obtain ⟨hm', ds', hds', hby', hpw⟩ :=
      ih ((List.sublist_cons_self c cs).trans hcs) (declareField p n g c)
    have hall : ∀ d ∈ ds ++ ds', ∃ b ∈ c :: cs, FieldBy p n b d := by
      intro d hd
      rcases List.mem_append.mp hd with hd | hd
      · exact ⟨c, List.mem_cons_self, hby d hd⟩
      · obtain ⟨b, hb, h⟩ := hby' d hd
        exact ⟨b, List.mem_cons_of_mem _ hb, h⟩
    refine ⟨hm'.trans hm, ds ++ ds', ?_, hall, fun hs => ?_⟩
    · rw [List.foldl_cons, hds', hds, List.append_assoc]
    · refine List.pairwise_append.mpr ⟨pairwise_of_length_le_one hlen, hpw hs, fun d hd e he => ?_⟩
      obtain ⟨b, hb, heb⟩ := hby' e he
      have hcb := (hf.grammatical hs).wellFormed.pairwise_disjoint.sublist hcs
      exact disjoint_fieldBy (hf.child (hcs.subset List.mem_cons_self))
        (hf.child (hcs.subset (List.mem_cons_of_mem _ hb))) hs ((List.pairwise_cons.mp hcb).1 b hb)
        (hby d hd) heb

/-- A declaration owns all that stands in its node beside the identifiers. -/
lemma DeclaredAt.gathers_beyondNames {name : Node} {id : String} {kind : ElementKind}
    {d : Declaration} (h : DeclaredAt p n name id kind d) (hf : Fits tidy strict n)
    (hp : Stands tidy p owner n) (hname : n.child? .name = some name)
    (hi : NamedByIdentifier strict n)
    (hid : kind.isType = true → ∀ outer, p.typeId? = some outer → id = outer ++ "." ++ p.text name)
    (hne : kind.isType = false → p.chain ≠ [])
    (hg : Gathers tidy strict p (some ⟨g.declarations.size, d⟩) (regions beyondNames n.named)
      (g.declare d) g') :
    Gathers tidy strict p owner n.bytes g g' := by
  have hm := Node.mem_children_of_child? hname
  refine h.gathers hf hp hm hid hne (fun hs => ⟨?_, beyondNames_within hf hs⟩) hg
  exact disjoint_beyondNames hf hs hm (hi hs name hname)

section

variable {go : Visitor} (hgo : Sound go)
include hgo

lemma visitComponents_gathers (hf : Fits tidy strict n) (hp : Stands tidy p owner n)
    (hne : p.chain ≠ []) (typeId : String) :
    Gathers tidy strict p owner n.bytes g (visitComponents go p typeId n g) := by
  refine (foldl_gathers id (R := Node.bytes) (fun c hc s => ?_)
    (pairwise_regions hf (named_sublist n) fun _ => subset_rfl) g).mono
    (regions_bytes_subset hf (named_sublist n))
  have hm := Node.mem_children_of_mem_named hc
  have hfc := hf.child hm
  dsimp only [id]
  split
  · next name type _ hname htype =>
    have hmn := Node.mem_children_of_child? hname
    have hmt := Node.mem_children_of_child? htype
    have hd : DeclaredAt p c name (typeId ++ "#" ++ p.text name) .field
        { declarationAt p c name (typeId ++ "#" ++ p.text name) .field with
          typeText := some (p.text type) } := ⟨rfl, rfl, rfl, rfl, rfl⟩
    refine hd.gathers (T := type.bytes) hfc (hp.descend (hf.within hm)) hmn (fun h => nomatch h)
      (fun _ => hne) (fun hs => ⟨?_, hfc.bytes_subset hmt hs⟩) ?_
    · exact hfc.disjoint hs hmn hmt (Node.ne_of_child? hname htype (by decide))
    · have hq : Stands tidy (((p.inside n).inside c).withOwner s.declarations.size) _ c :=
        hd.stands rfl hd.inner_eq.symm
      exact hgo _ (hfc.child hmt) (hq.descend (hfc.within hmt))
  · exact .refl

lemma visitType_gathers (hf : Fits tidy strict n) (hp : Stands tidy p owner n)
    (hi : NamedByIdentifier strict n) :
    Gathers tidy strict p owner n.bytes g (visitType go p n g) := by
  rw [visitType]
  split
  · exact visitChildren_gathers hgo hf hp
  · next name hname =>
    dsimp only
    generalize hid : typeIdIn p g.package (p.text name) = id
    have hd : DeclaredAt p n name id (typeKind n.kind)
        { declarationAt p n name id (typeKind n.kind) with
          superTexts := (implicitSuper? n).toList ++ writtenSupers p n } :=
      ⟨rfl, rfl, rfl, rfl, rfl⟩
    refine hd.gathers_beyondNames hf hp hname hi ?_
      (fun h => absurd (typeKind_isType n.kind) (by simp [h])) ?_
    · rintro - outer ho
      rw [← hid, typeIdIn, ho]
    · have hq : Stands tidy { p.inside n with
          chain := p.chain ++ [id], owner := some g.declarations.size } _ n :=
        hd.stands rfl (by rw [hd.inner_eq, typeKind_isType, if_pos rfl])
      refine Gathers.inScope fun g₁ => foldl_gathers (fun g => g) (fun c hc s => ?_)
        (pairwise_regions hf (named_sublist n) beyondNames_subset) g₁
      have hm := Node.mem_children_of_mem_named hc
      have hqc := hq.descend (hf.within hm)
      split
      · exact .refl
      · next hk =>
        rw [beyondNames_eq (by rw [hk]; decide)]
        split
        · exact visitComponents_gathers hgo (hf.child hm) hqc (by simp) id
        · exact hgo s (hf.child hm) hqc
      · next hk _ =>
        rw [beyondNames_eq hk]
        exact hgo s (hf.child hm) hqc

lemma visitMethod_gathers (hf : Fits tidy strict n) (hp : Stands tidy p owner n)
    (hi : NamedByIdentifier strict n) :
    Gathers tidy strict p owner n.bytes g (visitMethod go p n g) := by
  rw [visitMethod]
  split
  · next typeId name htype hname _ =>
    dsimp only
    generalize typeId ++ "#" ++ p.text name ++ "(" ++ joinWith "," (signatureOf p n).1 ++ ")" = id
    generalize hk : (if n.kind == .constructorDeclaration then ElementKind.constructor
      else .method) = kind
    have hkind : kind.isType = false := by
      rw [← hk]
      split <;> rfl
    have hd : DeclaredAt p n name id kind { declarationAt p n name id kind with
        arity := (signatureOf p n).1.length
        varargs := (signatureOf p n).2
        typeText := (n.child? .type).map p.text } := ⟨rfl, rfl, rfl, rfl, rfl⟩
    refine hd.gathers_beyondNames hf hp hname hi (fun h => absurd h (by simp [hkind]))
      (fun _ => chain_ne_nil_of_typeId? htype) ?_
    have hq : Stands tidy (p.withOwner g.declarations.size) _ n :=
      hd.stands rfl (by rw [hd.inner_eq, hkind]; rfl)
    exact (Gathers.inScope fun g₁ => visitExcept_gathers (g := g₁) hgo hf hq .identifier).mono
      fun _ => regions_filter_identifier n
  · have hx : ∀ g, Gathers tidy strict p owner n.bytes g (visitExcept go .identifier p n g) :=
      fun g => (visitExcept_gathers hgo hf hp .identifier).mono
        (regions_bytes_subset hf (filter_named_sublist _ n))
    exact Gathers.inScope hx

lemma visitEnumConstant_gathers (hf : Fits tidy strict n) (hp : Stands tidy p owner n)
    (hi : NamedByIdentifier strict n) :
    Gathers tidy strict p owner n.bytes g (visitEnumConstant go p n g) := by
  rw [visitEnumConstant]
  split
  · next typeId name htype hname =>
    dsimp only
    generalize typeId ++ "#" ++ p.text name = id
    have hd : DeclaredAt p n name id .enumConstant { declarationAt p n name id .enumConstant with
        typeText := some (afterLast '.' typeId) } := ⟨rfl, rfl, rfl, rfl, rfl⟩
    refine hd.gathers_beyondNames hf hp hname hi (fun h => nomatch h)
      (fun _ => chain_ne_nil_of_typeId? htype) ?_
    have hq : Stands tidy (p.withOwner g.declarations.size) _ n :=
      hd.stands rfl hd.inner_eq.symm
    refine foldl_gathers (fun g => g) (fun c hc s => ?_)
      (pairwise_regions hf (named_sublist n) beyondNames_subset) _
    have hm := Node.mem_children_of_mem_named hc
    split
    · exact .refl
    · next hk =>
      rw [beyondNames_eq (by rw [hk]; decide)]
      exact visitAnonymousBody_gathers hgo (hf.child hm) (hq.child hf hm)
    · next hk _ =>
      rw [beyondNames_eq hk]
      exact hgo s (hf.child hm) (hq.child hf hm)
  · exact .refl

lemma fieldParts_gathers (hf : Fits tidy strict n) (hp : Stands tidy p owner n) :
    Gathers tidy strict p owner (fieldParts n) g
      ((declarators n).foldl (fun g d => visitSlot go .value (p.inside n) d g)
        (visitExcept go .variableDeclarator p n g)) := by
  refine (visitExcept_gathers hgo hf hp .variableDeclarator).trans
    (foldl_gathers (fun g => g) (fun c hc s => ?_) (fun hs => ?_) _) fun hs => ?_
  · have hm := mem_children_of_declarators hc
    exact visitSlot_gathers hgo (hf.child hm) (hp.child hf hm) .value
  · refine ((hf.grammatical hs).wellFormed.pairwise_disjoint.sublist
      (declarators_sublist n)).imp_of_mem fun ha hb h => ?_
    have hfa := hf.child (mem_children_of_declarators ha)
    have hfb := hf.child (mem_children_of_declarators hb)
    exact h.mono (slotBytes_subset hfa .value hs) (slotBytes_subset hfb .value hs)
  · refine disjoint_regions fun c hc => ?_
    have hm := mem_children_of_declarators hc
    refine (disjoint_others hf hs hc).symm.mono_right ?_
    exact slotBytes_subset (hf.child hm) .value hs

lemma visitField_gathers (hf : Fits tidy strict n) (hp : Stands tidy p owner n) :
    Gathers tidy strict p owner n.bytes g (visitField go p n g) := by
  rw [visitField_eq]
  obtain ⟨hms, ds, hds, hby, hpw⟩ := foldl_declareField_spec hf p (declarators_sublist n) g
  rw [← declareFields] at hms hds
  cases ds with
  | nil =>
    have hsize : ¬ g.declarations.size < (declareFields p n g).declarations.size := by
      rw [declarations_size_eq hds]
      exact Nat.lt_irrefl _
    rw [if_neg hsize]
    have hd : Gathers tidy strict p owner ∅ g (declareFields p n g) :=
      .of_eq (Array.toList_inj.mp (by simpa using hds)) hms
    refine (hd.trans (fieldParts_gathers hgo hf hp) fun _ => Set.empty_disjoint _).mono fun hs => ?_
    rw [Set.empty_union]
    exact fieldParts_subset hf hs
  | cons d more =>
    have hsize : g.declarations.size < (declareFields p n g).declarations.size := by
      rw [declarations_size_eq hds, List.length_cons]
      omega
    rw [if_pos hsize]
    obtain ⟨_, -, name, id, -, -, hd⟩ := hby d List.mem_cons_self
    refine Gathers.declareAll _ d more hds hms (fun e he => ?_) (fun hs => ⟨hpw hs, ?_, ?_, ?_⟩)
      (fieldParts_gathers hgo hf (hd.stands rfl hd.inner_eq.symm))
    · obtain ⟨c, hc, name', _, hname', hne, he'⟩ := hby e he
      refine ⟨he'.declaredIn hp (fun ht => ?_) (fun h => nomatch h) (fun _ => hne),
        he'.range_eq.trans hd.range_eq.symm⟩
      have hm := mem_children_of_declarators hc
      exact ((hf.child hm).within (Node.mem_children_of_child? hname') ht).trans (hf.within hm ht)
    · intro e he
      obtain ⟨c, hc, name', _, hname', -, he'⟩ := hby e he
      exact (disjoint_fieldParts hf hs hc hname').mono_left he'.nameBytes_subset
    · rw [hd.range_eq]
      exact fieldParts_subset hf hs
    · rw [hd.range_eq]

end

end JavaAtlas.Outline
