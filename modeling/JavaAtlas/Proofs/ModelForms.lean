import JavaAtlas.Classpath.Entry
import JavaAtlas.Error
import JavaAtlas.Match
import JavaAtlas.Project
import Mathlib.Data.List.Nodup
import Mathlib.Data.List.Perm.Basic
import Mathlib.Tactic.Lemma

/-! The written forms of the models. What is written is read again, and of all the spellings in which
a value may come, writing it picks one: fields in another order, unknown fields, options that are left
out, records as arrays and cases as objects are read alike. -/

namespace JavaAtlas

namespace Json

variable {α : Type} {names : List String} {entries entries' : List (String × Json)} {j j' : Json}

/-- Ways to write a record of the named fields that mean the same. -/
inductive Respelled (names : List String) : Json → Json → Prop
  | order {entries entries' : List (String × Json)} : (entries.map Prod.fst).Nodup →
      entries.Perm entries' → Respelled names (.obj entries) (.obj entries')
  | unknown {name : String} {value : Json} {entries : List (String × Json)} :
      name ∉ names → Respelled names (.obj ((name, value) :: entries)) (.obj entries)
  | absent {name : String} {entries : List (String × Json)} : entries.lookup name = none →
      Respelled names (.obj ((name, .null) :: entries)) (.obj entries)
  | array (entries : List (String × Json)) : Respelled names (.obj entries)
      (.arr (names.map fun name => (entries.lookup name).getD .null))

/-- A case of an enumeration, by its name or as the only field of an object. -/
inductive SameCase : Json → Json → Prop
  | object (name : String) : SameCase (.str name) (.obj [(name, .null)])

/-- What is written of a value in range is read again, and what was read is in range, however it was
spelled. -/
structure NormalForm (inRange : α → Prop) (write : α → Json) (read : Json → Option α)
    (same : Json → Json → Prop) : Prop where
  read_write : ∀ v, inRange v → read (write v) = some v
  read_again : ∀ j v, read j = some v → inRange v ∧ read (write v) = some v
  read_alike : ∀ j j', same j j' → read j = read j'

/-! ### Fields -/

lemma lookup_eq_some_iff_mem (hd : (entries.map Prod.fst).Nodup) {name : String} {value : Json} :
    entries.lookup name = some value ↔ (name, value) ∈ entries := by
  induction entries with
  | nil => simp
  | cons e entries ih =>
    obtain ⟨hnot, hd⟩ := List.nodup_cons.mp hd
    rw [List.lookup_cons, List.mem_cons]
    cases he : name == e.1 with
    | true =>
      obtain rfl := beq_iff_eq.mp he
      have hrest : (e.1, value) ∉ entries := fun h => hnot (List.mem_map.mpr ⟨_, h, rfl⟩)
      simp [hrest, Prod.ext_iff, eq_comm]
    | false =>
      have hne : (name, value) ≠ e := fun h => beq_eq_false_iff_ne.mp he (congrArg Prod.fst h)
      simp [ih hd, hne]

lemma lookup_eq_of_perm (hd : (entries.map Prod.fst).Nodup) (hp : entries.Perm entries')
    (name : String) : entries.lookup name = entries'.lookup name := by
  have hd' : (entries'.map Prod.fst).Nodup := (hp.map Prod.fst).nodup_iff.mp hd
  refine Option.ext fun value => ?_
  rw [lookup_eq_some_iff_mem hd, lookup_eq_some_iff_mem hd', hp.mem_iff]

lemma fields?_eq_of_lookup (h : ∀ name ∈ names,
      (entries.lookup name).getD .null = (entries'.lookup name).getD .null) :
    (Json.obj entries).fields? names = (Json.obj entries').fields? names :=
  congrArg some (List.map_congr_left h)

lemma Respelled.fields?_eq (h : Respelled names j j') : j.fields? names = j'.fields? names := by
  cases h with
  | order hd hp => exact fields?_eq_of_lookup fun name _ => by rw [lookup_eq_of_perm hd hp]
  | @unknown name value entries hn =>
    refine fields?_eq_of_lookup fun a ha => ?_
    have hne : (a == name) = false := beq_eq_false_iff_ne.mpr fun h => hn (h ▸ ha)
    rw [List.lookup_cons, hne]
  | @absent name entries hn =>
    refine fields?_eq_of_lookup fun a _ => ?_
    rw [List.lookup_cons]
    cases ha : a == name with
    | true =>
      rw [beq_iff_eq.mp ha, hn]
      rfl
    | false => rfl
  | array entries => rw [fields?, fields?, if_pos (List.length_map _)]

lemma lookup_filter_ne {name key : String} (h : name ≠ key) (entries : List (String × Json)) :
    (entries.filter (·.1 != key)).lookup name = entries.lookup name := by
  induction entries with
  | nil => rfl
  | cons e entries ih =>
    by_cases he : e.1 = key
    · have hne : (name == e.1) = false := beq_eq_false_iff_ne.mpr (he ▸ h)
      rw [List.filter_cons_of_neg (by simpa using he), List.lookup_cons, hne, ih]
    · rw [List.filter_cons_of_pos (by simpa using he), List.lookup_cons, List.lookup_cons, ih]

/-- The fields of a record are found again, as long as their names differ. -/
lemma fields?_written (hd : (entries.map Prod.fst).Nodup) :
    (Json.obj entries).fields? (entries.map Prod.fst) = some (entries.map Prod.snd) := by
  rw [fields?, List.map_map]
  refine congrArg some (List.map_congr_left fun e he => ?_)
  rw [Function.comp_apply, (lookup_eq_some_iff_mem hd).mpr he, Option.getD_some]

/-! ### The parts of a record -/

@[simp] lemma toStr?_str (s : String) : (Json.str s).toStr? = some s := rfl

@[simp] lemma toBool?_bool (b : Bool) : (Json.bool b).toBool? = some b := rfl

lemma toNat?_ofNat {n : ℕ} (h : n < wordLimit) : (ofNat n).toNat? = some n := by
  rw [ofNat, toNat?, if_pos ⟨Int.natCast_nonneg n, Int.ofNat_lt.mpr h⟩, Int.toNat_natCast]

lemma lt_wordLimit_of_toNat? {n : ℕ} (h : j.toNat? = some n) : n < wordLimit := by
  cases j with
  | int k =>
    rw [toNat?] at h
    split at h
    · obtain rfl := Option.some.inj h
      omega
    · cases h
  | null | bool | decimal | str | arr | obj => cases h

variable {write : α → Json} {read : Json → Option α} {P : α → Prop}

lemma toOption?_ofOption {o : Option α} (hread : ∀ a ∈ o, read (write a) = some a)
    (hnull : ∀ a, write a ≠ .null) : (ofOption write o).toOption? read = some o := by
  cases o with
  | none => rfl
  | some a =>
    rw [ofOption, toOption?, hread a rfl]
    · rfl
    · exact hnull a

lemma forall_of_toOption? {o : Option α} (h : j.toOption? read = some o)
    (hread : ∀ j a, read j = some a → P a) : ∀ a ∈ o, P a := by
  rintro a rfl
  unfold toOption? at h
  split at h
  · cases h
  · obtain ⟨b, hb, hba⟩ := Option.map_eq_some_iff.mp h
    obtain rfl := Option.some.inj hba
    exact hread _ _ hb

lemma toList?_ofList {items : List α} (hread : ∀ a ∈ items, read (write a) = some a) :
    (ofList write items).toList? read = some items := by
  rw [ofList, toList?]
  induction items with
  | nil => rfl
  | cons a items ih =>
    rw [List.map_cons, List.mapM_cons, hread a List.mem_cons_self,
      ih fun b hb => hread b (List.mem_cons_of_mem _ hb)]
    rfl

lemma forall_of_toList? {items : List α} (h : j.toList? read = some items)
    (hread : ∀ j a, read j = some a → P a) : ∀ a ∈ items, P a := by
  cases j with
  | arr js =>
    rw [toList?] at h
    induction js generalizing items with
    | nil =>
      obtain rfl := Option.some.inj h
      simp
    | cons j js ih =>
      rw [List.mapM_cons] at h
      obtain ⟨a, ha, h⟩ := Option.bind_eq_some_iff.mp h
      obtain ⟨rest, hrest, h⟩ := Option.bind_eq_some_iff.mp h
      obtain rfl := Option.some.inj h
      exact List.forall_mem_cons.mpr ⟨hread j a ha, ih hrest⟩
  | null | bool | int | decimal | str | obj => cases h

/-! ### Records and enumerations -/

/-- A record has a normal form if it is read through its fields and these have different names. -/
lemma normalForm_record {inRange : α → Prop} {fields : α → List (String × Json)}
    {build : List Json → Option α} (hnames : ∀ v, (fields v).map Prod.fst = names)
    (hd : names.Nodup) (hfields : ∀ j, read j = (j.fields? names).bind build)
    (hbuild : ∀ v, inRange v → build ((fields v).map Prod.snd) = some v)
    (hrange : ∀ values v, build values = some v → inRange v) :
    NormalForm inRange (fun v => .obj (fields v)) read (Respelled names) := by
  have hwrite (v : α) (hv : inRange v) : read (.obj (fields v)) = some v := by
    have hd' : ((fields v).map Prod.fst).Nodup := hnames v ▸ hd
    rw [hfields, ← hnames v, fields?_written hd', Option.bind_some, hbuild v hv]
  have hread (j : Json) (v : α) (h : read j = some v) : inRange v := by
    rw [hfields] at h
    obtain ⟨values, -, h⟩ := Option.bind_eq_some_iff.mp h
    exact hrange values v h
  exact {
    read_write := hwrite
    read_again := fun j v h => ⟨hread j v h, hwrite v (hread j v h)⟩
    read_alike := fun j j' h => by rw [hfields, hfields, h.fields?_eq] }

lemma toCase?_name {cases : List α} {name : α → String} (hd : (cases.map name).Nodup) {v : α}
    (hv : v ∈ cases) : toCase? (cases.map fun v => (name v, v)) (.str (name v)) = some v := by
  rw [toCase?]
  induction cases with
  | nil => cases hv
  | cons a cases ih =>
    obtain ⟨hnot, hd⟩ := List.nodup_cons.mp hd
    rw [List.map_cons, List.lookup_cons]
    rcases List.mem_cons.mp hv with rfl | hv
    · rw [beq_self_eq_true]
    · have hne : (name v == name a) = false :=
        beq_eq_false_iff_ne.mpr fun h => hnot (h ▸ List.mem_map_of_mem hv)
      rw [hne]
      exact ih hd hv

/-- An enumeration has a normal form if its names differ. -/
lemma normalForm_case {cases : List α} {name : α → String} (hd : (cases.map name).Nodup)
    (hall : ∀ v, v ∈ cases) : NormalForm (fun _ => True) (fun v => .str (name v))
      (toCase? (cases.map fun v => (name v, v))) SameCase where
  read_write v _ := toCase?_name hd (hall v)
  read_again _ v _ := ⟨trivial, toCase?_name hd (hall v)⟩
  read_alike j j' h := by
    cases h
    rfl

end Json

open Json

/-! ### Enumerations -/

lemma BuildSystem.normalForm : NormalForm (fun _ => True) toJson ofJson? SameCase :=
  normalForm_case (by decide) fun v => by cases v <;> decide

lemma ElementKind.normalForm : NormalForm (fun _ => True) toJson ofJson? SameCase :=
  normalForm_case (by decide) fun v => by cases v <;> decide

lemma ElementFamily.normalForm : NormalForm (fun _ => True) toJson ofJson? SameCase :=
  normalForm_case (by decide) fun v => by cases v <;> decide

lemma Role.normalForm : NormalForm (fun _ => True) toJson ofJson? SameCase :=
  normalForm_case (by decide) fun v => by cases v <;> decide

lemma Shape.normalForm : NormalForm (fun _ => True) toJson ofJson? SameCase :=
  normalForm_case (by decide) fun v => by cases v <;> decide

lemma Access.normalForm : NormalForm (fun _ => True) toJson ofJson? SameCase :=
  normalForm_case (by decide) fun v => by cases v <;> decide

/-! ### Records -/

namespace SourceRoot

def fieldNames : List String := ["path", "relative", "module"]

lemma normalForm : NormalForm (fun _ => True) toJson ofJson? (Respelled fieldNames) :=
  normalForm_record (fun _ => rfl) (by decide) (fun _ => rfl) (fun _ _ => rfl) fun _ _ _ => trivial

end SourceRoot

namespace RuntimeContainer

def fieldNames : List String := ["id", "home", "version"]

lemma normalForm : NormalForm (fun _ => True) toJson ofJson? (Respelled fieldNames) := by
  refine normalForm_record (fun _ => rfl) (by decide) (fun _ => rfl) ?_ fun _ _ _ => trivial
  rintro ⟨id, home, version⟩ -
  cases home <;> cases version <;> rfl

end RuntimeContainer

namespace UnitRef

def fieldNames : List String := ["path"]

lemma normalForm : NormalForm (fun _ => True) toJson ofJson? (Respelled fieldNames) :=
  normalForm_record (fun _ => rfl) (by decide) (fun _ => rfl) (fun _ _ => rfl) fun _ _ _ => trivial

end UnitRef

namespace ErrorPayload

def fieldNames : List String := ["code", "message"]

lemma normalForm : NormalForm (fun _ => True) toJson ofJson? (Respelled fieldNames) :=
  normalForm_record (fun _ => rfl) (by decide) (fun _ => rfl) (fun _ _ => rfl) fun _ _ _ => trivial

end ErrorPayload

namespace ProjectSummary

def fieldNames : List String :=
  ["build_system", "source_file_count", "packages", "classpath_entry_count"]

structure InRange (s : ProjectSummary) : Prop where
  sourceFileCount : s.sourceFileCount < wordLimit
  classpathEntryCount : s.classpathEntryCount < wordLimit

lemma normalForm : NormalForm InRange toJson ofJson? (Respelled fieldNames) := by
  refine normalForm_record (fun _ => rfl) (by decide) (fun _ => rfl) ?_ ?_
  · intro s hs
    have hpackages : (Json.ofList .str s.packages).toList? toStr? = some s.packages :=
      toList?_ofList fun _ _ => rfl
    simp [toNat?_ofNat hs.sourceFileCount, toNat?_ofNat hs.classpathEntryCount, hpackages,
      BuildSystem.normalForm.read_write]
  · intro values s h
    split at h
    · simp only [Option.bind_eq_bind, Option.bind_eq_some_iff, Option.pure_def,
        Option.some.injEq] at h
      obtain ⟨_, -, _, hfiles, _, -, _, hentries, rfl⟩ := h
      exact ⟨lt_wordLimit_of_toNat? hfiles, lt_wordLimit_of_toNat? hentries⟩
    · cases h

end ProjectSummary

namespace ProjectStatus

def fieldNames : List String :=
  ["root", "project_name", "build_system", "source_file_count", "packages", "classpath_entry_count",
   "loaded_at_ms", "classpath_degraded", "session_token", "workspace"]

structure InRange (s : ProjectStatus) : Prop where
  sourceFileCount : s.sourceFileCount < wordLimit
  classpathEntryCount : s.classpathEntryCount < wordLimit
  loadedAt : s.loadedAt < wordLimit

lemma normalForm : NormalForm InRange toJson ofJson? (Respelled fieldNames) := by
  refine normalForm_record (fun _ => rfl) (by decide) (fun _ => rfl) ?_ ?_
  · intro s hs
    have hpackages : (Json.ofList .str s.packages).toList? toStr? = some s.packages :=
      toList?_ofList fun _ _ => rfl
    simp [toNat?_ofNat hs.sourceFileCount, toNat?_ofNat hs.classpathEntryCount,
      toNat?_ofNat hs.loadedAt, hpackages, BuildSystem.normalForm.read_write]
  · intro values s h
    split at h
    · simp only [Option.bind_eq_bind, Option.bind_eq_some_iff, Option.pure_def,
        Option.some.injEq] at h
      obtain ⟨_, -, _, -, _, -, _, hfiles, _, -, _, hentries, _, hloaded, _, -, _, -, _, -, rfl⟩ := h
      exact ⟨lt_wordLimit_of_toNat? hfiles, lt_wordLimit_of_toNat? hentries,
        lt_wordLimit_of_toNat? hloaded⟩
    · cases h

end ProjectStatus

namespace SearchMatch

def fieldNames : List String :=
  ["name", "element_id", "element_kind", "kind", "path", "offset", "length", "line", "column",
   "accurate"]

structure InRange (m : SearchMatch) : Prop where
  offset : m.offset < wordLimit
  length : m.length < wordLimit
  line : m.line < wordLimit
  column : m.column < wordLimit

lemma normalForm : NormalForm InRange toJson ofJson? (Respelled fieldNames) := by
  refine normalForm_record (fun _ => rfl) (by decide) (fun _ => rfl) ?_ ?_
  · intro m hm
    simp [toNat?_ofNat hm.offset, toNat?_ofNat hm.length, toNat?_ofNat hm.line,
      toNat?_ofNat hm.column, ElementKind.normalForm.read_write, Role.normalForm.read_write]
  · intro values m h
    split at h
    · simp only [Option.bind_eq_bind, Option.bind_eq_some_iff, Option.pure_def,
        Option.some.injEq] at h
      obtain ⟨_, -, _, -, _, -, _, -, _, -, _, hoffset, _, hlength, _, hline, _, hcolumn, _, -,
        rfl⟩ := h
      exact ⟨lt_wordLimit_of_toNat? hoffset, lt_wordLimit_of_toNat? hlength,
        lt_wordLimit_of_toNat? hline, lt_wordLimit_of_toNat? hcolumn⟩
    · cases h

end SearchMatch

namespace Element

def fieldNames : List String :=
  ["id", "name", "kind", "declaring_type", "unit", "name_offset", "name_length", "binary"]

structure InRange (e : Element) : Prop where
  nameOffset : ∀ n ∈ e.nameOffset, n < wordLimit
  nameLength : e.nameLength < wordLimit

lemma normalForm : NormalForm InRange toJson ofJson? (Respelled fieldNames) := by
  refine normalForm_record (fun _ => rfl) (by decide) (fun _ => rfl) ?_ ?_
  · intro e he
    have howner : (Json.ofOption .str e.declaringType).toOption? toStr? = some e.declaringType :=
      toOption?_ofOption (fun _ _ => rfl) (by simp)
    have hunit : (Json.ofOption UnitRef.toJson e.unit).toOption? UnitRef.ofJson? = some e.unit :=
      toOption?_ofOption (fun u _ => UnitRef.normalForm.read_write u trivial) (by simp [UnitRef.toJson])
    have hoffset : (Json.ofOption Json.ofNat e.nameOffset).toOption? toNat? = some e.nameOffset :=
      toOption?_ofOption (fun n hn => toNat?_ofNat (he.nameOffset n hn)) (by simp [Json.ofNat])
    simp [howner, hunit, hoffset, toNat?_ofNat he.nameLength, ElementKind.normalForm.read_write]
  · intro values e h
    split at h
    · simp only [Option.bind_eq_bind, Option.bind_eq_some_iff, Option.pure_def,
        Option.some.injEq] at h
      obtain ⟨_, -, _, -, _, -, _, -, _, -, _, hoffset, _, hlength, _, -, rfl⟩ := h
      exact ⟨forall_of_toOption? hoffset fun _ _ => lt_wordLimit_of_toNat?,
        lt_wordLimit_of_toNat? hlength⟩
    · cases h

end Element

namespace TypeHierarchy

def fieldNames : List String := ["focus", "supertypes", "subtypes"]

structure InRange (h : TypeHierarchy) : Prop where
  focus : h.focus.InRange
  supertypes : ∀ e ∈ h.supertypes, e.InRange
  subtypes : ∀ e ∈ h.subtypes, e.InRange

lemma normalForm : NormalForm InRange toJson ofJson? (Respelled fieldNames) := by
  have hlist {es : List Element} (hes : ∀ e ∈ es, e.InRange) :
      (Json.ofList Element.toJson es).toList? Element.ofJson? = some es :=
    toList?_ofList fun e he => Element.normalForm.read_write e (hes e he)
  have hrange (j : Json) (e : Element) (h : Element.ofJson? j = some e) : e.InRange :=
    (Element.normalForm.read_again j e h).1
  refine normalForm_record (fun _ => rfl) (by decide) (fun _ => rfl) ?_ ?_
  · intro h hh
    simp [Element.normalForm.read_write _ hh.focus, hlist hh.supertypes, hlist hh.subtypes]
  · intro values v h
    split at h
    · simp only [Option.bind_eq_bind, Option.bind_eq_some_iff, Option.pure_def,
        Option.some.injEq] at h
      obtain ⟨_, hfocus, _, hsupers, _, hsubs, rfl⟩ := h
      exact ⟨hrange _ _ hfocus, forall_of_toList? hsupers hrange, forall_of_toList? hsubs hrange⟩
    · cases h

end TypeHierarchy

/-! ### Entries of a class path -/

namespace ClasspathEntry

/-- What an entry of that kind holds. -/
def fieldNames : String → List String
  | "container" => RuntimeContainer.fieldNames
  | "source" => SourceRoot.fieldNames
  | "library" => ["path"]
  | _ => []

/-- The kind of an entry in front of what it holds. -/
def tagged (kind : String) : Json → Json
  | .obj fields => .obj (("kind", .str kind) :: fields)
  | .arr items => .arr (.str kind :: items)
  | body => body

/-- Ways to write an entry that mean the same. -/
inductive Respelled : Json → Json → Prop
  | order {entries entries' : List (String × Json)} : (entries.map Prod.fst).Nodup →
      entries.Perm entries' → Respelled (.obj entries) (.obj entries')
  | body {kind : String} {body body' : Json} : Json.Respelled (fieldNames kind) body body' →
      Respelled (tagged kind body) (tagged kind body')

variable {kind : String} {body body' : Json}

lemma kind_not_mem_fieldNames (kind : String) : "kind" ∉ fieldNames kind := by
  unfold fieldNames
  split <;> decide

lemma ofTagged?_congr (h : body.fields? (fieldNames kind) = body'.fields? (fieldNames kind)) :
    ofTagged? kind body = ofTagged? kind body' := by
  unfold ofTagged?
  split
  · have hread : RuntimeContainer.ofJson? body = RuntimeContainer.ofJson? body' :=
      congrArg (fun o => Option.bind o _) h
    rw [hread]
  · have hread : SourceRoot.ofJson? body = SourceRoot.ofJson? body' :=
      congrArg (fun o => Option.bind o _) h
    rw [hread]
  · exact congrArg (fun o => Option.bind o _) h
  · rfl

/-- The kind does not get in the way of the fields, because no field is called so. -/
lemma ofJson?_tagged (kind : String) (fields : List (String × Json)) :
    ofJson? (tagged kind (.obj fields)) = ofTagged? kind (.obj fields) := by
  have hfilter : (("kind", Json.str kind) :: fields).filter (·.1 != "kind") =
      fields.filter (·.1 != "kind") := List.filter_cons_of_neg (by simp)
  have hfields : (Json.obj (fields.filter (·.1 != "kind"))).fields? (fieldNames kind) =
      (Json.obj fields).fields? (fieldNames kind) := by
    refine fields?_eq_of_lookup fun name hn => ?_
    have hne : name ≠ "kind" := ne_of_mem_of_not_mem hn (kind_not_mem_fieldNames kind)
    rw [lookup_filter_ne hne]
  calc ofJson? (tagged kind (.obj fields))
      = ofTagged? kind (.obj ((("kind", Json.str kind) :: fields).filter (·.1 != "kind"))) := rfl
    _ = ofTagged? kind (.obj (fields.filter (·.1 != "kind"))) := by rw [hfilter]
    _ = ofTagged? kind (.obj fields) := ofTagged?_congr hfields

lemma ofJson?_tagged_congr (h : Json.Respelled (fieldNames kind) body body') :
    ofJson? (tagged kind body) = ofJson? (tagged kind body') := by
  have heq : ofTagged? kind body = ofTagged? kind body' := ofTagged?_congr h.fields?_eq
  cases h with
  | order | unknown | absent => rwa [ofJson?_tagged, ofJson?_tagged]
  | array => rwa [ofJson?_tagged]

lemma ofJson?_perm {entries entries' : List (String × Json)} (hd : (entries.map Prod.fst).Nodup)
    (hp : entries.Perm entries') : ofJson? (.obj entries) = ofJson? (.obj entries') := by
  have hsub : ((entries.filter (·.1 != "kind")).map Prod.fst).Nodup :=
    hd.sublist (List.filter_sublist.map _)
  have hbody (kind : String) : ofTagged? kind (.obj (entries.filter (·.1 != "kind"))) =
      ofTagged? kind (.obj (entries'.filter (·.1 != "kind"))) :=
    ofTagged?_congr (Json.Respelled.order hsub (hp.filter _)).fields?_eq
  simp only [ofJson?, lookup_eq_of_perm hd hp, hbody]

lemma ofJson?_toJson (e : ClasspathEntry) : ofJson? e.toJson = some e := by
  cases e with
  | container c =>
    have hread : RuntimeContainer.ofJson? c.toJson = some c :=
      RuntimeContainer.normalForm.read_write c trivial
    calc ofJson? (container c).toJson
        = ofTagged? "container" c.toJson := ofJson?_tagged "container" c.toFields
      _ = (RuntimeContainer.ofJson? c.toJson).map container := rfl
      _ = some (container c) := by rw [hread, Option.map_some]
  | source r =>
    have hread : SourceRoot.ofJson? r.toJson = some r := SourceRoot.normalForm.read_write r trivial
    calc ofJson? (source r).toJson
        = ofTagged? "source" r.toJson := ofJson?_tagged "source" r.toFields
      _ = (SourceRoot.ofJson? r.toJson).map source := rfl
      _ = some (source r) := by rw [hread, Option.map_some]
  | library path => exact ofJson?_tagged "library" [("path", .str path)]

lemma normalForm : NormalForm (fun _ => True) toJson ofJson? Respelled where
  read_write e _ := ofJson?_toJson e
  read_again _ e _ := ⟨trivial, ofJson?_toJson e⟩
  read_alike j j' h := by
    cases h with
    | order hd hp => exact ofJson?_perm hd hp
    | body h => exact ofJson?_tagged_congr h

end ClasspathEntry

/-- Every model is read again from what is written of it, as long as its numbers are words, and what
was read in whatever spelling is written in the one form that reads as the same value. -/
theorem models_normalForm :
    NormalForm (fun _ => True) SourceRoot.toJson SourceRoot.ofJson?
        (Json.Respelled SourceRoot.fieldNames) ∧
      NormalForm (fun _ => True) RuntimeContainer.toJson RuntimeContainer.ofJson?
        (Json.Respelled RuntimeContainer.fieldNames) ∧
      NormalForm (fun _ => True) ClasspathEntry.toJson ClasspathEntry.ofJson?
        ClasspathEntry.Respelled ∧
      NormalForm (fun _ => True) BuildSystem.toJson BuildSystem.ofJson? SameCase ∧
      NormalForm ProjectSummary.InRange ProjectSummary.toJson ProjectSummary.ofJson?
        (Json.Respelled ProjectSummary.fieldNames) ∧
      NormalForm ProjectStatus.InRange ProjectStatus.toJson ProjectStatus.ofJson?
        (Json.Respelled ProjectStatus.fieldNames) ∧
      NormalForm (fun _ => True) Role.toJson Role.ofJson? SameCase ∧
      NormalForm (fun _ => True) Access.toJson Access.ofJson? SameCase ∧
      NormalForm (fun _ => True) Shape.toJson Shape.ofJson? SameCase ∧
      NormalForm SearchMatch.InRange SearchMatch.toJson SearchMatch.ofJson?
        (Json.Respelled SearchMatch.fieldNames) ∧
      NormalForm (fun _ => True) ElementKind.toJson ElementKind.ofJson? SameCase ∧
      NormalForm (fun _ => True) ElementFamily.toJson ElementFamily.ofJson? SameCase ∧
      NormalForm (fun _ => True) UnitRef.toJson UnitRef.ofJson?
        (Json.Respelled UnitRef.fieldNames) ∧
      NormalForm Element.InRange Element.toJson Element.ofJson?
        (Json.Respelled Element.fieldNames) ∧
      NormalForm TypeHierarchy.InRange TypeHierarchy.toJson TypeHierarchy.ofJson?
        (Json.Respelled TypeHierarchy.fieldNames) ∧
      NormalForm (fun _ => True) ErrorPayload.toJson ErrorPayload.ofJson?
        (Json.Respelled ErrorPayload.fieldNames) :=
  ⟨SourceRoot.normalForm, RuntimeContainer.normalForm, ClasspathEntry.normalForm,
    BuildSystem.normalForm, ProjectSummary.normalForm, ProjectStatus.normalForm, Role.normalForm,
    Access.normalForm, Shape.normalForm, SearchMatch.normalForm, ElementKind.normalForm,
    ElementFamily.normalForm, UnitRef.normalForm, Element.normalForm, TypeHierarchy.normalForm,
    ErrorPayload.normalForm⟩

end JavaAtlas
