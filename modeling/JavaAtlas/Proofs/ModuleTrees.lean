import JavaAtlas.Build.Modules
import JavaAtlas.Proofs.Confinement
import Mathlib.Data.List.Nodup
import Mathlib.Data.List.TakeWhile

/-! The modules below a source tree. They are walked depth first, and a directory that was reached
before is passed over, under whatever path. What is listed is the path that the names of the
descriptors make up, and it leads to the directory that was walked. -/

namespace JavaAtlas

open Text FileTree

namespace Path

/-- The same names from the same start. -/
structure Alike (p q : String) : Prop where
  isAbsolute : isAbsolute p = isAbsolute q
  names : names p = names q

variable {p q t : String}

lemma Alike.join (h : Alike p q) (ht : Path.isAbsolute t = false) :
    Alike (Path.join p t) (Path.join q t) :=
  ⟨by rw [isAbsolute_join ht, isAbsolute_join ht, h.isAbsolute],
    by rw [names_join ht, names_join ht, h.names]⟩

end Path

namespace FileTree

lemma toList_loop (bytes : ByteArray) (i : Nat) (before : List UInt8) :
    ByteArray.toList.loop bytes i before = before.reverse ++ bytes.data.toList.drop i := by
  induction hn : bytes.size - i generalizing i before with
  | zero =>
    have hle : bytes.data.toList.length ≤ i := Nat.le_of_sub_eq_zero hn
    rw [ByteArray.toList.loop, if_neg (show ¬ i < bytes.size from Nat.not_lt.mpr hle),
      List.drop_of_length_le hle, List.append_nil]
  | succ n ih =>
    have hlt : i < bytes.data.toList.length := Nat.lt_of_sub_pos (hn ▸ Nat.succ_pos n)
    have hget : bytes.get! i = bytes.data.toList[i] := getElem!_pos bytes.data i hlt
    rw [ByteArray.toList.loop, if_pos (show i < bytes.size from hlt), ih (i + 1) _ (by omega),
      List.reverse_cons, List.append_assoc, List.drop_eq_getElem_cons hlt, List.singleton_append, hget]

/-- A text is read as it was written. -/
lemma decodeText?_encodeText (s : String) : decodeText? (encodeText s) = some s := by
  have hbytes : (encodeText s).toByteArray = s.toByteArray := by
    refine ByteArray.ext (Array.toList_inj.mp ?_)
    rw [List.toList_data_toByteArray, encodeText, ByteArray.toList, toList_loop]
    rfl
  rw [decodeText?, hbytes, String.fromUTF8?, dif_pos s.isValidUTF8]
  rfl

variable {fs : FileTree} {p q t : String}

/-- The same paths lead on from both, and to the same places. -/
def SameBelow (fs : FileTree) (p q : String) : Prop :=
  ∀ t, t ≠ "" → fs.locate (Path.join p t) = fs.locate (Path.join q t)

namespace SameBelow

variable (h : fs.SameBelow p q) (ht : t ≠ "")

include h ht

lemma status_eq : fs.status (Path.join p t) = fs.status (Path.join q t) := by
  rw [status, status, h t ht]

lemma isFile_eq : fs.isFile (Path.join p t) = fs.isFile (Path.join q t) := by
  rw [isFile, isFile, h.status_eq ht]

lemma isDir_eq : fs.isDir (Path.join p t) = fs.isDir (Path.join q t) := by
  rw [isDir, isDir, h.status_eq ht]

lemma readText_eq : fs.readText (Path.join p t) = fs.readText (Path.join q t) := by
  rw [readText, readText, readBytes, readBytes, h.status_eq ht]

end SameBelow

lemma sameBelow_of_alike (h : Path.Alike p q) : fs.SameBelow p q := by
  intro t ht
  cases habs : Path.isAbsolute t with
  | true => rw [Path.join, Path.join, if_pos habs, if_pos habs]
  | false =>
    have hnames : namesOf (Path.join p t) = namesOf (Path.join q t) := by
      rw [namesOf_join habs ht, namesOf_join habs ht, h.names]
    rw [locate, locate, reach_eq (Path.join_ne_empty ht), reach_eq (Path.join_ne_empty ht), startOf,
      startOf, (h.join habs).isAbsolute, hnames]

lemma exists_locate_of_isDir (h : fs.isDir p = true) : ∃ loc, fs.locate p = .ok loc := by
  rw [isDir, status] at h
  cases hl : fs.locate p with
  | ok loc => exact ⟨loc, rfl⟩
  | error e =>
    rw [hl] at h
    cases h

lemma isDir_congr (h : fs.locate p = fs.locate q) : fs.isDir p = fs.isDir q := by
  rw [isDir, isDir, status, status, h]

/-- A path that leads somewhere leads there also without slashes at its end. -/
lemma locate_of_alike {loc : Location} (h : Path.Alike p q) (hl : fs.locate p = .ok loc)
    (hq : q ≠ "") (hs : q.toList.getLast? ≠ some '/') : fs.locate q = .ok loc := by
  obtain ⟨-, hf⟩ := locate_follow hl
  have hstart : fs.startOf p = fs.startOf q := by rw [startOf, startOf, h.isAbsolute]
  rw [hstart, h.names, ← namesOf_eq hs, ← reach_eq hq] at hf
  rw [locate, hf]

end FileTree

namespace Build

variable {fs : FileTree} {path dir dir' above name place : String} {names known known' : List String}
variable {rows below rest : List (List String)} {depth : Nat}

lemma descriptor?_eq_of_sameBelow (h : fs.SameBelow dir dir') :
    descriptor? fs dir = descriptor? fs dir' := by
  rw [descriptor?, descriptor?, h.readText_eq (by decide)]

lemma listModules_eq_of_sameBelow (h : fs.SameBelow dir dir') :
    listModules fs dir = listModules fs dir' := by
  unfold listModules
  rw [descriptor?_eq_of_sameBelow h]
  cases descriptor? fs dir' with
  | none => rfl
  | some text =>
    refine congrArg List.eraseDups (List.filter_congr fun name _ => ?_)
    by_cases hn : name = ""
    · subst hn
      rfl
    · rw [h.isDir_eq hn]

lemma listModules_congr (h : Path.Alike dir dir') : listModules fs dir = listModules fs dir' :=
  listModules_eq_of_sameBelow (sameBelow_of_alike h)

lemma mem_listModules (h : name ∈ listModules fs dir) :
    name ≠ "" ∧ fs.isDir (Path.join dir name) = true := by
  unfold listModules at h
  split at h
  · cases h
  · simpa using (List.mem_filter.mp (List.mem_eraseDups.mp h)).2

lemma nodup_eraseDups (names : List String) : names.eraseDups.Nodup := by
  induction hn : names.length using Nat.strong_induction_on generalizing names with
  | _ n ih =>
    cases names with
    | nil => exact List.nodup_nil
    | cons name names =>
      rw [List.eraseDups_cons]
      refine List.nodup_cons.mpr ⟨fun hm => ?_, ih _ ?_ _ rfl⟩
      · simpa using (List.mem_filter.mp (List.mem_eraseDups.mp hm)).2
      · have hle := List.length_filter_le (fun b => !b == name) names
        rw [List.length_cons] at hn
        omega

lemma nodup_listModules (fs : FileTree) (dir : String) : (listModules fs dir).Nodup := by
  unfold listModules
  split
  · exact List.nodup_nil
  · exact nodup_eraseDups _

/-- The name without slashes at its end. -/
def ownName (name : String) : String :=
  String.ofList (name.toList.reverse.dropWhile (· == '/')).reverse

lemma names_ownName (name : String) : Path.names (ownName name) = Path.names name := by
  have hslash (t : String) : Path.names (t ++ "/") = Path.names t := by
    have h := Path.names_append_slash t ""
    rwa [String.append_empty, show Path.names "" = [] by decide, List.append_nil] at h
  have hdrop (cs : List Char) : Path.names (String.ofList (cs.dropWhile (· == '/')).reverse) =
      Path.names (String.ofList cs.reverse) := by
    induction cs with
    | nil => rfl
    | cons c cs ih =>
      by_cases hc : c = '/'
      · subst hc
        have happ : String.ofList ('/' :: cs).reverse = String.ofList cs.reverse ++ "/" := by
          rw [List.reverse_cons, String.ofList_append]
        rw [List.dropWhile_cons_of_pos (by decide), ih, happ, hslash]
      · rw [List.dropWhile_cons_of_neg (by simpa using hc)]
  have hall := hdrop name.toList.reverse
  rwa [List.reverse_reverse, String.ofList_toList] at hall

lemma getLast?_ownName (name : String) : (ownName name).toList.getLast? ≠ some '/' := by
  intro hl
  rw [ownName, String.toList_ofList, List.getLast?_reverse] at hl
  have hhead := List.head?_dropWhile_not (· == '/') name.toList.reverse
  rw [hl] at hhead
  cases hhead

lemma ownName_relative (hne : name ≠ "") (habs : Path.isAbsolute name = false) :
    ownName name ≠ "" ∧ Path.isAbsolute (ownName name) = false := by
  obtain ⟨c, cs, hcs⟩ := List.exists_cons_of_ne_nil (l := name.toList) (by simpa using hne)
  have hc : c ≠ '/' := by
    rintro rfl
    simp [Path.isAbsolute, hcs] at habs
  have hdrop : name.toList.reverse.dropWhile (· == '/') ≠ [] := by
    rw [Ne, List.dropWhile_eq_nil_iff]
    intro hall
    exact hc (by simpa using hall c (by simp [hcs]))
  obtain ⟨rest, hrest⟩ := List.reverse_prefix.mpr
    (List.dropWhile_suffix (l := name.toList.reverse) (· == '/'))
  obtain ⟨d, ds, hd⟩ := List.exists_cons_of_ne_nil (List.reverse_ne_nil_iff.mpr hdrop)
  have hown : (ownName name).toList = d :: ds := by rw [ownName, String.toList_ofList, hd]
  rw [List.reverse_reverse, hd, hcs] at hrest
  obtain ⟨rfl, -⟩ := List.cons.inj hrest
  refine ⟨fun he => ?_, ?_⟩
  · rw [he] at hown
    cases hown
  · simpa [Path.isAbsolute, hown] using hc

lemma nodup_children {children : List String}
    (h : children = [] ∨ children = listModules fs dir) : children.Nodup := by
  rcases h with rfl | rfl
  · exact List.nodup_nil
  · exact nodup_listModules fs dir

/-- A path that can be listed: it starts at the tree, and no slash stands at its end. -/
structure IsShown (shown : String) : Prop where
  relative : Path.isAbsolute shown = false
  slash : shown.toList.getLast? ≠ some '/'

lemma nameBelow_eq_join (ha : IsShown above) (hne : name ≠ "")
    (habs : Path.isAbsolute name = false) : nameBelow above name = Path.join above (ownName name) := by
  obtain ⟨-, hrel⟩ := ownName_relative hne habs
  rw [Path.join, if_neg (by simp [hrel])]
  by_cases h : above = ""
  · subst h
    exact String.empty_append.symm
  · rw [if_neg (by simpa [h] using ha.slash), nameBelow, if_neg (by simpa using h)]
    rfl

lemma IsShown.nameBelow (ha : IsShown above) (hne : name ≠ "")
    (habs : Path.isAbsolute name = false) :
    IsShown (nameBelow above name) ∧ nameBelow above name ≠ "" ∧
      Path.names (nameBelow above name) = Path.names above ++ Path.names name := by
  obtain ⟨hown, hrel⟩ := ownName_relative hne habs
  rw [nameBelow_eq_join ha hne habs]
  refine ⟨⟨?_, ?_⟩, Path.join_ne_empty hown, ?_⟩
  · rw [Path.isAbsolute_join hrel, ha.relative]
  · rw [Path.getLast?_join hown]
    exact getLast?_ownName name
  · rw [Path.names_join hrel, names_ownName]

/-- The directory that is walked for a module has the names of the path that is listed for it. -/
lemma alike_child (h : Path.Alike dir (Path.join path above)) (ha : IsShown above) (hne : name ≠ "")
    (habs : Path.isAbsolute name = false) :
    Path.Alike (Path.join dir name) (Path.join path (nameBelow above name)) := by
  obtain ⟨hshown, -, hnames⟩ := ha.nameBelow hne habs
  refine ⟨?_, ?_⟩
  · rw [Path.isAbsolute_join habs, h.isAbsolute, Path.isAbsolute_join ha.relative,
      Path.isAbsolute_join hshown.relative]
  · rw [Path.names_join habs, h.names, Path.names_join ha.relative, Path.names_join hshown.relative,
      hnames, List.append_assoc]

lemma locate_child (h : Path.Alike dir (Path.join path above)) (ha : IsShown above)
    (habs : Path.isAbsolute name = false) (hm : name ∈ listModules fs dir) :
    fs.locate (Path.join path (nameBelow above name)) = fs.locate (Path.join dir name) := by
  obtain ⟨hne, hdir⟩ := mem_listModules hm
  obtain ⟨loc, hloc⟩ := exists_locate_of_isDir hdir
  obtain ⟨hshown, hsne, -⟩ := ha.nameBelow hne habs
  rw [hloc]
  refine locate_of_alike (alike_child h ha hne habs) hloc (Path.join_ne_empty hsne) ?_
  rw [Path.getLast?_join hsne]
  exact hshown.slash

section Walking

/-- The path that is listed for a module, by the names on the way down to it. -/
def shownFrom (above : String) (trail : List String) : String := trail.foldl nameBelow above

/-- One module of a directory: it is passed over, or listed with the modules below it. -/
def enter (fs : FileTree) (depth : Nat) (dir above : String) :
    List String × List String → String → List String × List String :=
  fun (known, found) name =>
    let child := Path.join dir name
    let place := placeOf fs child
    if known.contains place then (known, found)
    else
      let shown := nameBelow above name
      let (known, below) := collect fs depth child shown (place :: known)
      (known, found ++ shown :: below)

lemma collect_succ (fs : FileTree) (depth : Nat) (dir above : String) (known : List String) :
    collect fs (depth + 1) dir above known =
      if !isMultiModule fs dir then (known, [])
      else (listModules fs dir).foldl (enter fs depth dir above) (known, []) := rfl

/-- How the modules below a directory are listed, by their trails of names: from the places that are
known before to those that are known after. The modules of one that is entered are those of its
descriptor, or none where the walk ends. -/
inductive Collects (fs : FileTree) (path : String) :
    String → List String → List String → List (List String) → List String → Prop
  | done {above : String} {known : List String} : Collects fs path above [] known [] known
  | passed {above name : String} {names known known' : List String} {rows : List (List String)} :
      Collects fs path above names known rows known' →
      Collects fs path above (name :: names) known rows known'
  | entered {above name : String} {names children known known₁ known₂ : List String}
      {below rest : List (List String)} :
      placeOf fs (Path.join path (nameBelow above name)) ∉ known →
      fs.isDir (Path.join path (nameBelow above name)) = true →
      (children = [] ∨ children = listModules fs (Path.join path (nameBelow above name))) →
      Collects fs path (nameBelow above name) children
        (placeOf fs (Path.join path (nameBelow above name)) :: known) below known₁ →
      Collects fs path above names known₁ rest known₂ →
      Collects fs path above (name :: names) known ([name] :: below.map (name :: ·) ++ rest) known₂

lemma enter_of_mem {found : List String} (h : placeOf fs (Path.join dir name) ∈ known) :
    enter fs depth dir above (known, found) name = (known, found) := by
  simp [enter, h]

lemma enter_of_not_mem {found listed : List String} (h : placeOf fs (Path.join dir name) ∉ known)
    (hc : collect fs depth (Path.join dir name) (nameBelow above name)
      (placeOf fs (Path.join dir name) :: known) = (known', listed)) :
    enter fs depth dir above (known, found) name =
      (known', found ++ nameBelow above name :: listed) := by
  simp [enter, h, hc]

/-- What a walk of some depth lists below any directory. -/
def Walks (fs : FileTree) (path : String) (depth : Nat) : Prop :=
  ∀ dir above known, Path.Alike dir (Path.join path above) → IsShown above →
    ∃ children rows known', (children = [] ∨ children = listModules fs (Path.join path above)) ∧
      Collects fs path above children known rows known' ∧
      collect fs depth dir above known = (known', rows.map (shownFrom above))

lemma Walks.foldl (hw : Walks fs path depth)
    (hrel : ∀ dir, ∀ name ∈ listModules fs dir, Path.isAbsolute name = false)
    (h : Path.Alike dir (Path.join path above)) (ha : IsShown above) (names : List String)
    (hsub : ∀ name ∈ names, name ∈ listModules fs dir) (known found : List String) :
    ∃ rows known', Collects fs path above names known rows known' ∧
      names.foldl (enter fs depth dir above) (known, found) =
        (known', found ++ rows.map (shownFrom above)) := by
  induction names generalizing known found with
  | nil => exact ⟨[], known, .done, by simp⟩
  | cons name names ih =>
    have hm := hsub name List.mem_cons_self
    obtain ⟨hne, hdir⟩ := mem_listModules hm
    have habs := hrel dir name hm
    have hlocate := locate_child h ha habs hm
    have hplace : placeOf fs (Path.join dir name) =
        placeOf fs (Path.join path (nameBelow above name)) := by
      obtain ⟨loc, hloc⟩ := exists_locate_of_isDir hdir
      rw [placeOf, placeOf, canonicalize, canonicalize, hlocate, hloc]
      rfl
    have hnames (n : String) (hn : n ∈ names) := hsub n (List.mem_cons_of_mem _ hn)
    rw [List.foldl_cons]
    by_cases hk : placeOf fs (Path.join dir name) ∈ known
    · obtain ⟨rows, known', hc, heq⟩ := ih hnames known found
      refine ⟨rows, known', .passed hc, ?_⟩
      rw [enter_of_mem hk, heq]
    · obtain ⟨hshown, -, -⟩ := ha.nameBelow hne habs
      obtain ⟨children, below, known₁, hchildren, hbelow, hcollect⟩ :=
        hw _ _ (placeOf fs (Path.join dir name) :: known) (alike_child h ha hne habs) hshown
      rw [enter_of_not_mem hk hcollect]
      obtain ⟨rest, known₂, hrest, heq⟩ := ih hnames known₁ _
      rw [hplace] at hk hbelow
      refine ⟨_, known₂, .entered hk ((isDir_congr hlocate).trans hdir) hchildren hbelow hrest, ?_⟩
      rw [heq]
      simp [shownFrom]

lemma walks (hrel : ∀ dir, ∀ name ∈ listModules fs dir, Path.isAbsolute name = false)
    (depth : Nat) : Walks fs path depth := by
  induction depth with
  | zero => exact fun dir above known _ _ => ⟨[], [], known, .inl rfl, .done, rfl⟩
  | succ depth ih =>
    intro dir above known h ha
    rw [collect_succ]
    split
    · exact ⟨[], [], known, .inl rfl, .done, rfl⟩
    · obtain ⟨rows, known', hc, heq⟩ := ih.foldl hrel h ha _ (fun _ hm => hm) known []
      exact ⟨_, rows, known', .inr (listModules_congr h), hc, heq⟩

namespace Collects

variable {above : String}

lemma known_eq (h : Collects fs path above names known rows known') :
    known' = (rows.map fun r => placeOf fs (Path.join path (shownFrom above r))).reverse ++ known := by
  induction h with
  | done => rfl
  | passed _ ih => exact ih
  | entered _ _ _ _ _ ihb ihr =>
    rw [ihr, ihb]
    simp [shownFrom, Function.comp_def]

lemma nodup_known (h : Collects fs path above names known rows known') (hk : known.Nodup) :
    known'.Nodup := by
  induction h with
  | done => exact hk
  | passed _ ih => exact ih hk
  | entered hnew _ _ _ _ ihb ihr => exact ihr (ihb (List.nodup_cons.mpr ⟨hnew, hk⟩))

/-- What is listed is in one of three places: the module itself, below it, or after these. -/
lemma mem_entered {r : List String}
    (h : r ∈ [name] :: below.map (name :: ·) ++ rest) :
    r = [name] ∨ (∃ b ∈ below, r = name :: b) ∨ r ∈ rest := by
  rcases List.mem_append.mp h with h | h
  · rcases List.mem_cons.mp h with rfl | h
    · exact .inl rfl
    · obtain ⟨b, hb, rfl⟩ := List.mem_map.mp h
      exact .inr (.inl ⟨b, hb, rfl⟩)
  · exact .inr (.inr h)

lemma isDir (h : Collects fs path above names known rows known') :
    ∀ r ∈ rows, fs.isDir (Path.join path (shownFrom above r)) = true := by
  induction h with
  | done => exact nofun
  | passed _ ih => exact ih
  | entered _ hdir _ _ _ ihb ihr =>
    intro r hr
    obtain rfl | ⟨b, hb, rfl⟩ | hr := mem_entered hr
    · exact hdir
    · exact ihb b hb
    · exact ihr r hr

lemma exists_head (h : Collects fs path above names known rows known') :
    ∀ r ∈ rows, ∃ name ∈ names, ∃ more, r = name :: more := by
  induction h with
  | done => exact nofun
  | passed _ ih =>
    intro r hr
    obtain ⟨name, hn, more⟩ := ih r hr
    exact ⟨name, List.mem_cons_of_mem _ hn, more⟩
  | entered _ _ _ _ _ _ ihr =>
    intro r hr
    obtain rfl | ⟨b, -, rfl⟩ | hr := mem_entered hr
    · exact ⟨_, List.mem_cons_self, [], rfl⟩
    · exact ⟨_, List.mem_cons_self, b, rfl⟩
    · obtain ⟨name, hn, more⟩ := ihr r hr
      exact ⟨name, List.mem_cons_of_mem _ hn, more⟩

/-- The last name of a trail stands in the descriptor of the module that the others lead to. -/
lemma listed (h : Collects fs path above names known rows known') {t : List String} {last : String}
    (hm : t ++ [last] ∈ rows) : (t = [] ∧ last ∈ names) ∨
      (t ≠ [] ∧ last ∈ listModules fs (Path.join path (shownFrom above t))) := by
  induction h generalizing t with
  | done => cases hm
  | passed _ ih => exact (ih hm).imp_left fun ⟨ht, hn⟩ => ⟨ht, List.mem_cons_of_mem _ hn⟩
  | @entered _ name _ _ _ _ _ _ _ _ _ hchildren _ _ ihb ihr =>
    obtain he | ⟨b, hb, he⟩ | hr := mem_entered hm
    · cases t with
      | nil =>
        obtain rfl := List.singleton_inj.mp he
        exact .inl ⟨rfl, List.mem_cons_self⟩
      | cons first t => exact absurd (List.cons.inj he).2 (by simp)
    · cases t with
      | nil =>
        obtain ⟨rfl, -⟩ := List.cons.inj he
        exact .inl ⟨rfl, List.mem_cons_self⟩
      | cons first t =>
        obtain ⟨rfl, rfl⟩ := List.cons.inj he
        right
        refine ⟨List.cons_ne_nil _ _, ?_⟩
        obtain ⟨rfl, hc⟩ | ⟨-, hc⟩ := ihb hb
        · rcases hchildren with rfl | rfl
          · cases hc
          · exact hc
        · exact hc
    · exact (ihr hr).imp_left fun ⟨ht, hn⟩ => ⟨ht, List.mem_cons_of_mem _ hn⟩

lemma nodup_rows (h : Collects fs path above names known rows known') (hn : names.Nodup) :
    rows.Nodup ∧ [] ∉ rows := by
  induction h with
  | done => exact ⟨List.nodup_nil, List.not_mem_nil⟩
  | passed _ ih => exact ih (List.nodup_cons.mp hn).2
  | @entered _ name _ _ _ _ _ below rest _ _ hchildren _ hrest ihb ihr =>
    obtain ⟨hnew, hn⟩ := List.nodup_cons.mp hn
    obtain ⟨hb, hbne⟩ := ihb (nodup_children hchildren)
    obtain ⟨hr, hrne⟩ := ihr hn
    have hapart (b : List String) : name :: b ∉ rest := by
      intro hm
      obtain ⟨other, ho, more, he⟩ := hrest.exists_head _ hm
      obtain ⟨rfl, -⟩ := List.cons.inj he
      exact hnew ho
    refine ⟨List.Nodup.append (List.nodup_cons.mpr ⟨?_, ?_⟩) hr ?_, fun hm => ?_⟩
    · intro hm
      obtain ⟨b, hb, he⟩ := List.mem_map.mp hm
      obtain rfl := (List.cons.inj he).2
      exact hbne hb
    · exact hb.map fun b b' he => (List.cons.inj he).2
    · intro r hr hr'
      rcases List.mem_cons.mp hr with rfl | hr
      · exact hapart [] hr'
      · obtain ⟨b, -, rfl⟩ := List.mem_map.mp hr
        exact hapart b hr'
    · obtain he | ⟨b, -, he⟩ | hr := mem_entered hm
      · cases he
      · cases he
      · exact hrne hr

/-- A module is listed after the one that lists it. -/
lemma after_parent (h : Collects fs path above names known rows known') {t : List String}
    {last : String} (ht : t ≠ []) (hm : t ++ [last] ∈ rows) : [t, t ++ [last]].Sublist rows := by
  induction h generalizing t with
  | done => cases hm
  | passed _ ih => exact ih ht hm
  | @entered _ name _ _ _ _ _ below rest _ _ _ _ _ ihb ihr =>
    obtain ⟨first, t, rfl⟩ := List.exists_cons_of_ne_nil ht
    obtain he | ⟨b, hb, he⟩ | hr := mem_entered hm
    · exact absurd (List.cons.inj he).2 (by simp)
    · obtain ⟨rfl, rfl⟩ := List.cons.inj he
      refine List.Sublist.trans ?_ (List.sublist_append_left _ rest)
      by_cases ht : t = []
      · subst ht
        exact (List.singleton_sublist.mpr (List.mem_map_of_mem hb)).cons_cons _
      · exact ((ihb ht hb).map (first :: ·)).cons _
    · exact (ihr ht hr).trans (List.sublist_append_right _ _)

/-- Where two listed modules can be, one after the other. -/
lemma pair_entered {x y : List String}
    (h : [x, y].Sublist ([name] :: below.map (name :: ·) ++ rest)) :
    (x = [name] ∧ ∃ b ∈ below, y = name :: b) ∨
      (∃ b c, [b, c].Sublist below ∧ x = name :: b ∧ y = name :: c) ∨
      ((∃ b, x = name :: b) ∧ y ∈ rest) ∨ [x, y].Sublist rest := by
  obtain ⟨front, back, hsplit, hfront, hback⟩ := List.sublist_append_iff.mp h
  have hblock (r : List String) (hr : r ∈ [name] :: below.map (name :: ·)) : ∃ b, r = name :: b := by
    rcases List.mem_cons.mp hr with rfl | hr
    · exact ⟨[], rfl⟩
    · obtain ⟨b, -, rfl⟩ := List.mem_map.mp hr
      exact ⟨b, rfl⟩
  obtain ⟨rfl, rfl⟩ | ⟨front, rfl, hmore⟩ := List.cons_eq_append_iff.mp hsplit
  · exact .inr (.inr (.inr hback))
  obtain ⟨rfl, rfl⟩ | ⟨front, rfl, hlast⟩ := List.cons_eq_append_iff.mp hmore
  · have hx := hblock x (hfront.subset List.mem_cons_self)
    exact .inr (.inr (.inl ⟨hx, List.singleton_sublist.mp hback⟩))
  obtain ⟨rfl, rfl⟩ := List.append_eq_nil_iff.mp hlast.symm
  rcases List.sublist_cons_iff.mp hfront with hmap | ⟨_, hcons, hmap⟩
  · obtain ⟨pair, hpair, heq⟩ := List.sublist_map_iff.mp hmap
    obtain ⟨b, more, rfl, rfl, hy⟩ := List.map_eq_cons_iff.mp heq.symm
    obtain ⟨c, none, rfl, rfl, hnone⟩ := List.map_eq_cons_iff.mp hy
    obtain rfl := List.map_eq_nil_iff.mp hnone
    exact .inr (.inl ⟨b, c, hpair, rfl, rfl⟩)
  · obtain ⟨rfl, rfl⟩ := List.cons.inj hcons
    obtain ⟨b, hb, rfl⟩ := List.mem_map.mp (List.singleton_sublist.mp hmap)
    exact .inl ⟨rfl, b, hb, rfl⟩

/-- A module is listed before those that stand beside the one that lists it and come later. -/
lemma before_sibling (h : Collects fs path above names known rows known') (hn : names.Nodup)
    {t other : List String} {last : String} (ht : t ≠ []) (hm : t ++ [last] ∈ rows)
    (ho : other.dropLast = t.dropLast) (hs : [t, other].Sublist rows) :
    [t ++ [last], other].Sublist rows := by
  induction h generalizing t other with
  | done => cases hm
  | passed _ ih => exact ih (List.nodup_cons.mp hn).2 ht hm ho hs
  | @entered above name names children known _ _ below rest _ _ hchildren hbelow hrest ihb ihr =>
    obtain ⟨hne, hn⟩ := List.nodup_cons.mp hn
    have hbne := (hbelow.nodup_rows (nodup_children hchildren)).2
    have hapart (b : List String) : name :: b ∉ rest := by
      intro hr
      obtain ⟨first, ho, more, he⟩ := hrest.exists_head _ hr
      obtain ⟨rfl, -⟩ := List.cons.inj he
      exact hne ho
    have hdown (b : List String) (hb : t = name :: b) : b ++ [last] ∈ below := by
      subst hb
      obtain he | ⟨b', hb', he⟩ | hr := mem_entered hm
      · exact absurd (List.cons.inj he).2 (by simp)
      · obtain rfl := (List.cons.inj he).2
        exact hb'
      · exact absurd hr (hapart _)
    obtain ⟨rfl, b, hb, rfl⟩ | ⟨b, c, hpair, rfl, rfl⟩ | ⟨⟨b, rfl⟩, hr⟩ | hpair := pair_entered hs
    · -- nothing below a module stands beside it
      obtain ⟨c, cs, rfl⟩ := List.exists_cons_of_ne_nil (l := b) fun hnil => hbne (hnil ▸ hb)
      cases ho
    · have hbn : b ≠ [] := fun hnil => hbne (hnil ▸ hpair.subset List.mem_cons_self)
      have hcn : c ≠ [] := fun hnil => hbne (hnil ▸ hpair.subset (by simp))
      rw [List.dropLast_cons_of_ne_nil hbn, List.dropLast_cons_of_ne_nil hcn] at ho
      have hin := ihb (nodup_children hchildren) hbn (hdown b rfl) (List.cons.inj ho).2 hpair
      exact ((hin.map (name :: ·)).cons _).trans (List.sublist_append_left _ rest)
    · have hb := List.mem_map_of_mem (f := (name :: ·)) (hdown b rfl)
      exact (List.singleton_sublist.mpr (List.mem_cons_of_mem _ hb)).append
        (List.singleton_sublist.mpr hr)
    · refine (ihr hn ht ?_ ho hpair).trans (List.sublist_append_right _ _)
      obtain ⟨first, b, rfl⟩ := List.exists_cons_of_ne_nil ht
      obtain he | ⟨b', -, he⟩ | hr := mem_entered hm
      · exact absurd (List.cons.inj he).2 (by simp)
      · obtain ⟨rfl, -⟩ := List.cons.inj he
        exact absurd (hpair.subset List.mem_cons_self) (hapart b)
      · exact hr

end Collects

end Walking

/-- How the modules below a tree are listed, each by the names on the way down to it: every name
stands in the descriptor of the module before it, and a module comes after the one that lists it and
before those that stand beside that one later. -/
structure Expands (fs : FileTree) (path : String) (trails : List (List String)) : Prop where
  nodup : trails.Nodup
  not_root : [] ∉ trails
  top : ∀ name, [name] ∈ trails → name ∈ listModules fs path
  nested : ∀ t name, t ≠ [] → t ++ [name] ∈ trails →
    name ∈ listModules fs (Path.join path (shownFrom "" t))
  after_parent : ∀ t name, t ≠ [] → t ++ [name] ∈ trails → [t, t ++ [name]].Sublist trails
  before_sibling : ∀ t name other, t ≠ [] → t ++ [name] ∈ trails → other.dropLast = t.dropLast →
    [t, other].Sublist trails → [t ++ [name], other].Sublist trails

/-- The modules below a tree are directories, none of them the tree itself and no two of them the
same, and each is listed by the path to it that the descriptors give. -/
theorem moduleTree_expands (hrel : ∀ dir, ∀ name ∈ listModules fs dir, Path.isAbsolute name = false)
    (path : String) : ∃ trails, moduleTree fs path = trails.map (shownFrom "") ∧
      Expands fs path trails ∧
      (∀ x ∈ moduleTree fs path, fs.isDir (Path.join path x) = true ∧
        fs.canonicalize (Path.join path x) = .ok (placeOf fs (Path.join path x))) ∧
      (placeOf fs path :: (moduleTree fs path).map fun x => placeOf fs (Path.join path x)).Nodup := by
  have hempty : Path.isAbsolute "" = false := by decide
  have halike : Path.Alike path (Path.join path "") := by
    refine ⟨(Path.isAbsolute_join hempty).symm, ?_⟩
    rw [Path.names_join hempty, show Path.names "" = [] by decide, List.append_nil]
  obtain ⟨children, trails, known, hchildren, hc, hcollect⟩ :=
    walks hrel maxDepth path "" [placeOf fs path] halike ⟨hempty, by decide⟩
  have htree : moduleTree fs path = trails.map (shownFrom "") := by rw [moduleTree, hcollect]
  have hnodup := nodup_children hchildren
  have hknown := hc.nodup_known (List.nodup_singleton _)
  rw [hc.known_eq] at hknown
  refine ⟨trails, htree, ⟨(hc.nodup_rows hnodup).1, (hc.nodup_rows hnodup).2, fun name hm => ?_,
    fun t name ht hm => ?_, fun t name ht hm => hc.after_parent ht hm,
    fun t name other ht hm ho hs => hc.before_sibling hnodup ht hm ho hs⟩, fun x hx => ?_, ?_⟩
  · obtain ⟨-, hm⟩ | ⟨hne, -⟩ := hc.listed (t := []) hm
    · rcases hchildren with rfl | rfl
      · cases hm
      · rwa [listModules_congr halike]
    · exact absurd rfl hne
  · obtain ⟨rfl, -⟩ | ⟨-, hm⟩ := hc.listed hm
    · exact absurd rfl ht
    · exact hm
  · rw [htree] at hx
    obtain ⟨r, hr, rfl⟩ := List.mem_map.mp hx
    have hdir := hc.isDir r hr
    refine ⟨hdir, ?_⟩
    obtain ⟨loc, hloc⟩ := exists_locate_of_isDir hdir
    rw [placeOf, canonicalize, hloc]
    rfl
  · rw [htree, List.map_map]
    have hperm := List.nodup_append_comm.mp hknown
    rw [List.singleton_append] at hperm
    exact ((List.reverse_perm _).cons _).nodup_iff.mp hperm

/-- A listed module stands in some file of the tree. -/
lemma exists_file_of_mem_listModules (h : name ∈ listModules fs dir) :
    ∃ loc content executable text, (loc, .file content executable) ∈ fs.entries ∧
      decodeText? content = some text ∧ name ∈ allFrom moduleEntry? text.toList := by
  unfold listModules at h
  split at h
  · cases h
  next cs hd =>
  have hm := (List.mem_filter.mp (List.mem_eraseDups.mp h)).1
  obtain ⟨text, hread, rfl⟩ := Option.map_eq_some_iff.mp hd
  rw [readText, readBytes, status] at hread
  cases hl : fs.locate (Path.join dir mavenMarker) with
  | error e =>
    rw [hl] at hread
    cases hread
  | ok loc =>
    have hne : fs.entry? [] = some .dir := rfl
    cases he : fs.entry? loc with
    | none => simp [hl, he, Bind.bind, Except.bind, Except.toOption] at hread
    | some entry =>
      cases entry with
      | dir | link => simp [hl, he, Bind.bind, Except.bind, Except.toOption] at hread
      | file content executable =>
        have hloc : loc ≠ [] := by
          rintro rfl
          rw [hne] at he
          cases he
        refine ⟨loc, content, executable, text, mem_entries hloc he, ?_, hm⟩
        cases ht : decodeText? content with
        | none => simp [hl, he, ht, Bind.bind, Except.bind, Except.toOption] at hread
        | some found => simpa [hl, he, ht, Bind.bind, Except.bind, Except.toOption] using hread

/-- The text of a file that lists these modules. -/
def listing (names : List String) : String :=
  "<modules>" ++ String.join (names.map fun name => "<module>" ++ name ++ "</module>") ++ "</modules>"

/-- A tree whose modules list each other, by points, by a link and by paths that leave a module. -/
def cyclicTree : FileTree where
  entries := [(["t"], .dir), (["t", "a"], .dir), (["t", "b"], .dir), (["t", "b", "c"], .dir),
    (["t", "s"], .link "a"),
    (["t", "pom.xml"], .file (encodeText (listing ["a/", "./a", "s", "b"])) false),
    (["t", "a", "pom.xml"], .file (encodeText (listing ["..", "../b/c"])) false),
    (["t", "b", "pom.xml"], .file (encodeText (listing ["c", "../a"])) false)]
  cwd := []

theorem moduleTree_expands_cyclicTree : moduleTree cyclicTree "/t" = ["a", "a/../b/c", "b"] ∧
    ∃ trails, trails.map (shownFrom "") = ["a", "a/../b/c", "b"] ∧ Expands cyclicTree "/t" trails := by
  have hrel (dir name : String) (hm : name ∈ listModules cyclicTree dir) :
      Path.isAbsolute name = false := by
    obtain ⟨loc, content, executable, text, he, ht, hname⟩ := exists_file_of_mem_listModules hm
    have hentries : ∀ e ∈ cyclicTree.entries, e.2 = .dir ∨ e.2 = .link "a" ∨
        ∃ names ∈ [["a/", "./a", "s", "b"], ["..", "../b/c"], ["c", "../a"]],
          e.2 = .file (encodeText (listing names)) false := by decide +kernel
    rcases hentries _ he with hdir | hlink | ⟨names, hmem, hfile⟩
    · cases hdir
    · cases hlink
    · obtain ⟨rfl, -⟩ := FileEntry.file.inj hfile
      have hall : ∀ names ∈ [["a/", "./a", "s", "b"], ["..", "../b/c"], ["c", "../a"]],
          (allFrom moduleEntry? (listing names).toList).all (!Path.isAbsolute ·) = true := by
        decide +kernel
      rw [decodeText?_encodeText] at ht
      obtain rfl := Option.some.inj ht
      simpa using List.all_eq_true.mp (hall names hmem) name hname
  have htree : moduleTree cyclicTree "/t" = ["a", "a/../b/c", "b"] := by decide +kernel
  obtain ⟨trails, heq, hexpands, -⟩ := moduleTree_expands hrel "/t"
  exact ⟨htree, trails, heq ▸ htree, hexpands⟩

end Build

end JavaAtlas
