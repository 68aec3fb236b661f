import JavaAtlas.Proofs.ProjectReading
import JavaAtlas.Proofs.ProjectRegister

/-! The life of a service: what its answers depend on after any calls. A load that succeeds counts
until the next one that does, and a load that fails counts for nothing, as long as no path leads
into the directory of the session, where the projects before have left their traces. -/

namespace JavaAtlas

open Text FileTree

namespace FileTree

/-- Something that does not depend on the directory `home`: it is the same for all files that are the
same outside of it. -/
def Blind {α : Type} (before : FileTree) (home : Location) (f : FileTree → α) : Prop :=
  ∀ files, files.WellFormed → SameOutside home before files → f files = f before

end FileTree

/-- The path that a question is about. -/
def Question.path? : Question → Option String
  | .offset path _ _ | .line path _ | .column path _ | .elementAt path _ _ => some path
  | .status | .symbols .. | .shape .. | .references .. | .implementations .. | .hierarchy _
  | .supertypes _ | .subtypes _ | .element _ => none

namespace Engine

/-- The names in the register. -/
def names (engine : Engine) : List String := engine.projects.map (·.name)

lemma names_delete (engine : Engine) (name : String) :
    (engine.delete name).names = engine.names.filter (· != name) := by
  rw [names, delete, names, List.filter_map]
  rfl

end Engine

namespace Service

/-- The load that a call is, if it succeeds. -/
def success? (s : Service) : Call → Option (String × Nat)
  | .load path now => if (s.load path now).1.isOk then some (path, now) else none
  | .ask _ | .shutdown => none

/-- The loads of a run that succeed. -/
def successes (s : Service) : List Call → List (String × Nat)
  | [] => []
  | call :: rest => (s.success? call).toList ++ (s.after call).successes rest

/-- The tree at a path can be loaded without looking into the directory `home`: where the path leads,
what is found of the tree, and all that can be read in its source directories. -/
structure KeepsOut (before : FileTree) (home : Location) (asm : Classpath.Assembler)
    (path : String) : Prop where
  status : before.Blind home (·.status path)
  root : before.Blind home (·.normalize path)
  assembly : before.Blind home fun files => (asm.assemble files (before.normalize path)).1
  sources : ∃ V, before.Secluded home V ∧ ∀ root,
    .source root ∈ (asm.assemble before (before.normalize path)).1.entries →
      before.Clear home V root.path

/-- A question whose path does not lead into the directory `home`. -/
def AsksOutside (before : FileTree) (home : Location) (s : Service) (question : Question) : Prop :=
  ∀ path ∈ question.path?, ∀ project, s.current = some project →
    before.Blind home (·.normalize (Path.join project.query.paths.treeRoot path))

variable {before : FileTree} {home : Location} {s t s' : Service} {path : String} {now : Nat}
variable {question : Question} {calls : List Call}

lemma answer_of_none (h : s.current = none) (question : Question) :
    s.answer question = .error .notLoaded := by
  have hl : s.loaded = .error .notLoaded := by rw [loaded, h]
  cases question <;>
    simp only [answer, status, searchSymbols, findByShape, findReferences, findImplementations,
      typeHierarchy, allSupertypes, allSubtypes, element, offsetFor, lineFor, columnFor, elementAt,
      hl] <;> rfl

/-- An outcome of a question about a project, which is not that there is none. -/
def Informed {α : Type} (x : Except ServiceError α) : Prop := x ≠ .error .notLoaded

lemma Informed.bind {α β : Type} {x : Except ServiceError α} {f : α → Except ServiceError β}
    (hx : Informed x) (hf : ∀ a, Informed (f a)) : Informed (x >>= f) := by
  cases x with
  | error e => exact fun h => hx (congrArg _ (Except.error.inj h))
  | ok a => exact hf a

lemma Informed.map {α β : Type} {x : Except ServiceError α} (hx : Informed x) (f : α → β) :
    Informed (x.map f) := by
  cases x with
  | error e => exact fun h => hx (congrArg _ (Except.error.inj h))
  | ok a => exact nofun

lemma informed_nonBlank (what text : String) : Informed (nonBlank what text) := by
  rw [nonBlank]
  split <;> exact nofun

lemma informed_positive (most : Nat) : Informed (positive most) := by
  rw [positive]
  split <;> exact nofun

lemma informed_elementOf (project : LoadedProject) (id : String) : Informed (elementOf project id) := by
  rw [elementOf]
  split <;> exact nofun

lemma informed_typeOf (project : LoadedProject) (id : String) : Informed (typeOf project id) := by
  rw [typeOf]
  refine (informed_elementOf project id).bind fun e => ?_
  split <;> exact nofun

lemma informed_unitOf (s : Service) (project : LoadedProject) (path : String) :
    Informed (s.unitOf project path) := by
  rw [unitOf]
  split <;> exact nofun

lemma informed_pure {α : Type} (a : α) : Informed (pure a) := nofun

/-- Whatever a question about a loaded project fails by, it is not that none is loaded. -/
lemma answer_of_some {project : LoadedProject} (h : s.current = some project) (question : Question) :
    Informed (s.answer question) := by
  have hl : Informed s.loaded := by
    rw [loaded, h]
    exact nofun
  have hshape (id : String) (shape : Shape) (most : Nat) : Informed (s.findByShape id shape most) := by
    rw [findByShape]
    exact hl.bind fun _ => (informed_nonBlank _ _).bind fun _ => (informed_positive _).bind
      fun _ => (informed_elementOf _ _).bind fun _ => informed_pure _
  cases question with
  | status =>
    rw [answer, status]
    exact (hl.bind fun _ => informed_pure _).map _
  | symbols pattern family most =>
    rw [answer, searchSymbols]
    exact (hl.bind fun _ => (informed_nonBlank _ _).bind fun _ => (informed_positive _).bind
      fun _ => informed_pure _).map _
  | shape id shape most => exact (hshape id shape most).map _
  | references id access most => exact (hshape id access.shape most).map _
  | implementations id most =>
    rw [answer, findImplementations]
    exact (hl.bind fun _ => (informed_nonBlank _ _).bind fun _ => (informed_positive _).bind
      fun _ => (informed_elementOf _ _).bind fun _ => informed_pure _).map _
  | hierarchy id =>
    rw [answer, typeHierarchy]
    exact (hl.bind fun _ => (informed_nonBlank _ _).bind fun _ => (informed_typeOf _ _).bind
      fun _ => informed_pure _).map _
  | supertypes id =>
    rw [answer, allSupertypes]
    exact (hl.bind fun _ => (informed_nonBlank _ _).bind fun _ => (informed_typeOf _ _).bind
      fun _ => informed_pure _).map _
  | subtypes id =>
    rw [answer, allSubtypes]
    exact (hl.bind fun _ => (informed_nonBlank _ _).bind fun _ => (informed_typeOf _ _).bind
      fun _ => informed_pure _).map _
  | element id =>
    rw [answer, element]
    exact (hl.bind fun _ => (informed_nonBlank _ _).bind fun _ => informed_elementOf _ _).map _
  | offset path line column =>
    rw [answer, offsetFor]
    exact (hl.bind fun _ => (informed_unitOf _ _ _).bind fun _ => informed_pure _).map _
  | line path offset =>
    rw [answer, lineFor]
    exact (hl.bind fun _ => (informed_unitOf _ _ _).bind fun _ => informed_pure _).map _
  | column path offset =>
    rw [answer, columnFor]
    exact (hl.bind fun _ => (informed_unitOf _ _ _).bind fun _ => informed_pure _).map _
  | elementAt path line column =>
    rw [answer, elementAt]
    exact (hl.bind fun _ => (informed_unitOf _ _ _).bind fun _ => informed_pure _).map _

lemma answer_notLoaded_iff (s : Service) (question : Question) :
    s.answer question = .error .notLoaded ↔ s.current = none := by
  cases hc : s.current with
  | none => exact iff_of_true (answer_of_none hc question) rfl
  | some project => exact iff_of_false (answer_of_some hc question) nofun

/-- Answers are made from the loaded project, the session, and where the path in question leads. -/
lemma answer_congr (hc : t.current = s.current) (hs : t.workspace.session = s.workspace.session)
    (hn : ∀ path ∈ question.path?, ∀ project, s.current = some project →
      t.workspace.files.normalize (Path.join project.query.paths.treeRoot path) =
        s.workspace.files.normalize (Path.join project.query.paths.treeRoot path)) :
    t.answer question = s.answer question := by
  cases hcur : s.current with
  | none => rw [answer_of_none hcur, answer_of_none (hc.trans hcur)]
  | some project =>
    have hl : s.loaded = .ok project := by rw [loaded, hcur]
    have hl' : t.loaded = .ok project := by rw [loaded, hc, hcur]
    have hunit (path : String) (hp : path ∈ question.path?) :
        t.unitOf project path = s.unitOf project path := by
      rw [unitOf, unitOf, Query.unit?, Query.unit?, PathMap.toWorkspace?, PathMap.toWorkspace?,
        hn path hp project hcur]
    cases question with
    | status => simp only [answer, status, hl, hl', hs]
    | symbols | shape | references | implementations | hierarchy | supertypes | subtypes | element =>
      simp only [answer, searchSymbols, findReferences, findByShape, findImplementations,
        typeHierarchy, allSupertypes, allSubtypes, element, hl, hl']
    | offset path | line path | column path | elementAt path =>
      simp only [answer, offsetFor, lineFor, columnFor, elementAt, hl, hl', Bind.bind, Except.bind,
        hunit path rfl]

/-- A directory can be loaded until the session ends. -/
lemma checkLoad_of_isDir (h : s.workspace.files.isDir path = true) : s.checkLoad path =
    if s.workspace.session.tornDown then .error (.internal "session workspace already torn down")
    else .ok () := by
  have hexists : s.workspace.files.pathExists path = true := by
    rw [isDir] at h
    rw [pathExists, eq_of_beq h]
    rfl
  simp only [checkLoad, h, hexists, Bool.not_true, Bool.false_eq_true, if_false]
  rfl

lemma isDir_of_checkLoad (h : s.checkLoad path = .ok ()) : s.workspace.files.isDir path = true := by
  cases hd : s.workspace.files.isDir path with
  | true => rfl
  | false =>
    simp only [checkLoad, hd, Bool.not_false, if_true] at h
    split at h <;> cases h

lemma tornDown_of_checkLoad (h : s.checkLoad path = .ok ()) :
    s.workspace.session.tornDown = false := by
  have hd := checkLoad_of_isDir (isDir_of_checkLoad h)
  rw [h] at hd
  by_contra ht
  rw [if_pos (by simpa using ht)] at hd
  cases hd

/-- What holds of a service at all times. -/
structure Sound (before : FileTree) (home : Location) (s : Service) : Prop where
  kept : s.Kept before home
  mode : s.workspace.mode = .link
  engine : s.workspace.engine.workspace = s.workspace.session.path
  tidy : Workspace.Tidy home s.workspace.files
  registered : s.workspace.engine.names = [] ∨
    s.workspace.engine.names = (s.current.map (·.bound.name)).toList
  ended : s.workspace.session.tornDown = true → s.current = none

lemma Sound.start {session : Session} {files : FileTree} (hk : session.Kept files home files)
    (hempty : ∀ name, files.entry? (home ++ [name]) = none) (config : ServiceConfig)
    {launch : Launcher} (htools : Classpath.WritesListOnly launch) (container : RuntimeContainer) :
    (ofSession config launch container files session).Sound files home :=
  ⟨⟨hk, nofun, htools⟩, rfl, rfl, .inl (hempty "projects"), .inl rfl, fun _ => rfl⟩

lemma tidy_of_spares {files files' : FileTree} (h : Workspace.Tidy home files)
    (hs : Classpath.Spares home files files') : Workspace.Tidy home files' := by
  rcases hs.entry? (home ++ ["projects"]) with he | ⟨-, -, he⟩
  · exact h.congr (.inl he)
  · exact .inl he

/-- The project that is new stays the only one in the register. -/
lemma names_replaceCurrent (project : LoadedProject) {names : List String}
    (h : names = [] ∨ names = (s.current.map (·.bound.name)).toList)
    (hn : s.workspace.engine.names =
      names.filter (· != project.bound.name) ++ [project.bound.name]) :
    (s.replaceCurrent project).workspace.engine.names = [project.bound.name] := by
  rw [replaceCurrent]
  cases hc : s.current with
  | none =>
    obtain rfl : names = [] := by simpa [hc] using h
    exact hn
  | some previous =>
    rw [hc] at h
    dsimp only
    split
    · next hne =>
      have hne : previous.bound.name ≠ project.bound.name := by simpa using hne
      change (s.workspace.engine.delete previous.bound.name).names = _
      rw [Engine.names_delete, hn]
      rcases h with rfl | rfl <;> simp [hne, hne.symm]
    · next heq =>
      have heq : previous.bound.name = project.bound.name := by simpa using heq
      change s.workspace.engine.names = _
      rw [hn]
      rcases h with rfl | rfl <;> simp [heq]

/-- What a load that succeeds has made of the register, and a load that fails. -/
lemma load_registered (hs : s.Sound before home) (path : String) (now : Nat) :
    match s.load path now with
    | (.ok _, s') => s'.workspace.engine.names = (s'.current.map (·.bound.name)).toList
    | (.error _, s') => s'.current = s.current ∧ (s'.workspace.engine.names = [] ∨
        s'.workspace.engine.names = (s.current.map (·.bound.name)).toList) := by
  have hloads := s.loads path now
  generalize s.load path now = result at hloads
  cases hloads with
  | refused => exact ⟨rfl, hs.registered⟩
  | @unbound root assembly files e workspace _ _ _ hb =>
    refine ⟨rfl, ?_⟩
    rcases Workspace.bind_builds root assembly.entries { s.workspace with files } with hsame | hbuilds
    · rw [hb] at hsame
      obtain rfl := (Prod.mk.inj hsame).2
      exact hs.registered
    · rw [hb] at hbuilds
      cases hbuilds with
      | failed =>
        change (s.workspace.engine.delete _).names = [] ∨ (s.workspace.engine.delete _).names = _
        rw [Engine.names_delete]
        rcases hs.registered with hr | hr
        · exact .inl (by simp [hr])
        · rw [hr]
          cases s.current with
          | none => exact .inl rfl
          | some project => by_cases hp : project.bound.name = Workspace.projectName root <;> simp [hp]
  | @loaded root assembly files bound workspace _ _ _ hb =>
    have hname := Workspace.name_of_bind hb
    rcases Workspace.bind_builds root assembly.entries { s.workspace with files } with hsame | hbuilds
    · rw [hb] at hsame
      cases hsame
    · rw [hb] at hbuilds
      cases hbuilds with
      | done hp =>
        refine names_replaceCurrent _ hs.registered ?_
        change Engine.names ⟨_, (s.workspace.engine.delete _).projects ++ [_]⟩ = _
        rw [Engine.names, List.map_append, List.map_singleton, hp, ← hname]
        exact congrArg (· ++ _) (Engine.names_delete _ _)

lemma tidy_replaceCurrent (hk : s.Kept before home) (ht : Workspace.Tidy home s.workspace.files)
    (project : LoadedProject) :
    Workspace.Tidy home (s.replaceCurrent project).workspace.files := by
  rw [replaceCurrent]
  split
  · next previous hprev =>
    split
    · exact ht.remove_project hk.session (hk.named previous hprev)
    · exact ht
  · exact ht

lemma replaceCurrent_fixed (s : Service) (project : LoadedProject) :
    (s.replaceCurrent project).workspace.mode = s.workspace.mode ∧
      (s.replaceCurrent project).workspace.engine.workspace = s.workspace.engine.workspace := by
  rw [replaceCurrent]
  split
  · split <;> exact ⟨rfl, rfl⟩
  · exact ⟨rfl, rfl⟩

lemma bind_fixed {treeRoot : String} {entries : List ClasspathEntry} {w w' : Workspace}
    {result : Except WorkspaceError BoundProject}
    (h : (Workspace.bind treeRoot entries).run w = (result, w')) :
    w'.mode = w.mode ∧ w'.engine.workspace = w.engine.workspace := by
  rcases Workspace.bind_builds treeRoot entries w with hsame | hbuilds
  · rw [h] at hsame
    obtain rfl := (Prod.mk.inj hsame).2
    exact ⟨rfl, rfl⟩
  · rw [h] at hbuilds
    cases hbuilds <;> exact ⟨rfl, rfl⟩

/-- What putting the tree of a load into the workspace comes to, whether it can be put there or
not. -/
lemma Sound.bound (hs : s.Sound before home)
    (hfree : ∀ dir, before.entry? (dir ++ [Classpath.dumpName]) = none) {root : String}
    {assembly : Classpath.Assembly} {files : FileTree} {workspace : Workspace}
    {result : Except WorkspaceError BoundProject}
    (ha : s.assembler.assemble s.workspace.files root = (assembly, files))
    (hb : (Workspace.bind root assembly.entries).run { s.workspace with files } =
      (result, workspace)) :
    ({ s with workspace } : Service).Kept before home ∧ Workspace.Tidy home workspace.files := by
  have hkept := assemble_kept hs.kept hfree root
  have htidy := tidy_of_spares hs.tidy (assemble_spares hs.kept hfree root)
  rw [ha] at hkept htidy
  have hafter := Workspace.bind_kept root assembly.entries s.workspace.session
    { s.workspace with files } ⟨rfl, hkept⟩
  have htidy' := Workspace.bind_tidy (w := { s.workspace with files }) hkept htidy root
    assembly.entries
  rw [hb] at hafter htidy'
  refine ⟨⟨?_, hs.kept.named, hs.kept.tools⟩, htidy'⟩
  obtain ⟨hsession, hk⟩ := hafter
  exact hsession ▸ hk

lemma Sound.load (hs : s.Sound before home)
    (hfree : ∀ dir, before.entry? (dir ++ [Classpath.dumpName]) = none) (path : String)
    (now : Nat) : (s.load path now).2.Sound before home := by
  obtain ⟨hkept, hsession⟩ := load_kept hs.kept hfree path now
  have hregistered := load_registered hs path now
  have hloads := s.loads path now
  generalize s.load path now = result at hkept hsession hregistered hloads
  cases hloads with
  | refused => exact hs
  | unbound _ _ ha hb =>
    obtain ⟨hmode, hengine⟩ := bind_fixed hb
    obtain ⟨-, htidy⟩ := hs.bound hfree ha hb
    dsimp only at hsession
    refine ⟨hkept, hmode.trans hs.mode, ?_, htidy, hregistered.2, fun hended => ?_⟩
    · exact hengine.trans (hs.engine.trans (by rw [hsession]))
    · rw [hsession] at hended
      exact hs.ended hended
  | @loaded root assembly files bound workspace hc _ ha hb =>
    obtain ⟨hmode, hengine⟩ := bind_fixed hb
    obtain ⟨hk, htidy⟩ := hs.bound hfree ha hb
    obtain ⟨hmode', hengine'⟩ := replaceCurrent_fixed { s with workspace }
      (s.loadedFrom workspace.files root assembly bound now)
    refine ⟨hkept, hmode'.trans (hmode.trans hs.mode), ?_, tidy_replaceCurrent hk htidy _,
      .inr hregistered, fun hended => ?_⟩
    · exact hengine'.trans (hengine.trans (hs.engine.trans (by rw [hsession])))
    · rw [hsession, tornDown_of_checkLoad hc] at hended
      cases hended

lemma Sound.shutdown (hs : s.Sound before home) : s.shutdown.Sound before home ∧
    s.shutdown.workspace.engine.names = [] := by
  obtain ⟨hk, hpath, htorn⟩ := shutdown_kept hs.kept
  have hnames : s.shutdown.workspace.engine.names = [] := by
    have hteardown (w : Workspace) : w.teardown.engine = w.engine := rfl
    rw [Service.shutdown]
    cases hc : s.current with
    | none =>
      have hr := hs.registered
      rw [hc] at hr
      rw [hteardown]
      exact hr.elim id id
    | some project =>
      dsimp only
      rw [hteardown]
      change (s.workspace.engine.delete project.bound.name).names = []
      rw [Engine.names_delete]
      have hr := hs.registered
      rw [hc] at hr
      rcases hr with hr | hr <;> simp [hr]
  refine ⟨⟨hk, ?_, ?_, .inl ?_, .inl hnames, fun _ => rfl⟩, hnames⟩
  · rw [← hs.mode, Service.shutdown]
    cases s.current <;> rfl
  · rw [hpath, ← hs.engine, Service.shutdown]
    cases s.current <;> rfl
  · exact (hk.session.gone htorn).1 _ (List.prefix_append _ _)

lemma Sound.after (hs : s.Sound before home)
    (hfree : ∀ dir, before.entry? (dir ++ [Classpath.dumpName]) = none) (call : Call) :
    (s.after call).Sound before home := by
  cases call with
  | load path now => exact hs.load hfree path now
  | ask question => exact hs
  | shutdown => exact hs.shutdown.1

lemma Sound.afterAll (hs : s.Sound before home)
    (hfree : ∀ dir, before.entry? (dir ++ [Classpath.dumpName]) = none) (calls : List Call) :
    (s.afterAll calls).Sound before home := by
  induction calls generalizing s with
  | nil => exact hs
  | cons call rest ih => exact ih (hs.after hfree call)

/-- Two services that differ in nothing but what their projects have left in the workspace. -/
structure Alike (s t : Service) : Prop where
  assembler : t.assembler = s.assembler
  absolute : t.config.absolutePaths = s.config.absolutePaths
  session : t.workspace.session = s.workspace.session

/-- A tree that can be loaded can be loaded whatever was loaded before, with the same result. -/
theorem load_agree (hs : s.Sound before home) (ht : t.Sound before home) (hst : s.Alike t)
    (hfree : ∀ dir, before.entry? (dir ++ [Classpath.dumpName]) = none)
    (hout : KeepsOut before home s.assembler path) {summary : ProjectSummary}
    (h : s.load path now = (.ok summary, s')) :
    ∃ t', t.load path now = (.ok summary, t') ∧ t'.current = s'.current := by
  have hloads := s.loads path now
  rw [h] at hloads
  cases hloads with
  | @loaded root assembly files bound workspace hc hroot ha hb =>
    have hblind {α : Type} {f : FileTree → α} (hf : before.Blind home f) :
        f t.workspace.files = f s.workspace.files :=
      (hf _ ht.kept.session.wellFormed ht.kept.session.same).trans
        (hf _ hs.kept.session.wellFormed hs.kept.session.same).symm
    obtain rfl : root = before.normalize path :=
      hroot.symm.trans (hout.root _ hs.kept.session.wellFormed hs.kept.session.same)
    obtain ⟨V, hsecluded, hclear⟩ := hout.sources
    have hassembly : (s.assembler.assemble s.workspace.files (before.normalize path)).1 =
        (s.assembler.assemble before (before.normalize path)).1 :=
      hout.assembly _ hs.kept.session.wellFormed hs.kept.session.same
    rw [← hassembly, ha] at hclear
    have hcheck : t.checkLoad path = .ok () := by
      have hstatus : t.workspace.files.status path = s.workspace.files.status path :=
        hblind hout.status
      have hdir := isDir_of_checkLoad hc
      rw [isDir, ← hstatus, ← isDir] at hdir
      rw [checkLoad_of_isDir hdir, hst.session, tornDown_of_checkLoad hc]
      rfl
    have hroot' : t.workspace.files.normalize path = before.normalize path :=
      (hblind hout.root).trans hroot
    rcases ha' : t.assembler.assemble t.workspace.files (before.normalize path) with
      ⟨assembly', files'⟩
    obtain rfl : assembly' = assembly := by
      have hsame : (s.assembler.assemble t.workspace.files (before.normalize path)).1 =
          (s.assembler.assemble s.workspace.files (before.normalize path)).1 := by
        have hall := hblind hout.assembly
        exact hall
      rwa [ha, ← hst.assembler, ha'] at hsame
    have hkept := assemble_kept hs.kept hfree (before.normalize path)
    have hkept' := assemble_kept ht.kept hfree (before.normalize path)
    have htidy := tidy_of_spares ht.tidy (assemble_spares ht.kept hfree (before.normalize path))
    rw [ha] at hkept
    rw [ha'] at hkept' htidy
    obtain rfl : bound = Workspace.planned s.workspace.session _ assembly'.entries :=
      Workspace.bind_planned (w := { s.workspace with files }) hb
    obtain ⟨hsession, hstands, hhangs, hfits⟩ := Workspace.bind_stands
      (w := { s.workspace with files }) hsecluded hclear hs.mode hkept hb
    obtain ⟨w', hb'⟩ := Workspace.bind_succeeds (w := { t.workspace with files := files' })
      hsecluded hclear ht.mode hkept' (by rw [hst.session, tornDown_of_checkLoad hc]) htidy ht.engine
      (hst.session ▸ hhangs) hfits
    obtain ⟨-, hstands', -⟩ := Workspace.bind_stands
      (w := { t.workspace with files := files' }) hsecluded hclear ht.mode hkept' hb'
    have hplanned : Workspace.planned t.workspace.session (before.normalize path) assembly'.entries =
        Workspace.planned s.workspace.session (before.normalize path) assembly'.entries := by
      rw [hst.session]
    dsimp only at hb' hstands'
    rw [hplanned] at hb' hstands'
    rw [hst.session] at hstands'
    have hapart := Workspace.apart_planned hsecluded hclear s.workspace.session (before.normalize path)
    have hloaded : t.loadedFrom w'.files (before.normalize path) assembly'
        (Workspace.planned s.workspace.session (before.normalize path) assembly'.entries) now =
      s.loadedFrom workspace.files (before.normalize path) assembly'
        (Workspace.planned s.workspace.session (before.normalize path) assembly'.entries) now := by
      rw [loadedFrom, loadedFrom, hapart.readIndex_eq hstands hstands', hst.absolute]
    refine ⟨{ t with workspace := w' }.replaceCurrent _, ?_, rfl⟩
    simp only [Service.load, hcheck, hroot', ha', hb', hloaded]

lemma afterAll_append (s : Service) (xs ys : List Call) :
    s.afterAll (xs ++ ys) = (s.afterAll xs).afterAll ys := List.foldl_append

lemma isOk_load_iff : (s.load path now).1.isOk = true ↔
    ∃ summary s', s.load path now = (.ok summary, s') := by
  rcases s.load path now with ⟨_ | _, _⟩ <;> simp [Except.isOk, Except.toBool]

/-- What a load leaves loaded, and what it leaves. -/
lemma load_current (s : Service) (path : String) (now : Nat) :
    ((s.load path now).1.isOk = true → s.workspace.session.tornDown = false ∧
      (s.load path now).2.current.isSome) ∧
    ((s.load path now).1.isOk = false → (s.load path now).2.current = s.current) := by
  have hloads := s.loads path now
  generalize s.load path now = result at hloads
  cases hloads with
  | refused | unbound => exact ⟨nofun, fun _ => rfl⟩
  | loaded hc => exact ⟨fun _ => ⟨tornDown_of_checkLoad hc, rfl⟩, nofun⟩

/-- Nothing is loaded as long as no load has succeeded, and after the end of the session. -/
lemma current_eq_none_iff (hs : s.Sound before home)
    (hfree : ∀ dir, before.entry? (dir ++ [Classpath.dumpName]) = none) (calls : List Call) :
    (s.afterAll calls).current = none ↔
      (.shutdown ∈ calls ∨ s.workspace.session.tornDown = true) ∨
        s.current = none ∧ s.successes calls = [] := by
  induction calls generalizing s with
  | nil =>
    have hended := hs.ended
    simp only [afterAll, List.foldl_nil, successes, List.not_mem_nil, false_or, and_true]
    exact ⟨.inr, fun h => h.elim hended id⟩
  | cons call rest ih =>
    have ih := ih (hs.after hfree call)
    rw [afterAll, List.foldl_cons, ← afterAll, ih, successes]
    cases call with
    | ask question => simp [after, success?]
    | shutdown =>
      have htorn := (shutdown_kept hs.kept).2.2
      simp [after, htorn]
    | load path now =>
      have hsession := (load_kept hs.kept hfree path now).2
      obtain ⟨hok, herror⟩ := s.load_current path now
      simp only [after, success?, hsession]
      cases hr : (s.load path now).1.isOk with
      | false => simp [herror hr]
      | true =>
        obtain ⟨hstanding, hsome⟩ := hok hr
        simp [hstanding, Option.isSome_iff_ne_none.mp hsome]

/-- The last load of a run that succeeds, and what comes after. -/
lemma exists_last_success {path : String} {now : Nat}
    (h : (s.successes calls).getLast? = some (path, now)) :
    ∃ xs ys, calls = xs ++ .load path now :: ys ∧ ((s.afterAll xs).load path now).1.isOk = true ∧
      ((s.afterAll xs).load path now).2.successes ys = [] := by
  induction calls generalizing s with
  | nil => cases h
  | cons call rest ih =>
    rw [successes] at h
    by_cases hrest : (s.after call).successes rest = []
    · rw [hrest, List.append_nil] at h
      cases call with
      | ask | shutdown => cases h
      | load path' now' =>
        rw [success?] at h
        split at h
        · next hok =>
          obtain ⟨rfl, rfl⟩ : path' = path ∧ now' = now := by simpa using h
          exact ⟨[], rest, rfl, hok, hrest⟩
        · cases h
    · rw [List.getLast?_append_of_ne_nil _ hrest] at h
      obtain ⟨xs, ys, rfl, hok, hys⟩ := ih h
      exact ⟨call :: xs, ys, rfl, hok, hys⟩

/-- Calls that load nothing and do not end the session change neither what is loaded nor the
session. -/
lemma afterAll_quiet (hs : s.Sound before home)
    (hfree : ∀ dir, before.entry? (dir ++ [Classpath.dumpName]) = none)
    (hquiet : s.successes calls = []) (hend : .shutdown ∉ calls) :
    (s.afterAll calls).current = s.current := by
  induction calls generalizing s with
  | nil => rfl
  | cons call rest ih =>
    rw [successes, List.append_eq_nil_iff] at hquiet
    obtain ⟨hcall, hrest⟩ := hquiet
    obtain ⟨hne, hend⟩ : .shutdown ≠ call ∧ .shutdown ∉ rest := by simpa using hend
    refine (ih (hs.after hfree call) hrest hend).trans ?_
    cases call with
    | ask => rfl
    | shutdown => exact absurd rfl hne
    | load path now =>
      refine (s.load_current path now).2 ?_
      rw [success?] at hcall
      simpa using hcall

lemma session_afterAll (hs : s.Sound before home)
    (hfree : ∀ dir, before.entry? (dir ++ [Classpath.dumpName]) = none) (hend : .shutdown ∉ calls) :
    (s.afterAll calls).workspace.session = s.workspace.session := by
  induction calls generalizing s with
  | nil => rfl
  | cons call rest ih =>
    obtain ⟨hne, hend⟩ : .shutdown ≠ call ∧ .shutdown ∉ rest := by simpa using hend
    refine (ih (hs.after hfree call) hend).trans ?_
    cases call with
    | ask => rfl
    | shutdown => exact absurd rfl hne
    | load path now => exact (load_kept hs.kept hfree path now).2

end Service

end JavaAtlas
