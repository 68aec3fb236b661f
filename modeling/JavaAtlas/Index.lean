import JavaAtlas.Binding.Lexicon
import JavaAtlas.Hierarchy
import JavaAtlas.NamePattern
import JavaAtlas.Outline.Collect
import JavaAtlas.Path

/-!
The index of a project: its files, everything they declare, and every use of a name whose meaning
was found, all in the order of the files.
-/

namespace JavaAtlas

open Binding Outline

/-- One file of an index. -/
structure IndexedUnit where
  ref : UnitRef
  source : String
  package : String
  deriving Repr

structure Index where
  units : List IndexedUnit
  declarations : List Declaration
  uses : List Use
  supertypes : List (String × List TypeRef)
  packages : List String
  deriving Repr

/-- What to search for: a pattern for names, which may be kept to one family, or one element. -/
inductive SearchTarget where
  | name (pattern : String) (family : Option ElementFamily)
  | element (e : Element)
  deriving Repr, DecidableEq

structure SearchPattern where
  target : SearchTarget
  category : Category
  caseSensitive : Bool
  deriving Repr, DecidableEq

/-- One result of a search. `element` is what the place lies in, or the declared element itself. -/
structure Hit where
  element : Element
  unit : UnitRef
  offset : Nat
  length : Nat
  role : Role
  accurate : Bool
  deriving Repr, DecidableEq

namespace Index

/-- The texts in ascending order of their code points, each once. -/
def sortedOnce (texts : List String) : List String :=
  (texts.mergeSort fun a b => decide (a ≤ b)).eraseDups

/-- The index of a list of outlines, each made for its place in the list. -/
def ofOutlines (outlines : List Outline) : Index :=
  let declarations := outlines.flatMap (·.declarations)
  let lexicon := Lexicon.ofDeclarations (outlines.map fun o => ⟨o.package, o.imports⟩) declarations
  let offsets := outlines.map (·.declarations.length) |>.foldl
    (fun (at_, starts) n => (at_ + n, starts ++ [at_])) (0, []) |>.2
  { units := outlines.map fun o => ⟨o.unit, o.source, o.package⟩
    declarations
    uses := (outlines.zip offsets).zipIdx.flatMap fun ((o, offset), unit) =>
      o.mentions.filterMap (lexicon.bind? · unit offset)
    supertypes := lexicon.supertypes
    packages := sortedOnce ((outlines.map (·.package)).filter (!·.isEmpty)) }

/-- The index of files, given with their paths. -/
def ofFiles (files : List (String × String)) : Index :=
  ofOutlines (files.zipIdx.map fun ((path, source), unit) => Outline.ofSource ⟨path⟩ unit source)

variable (index : Index)

/-- The position of the file at a path: the last one, if several have it. -/
def unitAt? (path : String) : Option Nat :=
  (index.units.zipIdx.reverse.find? fun (u, _) => Path.same u.ref.path path).map (·.2)

/-- The file at a path. -/
def unit? (path : String) : Option IndexedUnit := (index.unitAt? path).bind (index.units[·]?)

/-- The first declaration of an identifier. -/
def declaration? (id : String) : Option Declaration := index.declarations.find? (·.id == id)

/-- The declared element, or a type known by its qualified name only. -/
def element? (id : String) : Option Element :=
  match index.declaration? id with
  | some d => some d.element
  | none => if !Text.hasChar '#' id && Text.hasChar '.' id then some (.binaryType id) else none

def unitRef (unit : Nat) : UnitRef := ((index.units[unit]?).map (·.ref)).getD ⟨""⟩

/-- The place of a declared name. -/
def declarationHit (d : Declaration) : Hit where
  element := d.element
  unit := index.unitRef d.unit
  offset := d.element.nameOffset.getD d.start
  length := d.element.nameLength
  role := .declaration
  accurate := true

/-- The place of a use, if it lies in a declaration. -/
def useHit? (u : Use) : Option Hit := do
  let owner ← u.enclosing
  let d ← index.declarations[owner]?
  return {
    element := d.element
    unit := index.unitRef u.unit
    offset := u.offset
    length := u.length
    role := u.role
    accurate := u.accurate }

/-- The test that a target puts on declarations; none for a pattern that cannot be read. -/
def declarationTest? (caseSensitive : Bool) : SearchTarget → Option (Declaration → Bool)
  | .element e => some fun d => d.id == e.id
  | .name text family => (NamePattern.parse? text caseSensitive).map fun p d =>
      family.all (·.accepts d.element.kind) && p.matchesName d.element.name (qualifiedName d.id)

/-- The test that a target puts on uses; none for a pattern that cannot be read. -/
def useTest? (caseSensitive : Bool) : SearchTarget → Option (Use → Bool)
  | .element e => some fun u => u.targets.contains e.id
  | .name text family => (NamePattern.parse? text caseSensitive).map fun p u =>
      family.all (· == u.family) &&
        u.targets.head?.any fun target => p.matchesName u.targetName (qualifiedName target)

/-- All results of a search, in the order of the index. -/
def search (pattern : SearchPattern) (scope : SearchScope) : List Hit :=
  match pattern.category with
  | .declarations =>
    match declarationTest? pattern.caseSensitive pattern.target with
    | none => []
    | some test =>
      (index.declarations.filter fun d => scope.encloses d.owner? && test d).map
        index.declarationHit
  | category =>
    match useTest? pattern.caseSensitive pattern.target with
    | none => []
    | some test =>
      (index.uses.filter fun u =>
        category.accepts u.role && scope.encloses u.enclosingType && test u).filterMap index.useHit?

/-- Hands the results among some entries to a caller, one by one, for as long as it asks for more. -/
def report {α σ : Type} (hit? : α → Option Hit) (ask : σ → Hit → σ × Bool) (s : σ) : List α → σ
  | [] => s
  | a :: rest =>
    match hit? a with
    | none => report hit? ask s rest
    | some hit =>
      match ask s hit with
      | (s, true) => report hit? ask s rest
      | (s, false) => s

/-- A search on behalf of a caller, who may stop it after any result. -/
def request {σ : Type} (pattern : SearchPattern) (scope : SearchScope) (ask : σ → Hit → σ × Bool)
    (s : σ) : σ :=
  match pattern.category with
  | .declarations =>
    match declarationTest? pattern.caseSensitive pattern.target with
    | none => s
    | some test =>
      index.declarations |> report (fun d =>
        if scope.encloses d.owner? && test d then some (index.declarationHit d) else none) ask s
  | category =>
    match useTest? pattern.caseSensitive pattern.target with
    | none => s
    | some test =>
      index.uses |> report (fun u =>
        if category.accepts u.role && scope.encloses u.enclosingType && test u then index.useHit? u
        else none) ask s

/-- The meaning of the supertypes of a type, in the order in which they are written. -/
def superRefs (id : String) : List TypeRef := (index.supertypes.lookup id).getD []

/-- The direct supertypes of a type; what a class extends comes first. -/
def directSupertypes (id : String) : List Element :=
  (index.superRefs id).filterMap fun ref =>
    match ref with
    | .unresolved name => some (.binaryType name)
    | ref => index.element? ref.id

/-- The direct subtypes of a type, in the order of the index. -/
def directSubtypes (id : String) : List Element :=
  let subs := index.declarations.filter fun d =>
    d.element.kind.isType && (index.superRefs d.id).any (·.id == id)
  let firsts := subs.filterMap fun d => index.declarations.findIdx? (·.id == d.id)
  ((firsts.mergeSort fun a b => decide (a ≤ b)).eraseDups).filterMap fun i =>
    (index.declarations[i]?).map (·.element)

/-- What the selected bytes name: the targets of the uses around them, else the element declared
there. -/
def select (path : String) (offset length : Nat) : List Element :=
  match index.unitAt? path with
  | none => []
  | some unit =>
    let stop := offset + length
    let referenced := (index.uses.filter fun u =>
      u.unit == unit && u.offset ≤ offset && stop ≤ u.offset + u.length).flatMap fun u =>
        u.targets.filterMap index.element?
    if !referenced.isEmpty then referenced
    else
      ((index.declarations.find? fun d =>
        d.unit == unit && d.element.nameOffset.any fun start =>
          start ≤ offset && stop ≤ start + d.element.nameLength).map (·.element)).toList

/-- The first of the shortest declarations. -/
def shortest? : List Declaration → Option Declaration
  | [] => none
  | d :: ds =>
    match shortest? ds with
    | none => some d
    | some e => if d.stop - d.start ≤ e.stop - e.start then some d else some e

/-- The innermost element around a byte. -/
def containing? (path : String) (offset : Nat) : Option Element := do
  let unit ← index.unitAt? path
  let d ← shortest? (index.declarations.filter fun d =>
    d.unit == unit && d.start ≤ offset && offset < d.stop)
  return d.element

/-- A bound on the number of types that any walk can reach. -/
def typeBound : Nat :=
  index.declarations.length + index.supertypes.foldl (fun n t => n + t.2.length + 1) 2

end Index

/-- The type that every type extends. -/
def rootType : Element := .binaryType "java.lang.Object"

namespace Index

variable (index : Index)

/-- All subtypes of a type, nearest first. -/
def allSubtypes (e : Element) : List Element :=
  Hierarchy.walk index.typeBound (fun t => index.directSubtypes t.id) e

/-- All supertypes of a type, nearest first, and the root of all types at the end. -/
def allSupertypes (root : Element) (e : Element) : List Element :=
  let found := Hierarchy.walk index.typeBound (fun t => index.directSupertypes t.id) e
  if e.id == root.id then found else found.eraseP (·.id == root.id) ++ [root]

end Index

end JavaAtlas
