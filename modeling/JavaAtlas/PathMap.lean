import JavaAtlas.Path

/-!
Between the source tree of the user and the workspace: each source directory has a link in the
workspace that stands for it.
-/

namespace JavaAtlas

/-- A directory of the source tree and the link that stands for it. -/
structure LinkedRoot where
  name : String
  link : String
  external : String
  deriving Repr, DecidableEq

structure PathMap where
  treeRoot : String
  roots : List LinkedRoot
  absolute : Bool
  deriving Repr, DecidableEq

namespace PathMap

/-- The last of the greatest by a measure. -/
def lastGreatest? {α : Type} (measure : α → Nat) : List α → Option α
  | [] => none
  | x :: xs =>
    match lastGreatest? measure xs with
    | none => some x
    | some y => if measure x ≤ measure y then some y else some x

/-- Moves a path from the longest of the directories around it to what stands for that
directory. -/
def transfer? (pairs : List (String × String)) (path : String) : Option String :=
  let around := pairs.filterMap fun (source, target) =>
    (Path.stripBase? source path).map fun rest => (source, target, rest)
  (lastGreatest? (fun (source, _, _) => (Path.components source).length) around).map
    fun (_, target, rest) => if rest.isEmpty then target else Path.join target rest

variable (m : PathMap)

/-- The place in the workspace of a file that the user names, by an absolute path or from the root
of the tree. `normalize` finds the true location of a path. -/
def toWorkspace? (normalize : String → String) (path : String) : Option String :=
  let location := normalize (Path.join m.treeRoot path)
  transfer? (m.roots.map fun r => (r.external, r.link)) location

/-- The place in the source tree of a file of the workspace; other paths stay as they are. -/
def toExternal (path : String) : String :=
  (transfer? (m.roots.map fun r => (r.link, r.external)) path).getD path

/-- The path as callers see it: from the root of the tree, unless absolute paths are wanted. -/
def report (path : String) : String :=
  let external := m.toExternal path
  if m.absolute then Path.toSlash external
  else Path.toSlash ((Path.stripBase? m.treeRoot external).getD external)

end PathMap

end JavaAtlas
