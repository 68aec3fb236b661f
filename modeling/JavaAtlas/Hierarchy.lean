import JavaAtlas.Element

/-!
Closures of a relation between elements, breadth first.
-/

namespace JavaAtlas.Hierarchy

/-- Takes elements from a queue and adds their neighbours that were not seen before. -/
def walkFrom (next : Element → List Element) : Nat → List String → List Element → List Element
  | 0, _, _ => []
  | _ + 1, _, [] => []
  | fuel + 1, seen, e :: queue =>
    let (seen, found) := (next e).foldl (fun (seen, found) n =>
      if seen.contains n.id then (seen, found) else (n.id :: seen, found ++ [n])) (seen, [])
    found ++ walkFrom next fuel seen (queue ++ found)

/-- All elements that can be reached from `start`, nearest first, each once and without `start`.
The fuel bounds the number of elements. -/
def walk (fuel : Nat) (next : Element → List Element) (start : Element) : List Element :=
  walkFrom next fuel [start.id] [start]

end JavaAtlas.Hierarchy
