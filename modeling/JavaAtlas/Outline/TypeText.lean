import JavaAtlas.Text.Blank
import JavaAtlas.Text.Split

/-!
Types as they are written, and what is kept of them: the erasure, which drops type arguments,
array brackets and white space, and the form that stands in the identifier of a method.
-/

namespace JavaAtlas.Outline

open Text

/-- Erases from left to right: `depth` counts the open angle brackets, `kept` holds what was kept so
far, last first. A point is kept only after something that is no point. -/
def eraseFrom : Nat → List Char → List Char → List Char
  | _, kept, [] => (kept.dropWhile (· == '.')).reverse
  | depth, kept, c :: cs =>
    if c = '<' then eraseFrom (depth + 1) kept cs
    else if c = '>' then eraseFrom (depth - 1) kept cs
    else if 0 < depth then eraseFrom depth kept cs
    else if c = '[' ∨ c = ']' then eraseFrom depth kept cs
    else if c = '.' ∧ kept.head? = some '.' then eraseFrom depth kept cs
    else if isBlank c then eraseFrom depth kept cs
    else eraseFrom depth (c :: kept) cs

/-- The written type without type arguments, array brackets, dots of a variable arity and white
space: `Map<String, List<Foo>>[]` becomes `Map`. -/
def eraseType (written : String) : String := String.ofList (eraseFrom 0 [] written.toList)

/-- Number of empty pairs of square brackets. -/
def countBrackets : List Char → Nat
  | '[' :: ']' :: cs => countBrackets cs + 1
  | _ :: cs => countBrackets cs
  | [] => 0

/-- A parameter type in the identifier of a method: the simple name with its array brackets, one
pair more for a variable arity. -/
def signatureType (written : String) (varargs : Bool) : String :=
  let rank := countBrackets written.toList + if varargs then 1 else 0
  afterLast '.' (eraseType written) ++ String.join (List.replicate rank "[]")

end JavaAtlas.Outline
