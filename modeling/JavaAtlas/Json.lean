/-!
JSON values and the rules by which the models are read from them. A record is read from an object,
where unknown names are passed over, or from an array that holds exactly its fields in order. A
missing field is the same as `null`. A case of an enumeration is its name, or an object whose only
field is that name with the value `null`.
-/

namespace JavaAtlas

/-- A JSON value. A number that is no integer keeps its digits and the number of decimal places. -/
inductive Json where
  | null
  | bool (b : Bool)
  | int (n : Int)
  | decimal (digits : Int) (places : Nat)
  | str (s : String)
  | arr (items : List Json)
  | obj (fields : List (String × Json))
  deriving Repr, BEq, Inhabited

namespace Json

/-- The largest number that a size or an offset may take. -/
def wordLimit : Nat := 18446744073709551616

def ofNat (n : Nat) : Json := .int n

def ofOption {α : Type} (write : α → Json) : Option α → Json
  | none => .null
  | some a => write a

def ofList {α : Type} (write : α → Json) (items : List α) : Json := .arr (items.map write)

def toStr? : Json → Option String
  | .str s => some s
  | _ => none

def toBool? : Json → Option Bool
  | .bool b => some b
  | _ => none

/-- A number from 0 up to the word limit. -/
def toNat? : Json → Option Nat
  | .int n => if 0 ≤ n ∧ n < wordLimit then some n.toNat else none
  | _ => none

def toList? {α : Type} (read : Json → Option α) : Json → Option (List α)
  | .arr items => items.mapM read
  | _ => none

/-- A value that may be left out: `null` stands for nothing. -/
def toOption? {α : Type} (read : Json → Option α) : Json → Option (Option α)
  | .null => some none
  | v => (read v).map some

/-- A case of an enumeration, by its name. -/
def toCase? {α : Type} (cases : List (String × α)) : Json → Option α
  | .str name => cases.lookup name
  | .obj [(name, .null)] => cases.lookup name
  | _ => none

/-- The values of the named fields in that order; a missing field is `null`. -/
def fields? (names : List String) : Json → Option (List Json)
  | .obj entries => some (names.map fun name => (entries.lookup name).getD .null)
  | .arr items => if items.length = names.length then some items else none
  | _ => none

end Json

end JavaAtlas
