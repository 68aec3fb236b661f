/-!
Arithmetic of the shell: whole numbers, with the precedence of operators from multiplication down
to disjunction.
-/

namespace JavaAtlas.Shell.Arithmetic

inductive Token where
  | number (n : Int)
  | name (s : String)
  | operator (s : String)
  deriving Repr, DecidableEq

def twoSigns : List String := ["&&", "||", "==", "!=", "<=", ">="]

/-- The tokens of an expression; the fuel is its length. -/
def tokenize : Nat → List Char → List Token
  | 0, _ => []
  | _ + 1, [] => []
  | fuel + 1, c :: cs =>
    if c.isDigit then
      let (digits, rest) := (c :: cs).span Char.isDigit
      .number (digits.foldl (fun n d => 10 * n + (d.toNat - '0'.toNat)) 0 : Nat) ::
        tokenize fuel rest
    else if c.isAlpha || c == '_' then
      let (name, rest) := (c :: cs).span fun d => d.isAlphanum || d == '_'
      .name (String.ofList name) :: tokenize fuel rest
    else if c = ' ' ∨ c = '\t' ∨ c = '\n' ∨ c = '$' then tokenize fuel cs
    else
      let two := String.ofList ((c :: cs).take 2)
      if twoSigns.contains two then .operator two :: tokenize fuel (cs.drop 1)
      else .operator (String.singleton c) :: tokenize fuel cs

/-- The operators of each level, the loosest first. -/
def levels : List (List String) :=
  [["||"], ["&&"], ["==", "!="], ["<", "<=", ">", ">="], ["+", "-"], ["*", "/", "%"]]

def truth (b : Bool) : Int := if b then 1 else 0

def apply (op : String) (a b : Int) : Option Int :=
  match op with
  | "||" => some (truth (a != 0 || b != 0))
  | "&&" => some (truth (a != 0 && b != 0))
  | "==" => some (truth (a == b))
  | "!=" => some (truth (a != b))
  | "<" => some (truth (a < b))
  | "<=" => some (truth (a ≤ b))
  | ">" => some (truth (a > b))
  | ">=" => some (truth (a ≥ b))
  | "+" => some (a + b)
  | "-" => some (a - b)
  | "*" => some (a * b)
  | "/" => if b = 0 then none else some (Int.tdiv a b)
  | "%" => if b = 0 then none else some (Int.tmod a b)
  | _ => none

mutual

/-- The value of what binds as tight as the levels given, and the tokens after it. -/
def level (value : String → Int) : Nat → List (List String) → List Token →
    Option (Int × List Token)
  | 0, _, _ => none
  | fuel + 1, [], tokens => operand value fuel tokens
  | fuel + 1, ops :: tighter, tokens => do
    let (first, rest) ← level value fuel tighter tokens
    levelAfter value fuel ops tighter first rest

def levelAfter (value : String → Int) : Nat → List String → List (List String) → Int →
    List Token → Option (Int × List Token)
  | 0, _, _, _, _ => none
  | fuel + 1, ops, tighter, first, tokens =>
    match tokens with
    | .operator op :: rest =>
      if ops.contains op then do
        let (second, rest) ← level value fuel tighter rest
        levelAfter value fuel ops tighter (← apply op first second) rest
      else some (first, tokens)
    | _ => some (first, tokens)

def operand (value : String → Int) : Nat → List Token → Option (Int × List Token)
  | 0, _ => none
  | fuel + 1, tokens =>
    match tokens with
    | .number n :: rest => some (n, rest)
    | .name s :: rest => some (value s, rest)
    | .operator "-" :: rest => (operand value fuel rest).map fun (n, rest) => (-n, rest)
    | .operator "+" :: rest => operand value fuel rest
    | .operator "!" :: rest =>
      (operand value fuel rest).map fun (n, rest) => (truth (n == 0), rest)
    | .operator "(" :: rest => do
      let (n, rest) ← level value fuel levels rest
      match rest with
      | .operator ")" :: rest => some (n, rest)
      | _ => none
    | _ => none

end

/-- The value of an expression, with the values of its names. -/
def evaluate? (value : String → Int) (source : String) : Option Int :=
  let tokens := tokenize source.length source.toList
  match level value (16 * tokens.length + 16) levels tokens with
  | some (n, []) => some n
  | _ => none

end JavaAtlas.Shell.Arithmetic
