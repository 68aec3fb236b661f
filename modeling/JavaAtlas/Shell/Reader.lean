import JavaAtlas.Shell.Script
import JavaAtlas.Text.Lines

/-!
Reading scripts: characters to tokens, tokens to a script.
-/

namespace JavaAtlas.Shell

open Text

inductive Token where
  | word (w : Word)
  | descriptor (n : Nat)
  | operator (s : String)
  | newline
  deriving Repr, DecidableEq

namespace Reader

def isBreak (c : Char) : Bool := c == ' ' || c == '\t' || c == '\n' || "|&;()<>".toList.contains c

def isNameStart (c : Char) : Bool := c.isAlpha || c == '_'

def isNamePart (c : Char) : Bool := c.isAlphanum || c == '_'

def isName (cs : List Char) : Bool := cs.head?.any isNameStart && cs.all isNamePart

/-- Parameters whose name is one sign. -/
def isSpecial (c : Char) : Bool := c.isDigit || "@*#?$!-".toList.contains c

/-- Up to the closing sign, where inner pairs and quotes are passed over. `quote` is the open
quotation mark. -/
def upToClose (opener closer : Char) : Nat → Option Char → List Char → List Char × List Char
  | _, _, [] => ([], [])
  | depth, quote, '\\' :: c :: cs =>
    let (inner, rest) := upToClose opener closer depth quote cs
    ('\\' :: c :: inner, rest)
  | depth, some q, c :: cs =>
    let (inner, rest) := upToClose opener closer depth (if c = q then none else some q) cs
    (c :: inner, rest)
  | depth, none, c :: cs =>
    if c = closer ∧ depth = 0 then ([], cs)
    else
      let depth' := if c = opener then depth + 1 else if c = closer then depth - 1 else depth
      let quote := if c = '\'' ∨ c = '"' then some c else none
      let (inner, rest) := upToClose opener closer depth' quote cs
      (c :: inner, rest)

/-- The parameter between braces: its name, or a name with an operator and a word. -/
def braced (inner : List Char) : Expansion :=
  match inner with
  | '#' :: name =>
    if isName name ∨ (name.length = 1 ∧ name.all isSpecial) then
      .modified (String.ofList name) "length" ""
    else .parameter "#"
  | _ =>
    let (name, rest) :=
      if inner.head?.any isNameStart then inner.span isNamePart else inner.splitAt 1
    match ["##", "#", "%%", "%", ":-", "-", ":=", "=", ":+", "+"].findSome? fun op =>
        (dropStart? op.toList rest).map fun word => (op, word) with
    | some (op, word) => .modified (String.ofList name) op (String.ofList word)
    | none => .parameter (String.ofList name)

/-- What follows a dollar sign, if it is an expansion. -/
def dollar? (cs : List Char) : Option (Expansion × List Char) :=
  match cs with
  | '(' :: '(' :: rest =>
    let (inner, rest) := upToClose '(' ')' 0 none rest
    some (.arithmetic (String.ofList inner), rest.drop 1)
  | '(' :: rest =>
    let (inner, rest) := upToClose '(' ')' 0 none rest
    some (.command (String.ofList inner), rest)
  | '\x7b' :: rest =>
    let (inner, rest) := upToClose '\x7b' '\x7d' 0 none rest
    some (braced inner, rest)
  | c :: rest =>
    if isNameStart c then
      let (name, rest) := cs.span isNamePart
      some (.parameter (String.ofList name), rest)
    else if isSpecial c then some (.parameter (String.singleton c), rest)
    else none
  | [] => none

/-- Puts a character before the parts of a word. -/
def consChar (c : Char) (quoted : Bool) : Word → Word
  | .text s q :: parts =>
    if q = quoted then .text (String.singleton c ++ s) q :: parts
    else .text (String.singleton c) quoted :: .text s q :: parts
  | parts => .text (String.singleton c) quoted :: parts

/-- How a word is read: up to a blank or an operator, up to the end of a double quotation, or to the
very end. -/
inductive Mode where
  | plain
  | quoted
  | whole
  deriving DecidableEq

/-- The rest of a word, and what follows it. -/
def readWord : Nat → Mode → List Char → Word × List Char
  | 0, _, cs => ([], cs)
  | _ + 1, _, [] => ([], [])
  | fuel + 1, mode, c :: cs =>
    let inside := mode == .quoted
    let keep (quoted : Bool) (cs : List Char) : Word × List Char :=
      let (w, rest) := readWord fuel mode cs
      (consChar c quoted w, rest)
    if mode == .plain && isBreak c then ([], c :: cs)
    else if inside && c = '"' then ([], cs)
    else if c = '\\' then
      match cs with
      | '\n' :: rest => readWord fuel mode rest
      | d :: rest =>
        if inside && !"$`\"\\".toList.contains d then keep true cs
        else
          let (w, rest) := readWord fuel mode rest
          (consChar d true w, rest)
      | [] => keep true cs
    else if c = '$' then
      match dollar? cs with
      | some (e, rest) =>
        let (w, rest) := readWord fuel mode rest
        (.expansion e inside :: w, rest)
      | none => keep inside cs
    else if c = '\x60' then
      let (inner, rest) := cs.span (· != '\x60')
      let (w, rest) := readWord fuel mode (rest.drop 1)
      (.expansion (.command (String.ofList inner)) inside :: w, rest)
    else if !inside && c = '\'' then
      let (inner, rest) := cs.span (· != '\'')
      let (w, rest) := readWord fuel mode (rest.drop 1)
      (.text (String.ofList inner) true :: w, rest)
    else if !inside && c = '"' then
      let (inner, rest) := readWord fuel .quoted cs
      let (w, rest) := readWord fuel mode rest
      (.text "" true :: inner ++ w, rest)
    else keep inside cs

/-- A word from its characters, all of which belong to it. -/
def wholeWord (s : String) : Word := (readWord (s.length + 1) .whole s.toList).1

def operators : List String :=
  ["&&", "||", ";;", ">>", ">&", "<&", ">|", "(", ")", ";", "&", "|", "<", ">"]

/-- The token that a word makes: a number before a redirection names a descriptor. -/
def wordToken (w : Word) (rest : List Char) : Token :=
  match w with
  | [.text s false] =>
    if s.toList.all Char.isDigit && rest.head?.any (fun c => c = '<' ∨ c = '>') then
      .descriptor ((s.toNat?).getD 0)
    else .word w
  | _ => .word w

/-- The tokens of a script, each with its line. -/
def tokenize : Nat → Nat → List Char → List (Token × Nat)
  | 0, _, _ => []
  | _ + 1, _, [] => []
  | fuel + 1, line, c :: cs =>
    if c = '\n' then (.newline, line) :: tokenize fuel (line + 1) cs
    else if c = ' ' ∨ c = '\t' then tokenize fuel line cs
    else if c = '#' then tokenize fuel line (cs.dropWhile (· != '\n'))
    else if c = '\\' ∧ cs.head? = some '\n' then tokenize fuel (line + 1) (cs.drop 1)
    else
      match operators.findSome? fun op =>
          (dropStart? op.toList (c :: cs)).map fun rest => (op, rest) with
      | some (op, rest) => (.operator op, line) :: tokenize fuel line rest
      | none =>
        let (w, rest) := readWord (cs.length + 2) .plain (c :: cs)
        let lines := ((c :: cs).length - rest.length)
        let breaks := (((c :: cs).take lines).filter (· = '\n')).length
        (wordToken w rest, line) :: tokenize fuel (line + breaks) rest

/-- Reads tokens from the front. -/
abbrev Parser := StateT (List (Token × Nat)) Option

def peek : Parser (Option Token) := do return (← get).head?.map (·.1)

def skip : Parser Unit := modify (·.drop 1)

/-- The word that the next token spells without quotes. -/
def peekKeyword : Parser (Option String) := do
  match ← peek with
  | some (.word [.text s false]) => return some s
  | _ => return none

def expectKeyword (s : String) : Parser Unit := do
  if (← peekKeyword) == some s then skip else failure

def expectOperator (s : String) : Parser Unit := do
  if (← peek) == some (.operator s) then skip else failure

def skipNewlines : Parser Unit := modify (·.dropWhile (·.1 == .newline))

/-- Skips the ends of commands. -/
def skipEnds : Parser Unit :=
  modify (·.dropWhile fun t => t.1 == .newline || t.1 == .operator ";" || t.1 == .operator "&")

/-- Words that end a list of commands. -/
def closers : List String := ["then", "else", "elif", "fi", "do", "done", "esac", "\x7d"]

/-- Whether the list of commands ends here. -/
def atClose : Parser Bool := do
  match ← peek with
  | none | some (.operator ")") | some (.operator ";;") => return true
  | _ => return (← peekKeyword).any closers.contains

/-- A redirection that begins with the next token. -/
def redirect? : Parser (Option Redirect) := do
  let tokens ← get
  let (given, tokens) := match tokens with
    | (.descriptor n, _) :: rest => (some n, rest)
    | _ => (none, tokens)
  match tokens with
  | (.operator op, _) :: (.word w, _) :: rest =>
    let made : Option Redirect := match op with
      | ">" | ">|" => some ⟨given.getD 1, .write, w⟩
      | ">>" => some ⟨given.getD 1, .append, w⟩
      | "<" => some ⟨given.getD 0, .read, w⟩
      | ">&" => some ⟨given.getD 1, .duplicate, w⟩
      | "<&" => some ⟨given.getD 0, .duplicate, w⟩
      | _ => none
    if made.isSome then set rest
    return made
  | _ => return none

/-- An assignment, if the word is one. -/
def assignment? (w : Word) : Option (String × Word) :=
  match w with
  | .text s false :: parts =>
    match cutFirst? '=' s with
    | some (name, value) =>
      if isName name.toList then
        some (name, if value.isEmpty then parts else .text value false :: parts)
      else none
    | none => none
  | _ => none

def readRedirects : Nat → Parser (List Redirect)
  | 0 => return []
  | fuel + 1 => do
    match ← redirect? with
    | some r => return r :: (← readRedirects fuel)
    | none => return []

/-- A command with the redirections after it. -/
def withRedirects (body : Script) : Parser Script := do
  let redirects ← readRedirects (← get).length
  return if redirects.isEmpty then body else .redirected body redirects

/-- The assignments, words and redirections of a simple command. -/
def simpleParts : Nat → Bool → Parser (List (String × Word) × List Word × List Redirect)
  | 0, _ => return ([], [], [])
  | fuel + 1, begun => do
    match ← redirect? with
    | some r =>
      let (assignments, words, redirects) ← simpleParts fuel begun
      return (assignments, words, r :: redirects)
    | none =>
      match ← peek with
      | some (.word w) =>
        skip
        match if begun then none else assignment? w with
        | some a =>
          let (assignments, words, redirects) ← simpleParts fuel false
          return (a :: assignments, words, redirects)
        | none =>
          let (assignments, words, redirects) ← simpleParts fuel true
          return (assignments, w :: words, redirects)
      | _ => return ([], [], [])

def simpleCommand : Parser Script := do
  let tokens ← get
  let line := (tokens.head?.map (·.2)).getD 1
  let (assignments, words, redirects) ← simpleParts tokens.length false
  if assignments.isEmpty && words.isEmpty && redirects.isEmpty then failure
  let body := Script.simple line assignments words
  return if redirects.isEmpty then body else .redirected body redirects

/-- Words up to the end of the line. -/
def readWords : Nat → Parser (List Word)
  | 0 => return []
  | fuel + 1 => do
    match ← peek with
    | some (.word w) => skip; return w :: (← readWords fuel)
    | _ => return []

/-- The patterns of an arm, up to the closing bracket. -/
def readPatterns : Nat → Parser (List Word)
  | 0 => failure
  | fuel + 1 => do
    match ← peek with
    | some (.word w) =>
      skip
      match ← peek with
      | some (.operator "|") => skip; return w :: (← readPatterns fuel)
      | _ => expectOperator ")"; return [w]
    | _ => failure

/-- The name of the function that is defined here. -/
def functionName? : List (Token × Nat) → Option (String × List (Token × Nat))
  | (.word [.text s false], _) :: (.operator "(", _) :: (.operator ")", _) :: rest =>
    if isName s.toList then some (s, rest) else none
  | _ => none

mutual

/-- Commands up to a word or sign that ends them. -/
def readList : Nat → Parser Script
  | 0 => failure
  | fuel + 1 => do
    skipEnds
    if ← atClose then return .sequence []
    let first ← readChain fuel
    let ended ← peek
    match ended with
    | some .newline | some (.operator ";") | some (.operator "&") | none => pure ()
    | _ => if !(← atClose) then failure
    match ← readList fuel with
    | .sequence rest => return .sequence (first :: rest)
    | rest => return .sequence [first, rest]

/-- Pipelines joined by `&&` and `||`, from the left. -/
def readChain : Nat → Parser Script
  | 0 => failure
  | fuel + 1 => do
    let first ← readPipeline fuel
    readChainAfter fuel first

def readChainAfter : Nat → Script → Parser Script
  | 0, _ => failure
  | fuel + 1, first => do
    match ← peek with
    | some (.operator "&&") =>
      skip; skipNewlines
      let second ← readPipeline fuel
      readChainAfter fuel (.both first second)
    | some (.operator "||") =>
      skip; skipNewlines
      let second ← readPipeline fuel
      readChainAfter fuel (.either first second)
    | _ => return first

def readPipeline : Nat → Parser Script
  | 0 => failure
  | fuel + 1 => do
    if (← peekKeyword) == some "!" then
      skip
      return .negated (← readPipeline fuel)
    let first ← readCommand fuel
    match ← peek with
    | some (.operator "|") =>
      skip; skipNewlines
      return .pipe first (← readPipeline fuel)
    | _ => return first

/-- What stands between `if` or `elif` and the end of it. -/
def readConditional : Nat → Parser Script
  | 0 => failure
  | fuel + 1 => do
    let test ← readList fuel
    expectKeyword "then"
    let body ← readList fuel
    match ← peekKeyword with
    | some "elif" => skip; return .conditional test body (← readConditional fuel)
    | some "else" =>
      skip
      let otherwise ← readList fuel
      expectKeyword "fi"
      return .conditional test body otherwise
    | _ => expectKeyword "fi"; return .conditional test body (.sequence [])

def readArms : Nat → Parser (List (List Word × Script))
  | 0 => failure
  | fuel + 1 => do
    skipNewlines
    if (← peekKeyword) == some "esac" then
      skip
      return []
    if (← peek) == some (.operator "(") then skip
    let patterns ← readPatterns (← get).length
    let body ← readList fuel
    if (← peek) == some (.operator ";;") then skip
    return (patterns, body) :: (← readArms fuel)

/-- The body of a loop. -/
def readBody : Nat → Parser Script
  | 0 => failure
  | fuel + 1 => do
    skipEnds
    expectKeyword "do"
    let body ← readList fuel
    expectKeyword "done"
    return body

def readCommand : Nat → Parser Script
  | 0 => failure
  | fuel + 1 => do
    match functionName? (← get) with
    | some (name, rest) =>
      set rest
      skipNewlines
      return .function name (← readCommand fuel)
    | none =>
      if (← peek) == some (.operator "(") then
        skip
        let body ← readList fuel
        expectOperator ")"
        return ← withRedirects (.subshell body)
      match ← peekKeyword with
      | some "\x7b" =>
        skip
        let body ← readList fuel
        expectKeyword "\x7d"
        withRedirects body
      | some "if" => skip; withRedirects (← readConditional fuel)
      | some "while" =>
        skip
        let test ← readList fuel
        withRedirects (.loop true test (← readBody fuel))
      | some "until" =>
        skip
        let test ← readList fuel
        withRedirects (.loop false test (← readBody fuel))
      | some "for" =>
        skip
        let some name ← peekKeyword | failure
        skip; skipNewlines
        if (← peekKeyword) == some "in" then
          skip
          let words ← readWords (← get).length
          withRedirects (.each name (some words) (← readBody fuel))
        else withRedirects (.each name none (← readBody fuel))
      | some "case" =>
        skip
        let some (.word w) ← peek | failure
        skip; skipNewlines
        expectKeyword "in"
        withRedirects (.choice w (← readArms fuel))
      | some s => if closers.contains s then failure else simpleCommand
      | none => simpleCommand

end

end Reader

/-- Reads a script; none if it is not well formed. -/
def Script.parse? (source : String) : Option Script :=
  let cs := source.toList
  let tokens := Reader.tokenize (cs.length + 1) 1 cs
  match (Reader.readList (8 * tokens.length + 8)).run tokens with
  | some (script, []) => some script
  | _ => none

end JavaAtlas.Shell
