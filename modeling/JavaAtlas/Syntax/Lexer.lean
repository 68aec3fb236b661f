import JavaAtlas.Syntax.Token
import JavaAtlas.Text.Blank
import JavaAtlas.Text.Bytes
import JavaAtlas.Text.Identifier

/-!
From characters to tokens. Every token is the longest that fits, except that `>` always stands
alone, so that two closing brackets of type arguments are never taken for a shift.
-/

namespace JavaAtlas.Syntax

open Text

/-- What ends a stretch of a text literal. -/
inductive TextEnd where
  | closed
  | splice
  | unclosed
  deriving Repr, DecidableEq

/-- Number of characters up to and including the end of a text literal or the start of an
expression inside it. A text block ends with three quotes. -/
def scanText (textBlock : Bool) : List Char → Nat × TextEnd
  | [] => (0, .unclosed)
  | '\\' :: '\x7b' :: _ => (2, .splice)
  | '\\' :: _ :: cs =>
    let (n, e) := scanText textBlock cs
    (n + 2, e)
  | '"' :: cs =>
    if textBlock then
      match cs with
      | '"' :: '"' :: _ => (3, .closed)
      | _ =>
        let (n, e) := scanText textBlock cs
        (n + 1, e)
    else (1, .closed)
  | _ :: cs =>
    let (n, e) := scanText textBlock cs
    (n + 1, e)

/-- Number of characters up to and including the closing quote of a character literal. -/
def scanCharacter : List Char → Nat
  | [] => 0
  | '\\' :: _ :: cs => scanCharacter cs + 2
  | '\'' :: _ => 1
  | _ :: cs => scanCharacter cs + 1

/-- Number of characters up to and including the end of a block comment. -/
def scanComment : List Char → Nat
  | [] => 0
  | '*' :: '/' :: _ => 2
  | _ :: cs => scanComment cs + 1

def isDigitPart (c : Char) : Bool := c.isDigit || c == '_'

def isHexPart (c : Char) : Bool :=
  isDigitPart c || ('a' ≤ c && c ≤ 'f') || ('A' ≤ c && c ≤ 'F') || c == '.'

/-- Length of an exponent that begins with one of `marks`, or 0. -/
def exponentLength (marks : List Char) : List Char → Nat
  | m :: rest =>
    if marks.contains m then
      match rest with
      | sign :: d :: _ =>
        if (sign == '+' || sign == '-') && d.isDigit then
          2 + (rest.tail.takeWhile isDigitPart).length
        else if sign.isDigit then 1 + (rest.takeWhile isDigitPart).length
        else 0
      | [d] => if d.isDigit then 2 else 0
      | [] => 0
    else 0
  | [] => 0

/-- Length of a type suffix of a number, 0 or 1. -/
def suffixLength : List Char → Nat
  | c :: _ => if ['l', 'L', 'f', 'F', 'd', 'D'].contains c then 1 else 0
  | [] => 0

/-- Length of what may follow the whole part of a decimal number. -/
def decimalTailLength (cs : List Char) : Nat :=
  let fraction := match cs with
    | '.' :: rest => 1 + (rest.takeWhile isDigitPart).length
    | _ => 0
  let exponent := exponentLength ['e', 'E'] (cs.drop fraction)
  fraction + exponent + suffixLength (cs.drop (fraction + exponent))

/-- Length of the number literal at the front. -/
def numberLength (cs : List Char) : Nat :=
  match cs with
  | '0' :: mark :: rest =>
    if mark == 'x' || mark == 'X' then
      let digits := (rest.takeWhile isHexPart).length
      let exponent := exponentLength ['p', 'P'] (rest.drop digits)
      2 + digits + exponent + suffixLength (rest.drop (digits + exponent))
    else if ['b', 'B', 'o', 'O'].contains mark then
      let digits := (rest.takeWhile isDigitPart).length
      2 + digits + suffixLength (rest.drop digits)
    else
      let digits := (cs.takeWhile isDigitPart).length
      digits + decimalTailLength (cs.drop digits)
  | _ =>
    let digits := (cs.takeWhile isDigitPart).length
    digits + decimalTailLength (cs.drop digits)

/-- The symbols of more than one character. -/
def longSymbols : List (List Char) :=
  ["...", "<<=", "<<", "<=", "->", "--", "-=", "++", "+=", "&&", "&=", "||", "|=", "==", "!=",
   "*=", "/=", "%=", "^=", "::"].map String.toList

/-- Length of the symbol at the front. -/
def symbolLength (cs : List Char) : Nat :=
  if "@interface".toList.isPrefixOf cs && !((cs.drop 10).head?.any isIdentifierPart) then 10
  else ((longSymbols.find? (·.isPrefixOf cs)).map List.length).getD 1

/-- The text literals that are open around an expression: whether each is a text block, and how
many braces the expression has opened. -/
abbrev Splices := List (Bool × Nat)

/-- The class of the token at the front, its length in characters, and the open text literals
after it. -/
def scanToken (splices : Splices) (cs : List Char) : TokenClass × Nat × Splices :=
  match cs with
  | '/' :: '/' :: rest => (.comment, 2 + (rest.takeWhile (· != '\n')).length, splices)
  | '/' :: '*' :: rest => (.comment, 2 + scanComment rest, splices)
  | '"' :: rest =>
    let textBlock := "\"\"".toList.isPrefixOf rest
    let opening := if textBlock then 3 else 1
    match scanText textBlock (cs.drop opening) with
    | (n, .splice) => (.textHead, opening + n, (textBlock, 0) :: splices)
    | (n, _) => (.text, opening + n, splices)
  | '\'' :: rest => (.character, 1 + scanCharacter rest, splices)
  | '\x7b' :: _ =>
    match splices with
    | (textBlock, depth) :: outer => (.symbol, 1, (textBlock, depth + 1) :: outer)
    | [] => (.symbol, 1, [])
  | '\x7d' :: rest =>
    match splices with
    | (textBlock, 0) :: outer =>
      match scanText textBlock rest with
      | (n, .splice) => (.textMiddle, 1 + n, splices)
      | (n, _) => (.textTail, 1 + n, outer)
    | (textBlock, depth + 1) :: outer => (.symbol, 1, (textBlock, depth) :: outer)
    | [] => (.symbol, 1, [])
  | c :: rest =>
    if isIdentifierStart c then (.word, 1 + (rest.takeWhile isIdentifierPart).length, splices)
    else if c.isDigit || (c == '.' && rest.head?.any Char.isDigit) then
      (.number, numberLength cs, splices)
    else (.symbol, symbolLength cs, splices)
  | [] => (.symbol, 0, splices)

/-- The tokens of the characters that begin at byte `pos`. White space is passed over, and so is a
byte order mark at the very start. -/
def lexFrom : Nat → Splices → Nat → List Char → List Token
  | 0, _, _, _ => []
  | _ + 1, _, _, [] => []
  | fuel + 1, splices, pos, c :: cs =>
    if isBlank c || (pos == 0 && c == '\ufeff') then lexFrom fuel splices (pos + c.utf8Size) cs
    else
      let (cls, n, splices) := scanToken splices (c :: cs)
      let spelling := (c :: cs).take (max n 1)
      let stop := pos + byteLength spelling
      ⟨cls, String.ofList spelling, pos, stop⟩ :: lexFrom fuel splices stop ((c :: cs).drop (max n 1))

/-- All tokens of a source, comments included. -/
def lex (source : List Char) : List Token := lexFrom (source.length + 1) [] 0 source

end JavaAtlas.Syntax
