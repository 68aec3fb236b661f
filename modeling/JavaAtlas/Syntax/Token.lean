import JavaAtlas.Syntax.Node

/-!
Tokens of a source file.
-/

namespace JavaAtlas.Syntax

/-- What a token is. A text with expressions inside is cut into a head, middles and a tail. -/
inductive TokenClass where
  | word
  | number
  | character
  | text
  | textHead
  | textMiddle
  | textTail
  | symbol
  | comment
  deriving Repr, DecidableEq, Inhabited

/-- A token with its spelling and the byte where it begins. -/
structure Token where
  cls : TokenClass
  spelling : String
  start : Nat
  stop : Nat
  deriving Repr, DecidableEq, Inhabited

namespace Token

/-- The token as a leaf of the tree. -/
def leaf (t : Token) (kind : Kind) : Node := .mk kind none t.start t.stop []

/-- Whether `next` follows without anything between. -/
def adjoins (t next : Token) : Bool := t.stop == next.start

end Token

/-- Words that can never be a name. -/
def reservedWords : List String :=
  ["abstract", "assert", "boolean", "break", "byte", "case", "catch", "char", "class", "continue",
   "default", "do", "double", "else", "enum", "extends", "false", "final", "finally", "float",
   "for", "if", "implements", "import", "instanceof", "int", "interface", "long", "native", "new",
   "null", "package", "private", "protected", "public", "return", "short", "static", "strictfp",
   "super", "switch", "synchronized", "this", "throw", "throws", "transient", "true", "try",
   "void", "volatile", "while"]

end JavaAtlas.Syntax
