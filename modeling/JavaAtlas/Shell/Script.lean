/-!
Scripts of the command shell, as data.
-/

namespace JavaAtlas.Shell

/-- What a dollar sign or a pair of backquotes stands for. The word of an operator on a parameter,
an arithmetic expression and an inner script are kept as written. -/
inductive Expansion where
  | parameter (name : String)
  | modified (name operator word : String)
  | arithmetic (source : String)
  | command (source : String)
  deriving Repr, DecidableEq

/-- A part of a word. What is quoted is neither split into fields nor read as a pattern. -/
inductive Part where
  | text (s : String) (quoted : Bool)
  | expansion (e : Expansion) (quoted : Bool)
  deriving Repr, DecidableEq

abbrev Word := List Part

/-- What a redirection does with its target. -/
inductive RedirectMode where
  | write
  | append
  | read
  | duplicate
  deriving Repr, DecidableEq

structure Redirect where
  descriptor : Nat
  mode : RedirectMode
  target : Word
  deriving Repr, DecidableEq

/-- A script. A simple command keeps the line it stands on. -/
inductive Script where
  | simple (line : Nat) (assignments : List (String × Word)) (words : List Word)
  | redirected (body : Script) (redirects : List Redirect)
  | sequence (items : List Script)
  | both (first second : Script)
  | either (first second : Script)
  | negated (body : Script)
  | pipe (source sink : Script)
  | subshell (body : Script)
  | conditional (test body otherwise : Script)
  | loop (holds : Bool) (test body : Script)
  | each (name : String) (words : Option (List Word)) (body : Script)
  | choice (word : Word) (arms : List (List Word × Script))
  | function (name : String) (body : Script)
  deriving Inhabited

end JavaAtlas.Shell
