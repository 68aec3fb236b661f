import JavaAtlas.FileTree

/-!
Running a tool within a limit of time, and keeping what it writes. A launcher says what a tool does
to the files and how it ends; the rules for its output are here.
-/

namespace JavaAtlas

structure Command where
  program : String
  args : List String
  directory : Option String
  deriving Repr, DecidableEq

/-- The command as it is shown in messages. -/
def Command.display (c : Command) : String := Text.joinWith " " (c.program :: c.args)

/-- How a tool ends: by itself, by a signal, or not within the limit. -/
inductive Finish where
  | exited (code : Nat)
  | killed
  | outlasts
  deriving Repr, DecidableEq

/-- What a tool did: what it wrote, how it ended and the files after that. -/
structure Execution where
  finish : Finish
  stdout : List UInt8
  stderr : List UInt8
  files : FileTree
  deriving Repr

/-- Starts a command with a limit in milliseconds. -/
abbrev Launcher := FileTree → Nat → Command → Except IoError Execution

/-- Why a command gives no output. -/
inductive RunError where
  | spawn (program : String) (error : IoError)
  | timedOut (limitMs : Nat)
  | cancelled
  deriving Repr, DecidableEq

namespace RunError

/-- Three decimal places without the zeros at the end, and the point before them. -/
def fraction (ms : Nat) : String :=
  let digits := [ms / 100, ms / 10 % 10, ms % 10]
  let kept := (digits.reverse.dropWhile (· == 0)).reverse
  if kept.isEmpty then "" else "." ++ String.join (kept.map toString)

/-- A number of milliseconds in the largest unit that it reaches. -/
def duration (ms : Nat) : String :=
  if ms = 0 then "0ns"
  else if ms < 1000 then toString ms ++ "ms"
  else toString (ms / 1000) ++ fraction (ms % 1000) ++ "s"

def message : RunError → String
  | spawn program error => "failed to start '" ++ program ++ "': " ++ error.message
  | timedOut limitMs => "timed out after " ++ duration limitMs
  | cancelled => "cancelled"

end RunError

/-- What is kept of a finished command; no code when a signal ended it. -/
structure CommandOutput where
  code : Option Nat
  stdout : String
  stderr : String
  deriving Repr, DecidableEq

def CommandOutput.success (o : CommandOutput) : Bool := o.code == some 0

namespace Command

/-- Lines are kept as long as the kept text stays below this many bytes. -/
def captureLimit : Nat := 64 * 1024

/-- Puts a byte before lines of bytes, each with a mark that a line feed ended it. -/
def consByte (b : UInt8) (lines : List (List UInt8 × Bool)) : List (List UInt8 × Bool) :=
  if b = 10 then ([], true) :: lines
  else match lines with
    | [] => [([b], false)]
    | (line, ended) :: rest => (b :: line, ended) :: rest

/-- The bytes between line feeds, with a mark on those that a line feed followed. -/
def byteLines (bytes : List UInt8) : List (List UInt8 × Bool) := bytes.foldr consByte []

/-- The text of a line without its line end; none if the bytes are no text. -/
def lineText? (line : List UInt8 × Bool) : Option String :=
  let (bytes, ended) := line
  FileTree.decodeText?
    (if ended && bytes.getLast? == some 13 then bytes.dropLast else bytes)

/-- Whether the bytes of a line are a text. -/
def isText (line : List UInt8 × Bool) : Bool := (FileTree.decodeText? line.1).isSome

/-- Keeps those lines for which there is room; `size` bytes are kept already. -/
def keepLines : Nat → List String → List String
  | _, [] => []
  | size, line :: rest =>
    if size + line.utf8ByteSize < captureLimit then
      line :: keepLines (size + line.utf8ByteSize + 1) rest
    else keepLines size rest

/-- What is kept of an output: its lines up to the first that is no text, each ended by a line
feed, without those for which there is no room. -/
def capture (bytes : List UInt8) : String :=
  let texts := ((byteLines bytes).takeWhile isText).filterMap lineText?
  String.join ((keepLines 0 texts).map (· ++ "\n"))

/-- Runs a command for at most the given number of milliseconds. Also gives the files after that. -/
def run (launch : Launcher) (fs : FileTree) (limitMs : Nat) (cancelled : Bool) (c : Command) :
    Except RunError CommandOutput × FileTree :=
  match launch fs limitMs c with
  | .error e => (.error (.spawn c.program e), fs)
  | .ok execution =>
    if cancelled then (.error .cancelled, fs)
    else
      let output (code : Option Nat) : CommandOutput :=
        ⟨code, capture execution.stdout, capture execution.stderr⟩
      match execution.finish with
      | .outlasts => (.error (.timedOut limitMs), execution.files)
      | .killed => (.ok (output none), execution.files)
      | .exited code => (.ok (output (some code)), execution.files)

end Command

end JavaAtlas
