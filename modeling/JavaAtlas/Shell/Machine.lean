import JavaAtlas.Command
import JavaAtlas.Shell.Script

/-!
The state of a running shell: files, variables, what waits to be read and what was written.
-/

namespace JavaAtlas.Shell

/-- Where output goes. -/
inductive Channel where
  | buffer (n : Nat)
  | file (loc : Location)
  | nowhere
  deriving Repr, DecidableEq

/-- The channels of the descriptors that are open for output. -/
abbrev Channels := List (Nat × Channel)

/-- Why the commands that follow are not run. -/
inductive Jump where
  | halt (finish : Finish)
  | leaveLoop (levels : Nat)
  | nextRound (levels : Nat)
  | leaveFunction
  deriving Repr, DecidableEq

/-- A shell. The buffers hold what was written, in pieces and last first. -/
structure Machine where
  files : FileTree
  name : String
  args : List String
  bindings : List (String × String)
  functions : List (String × Script)
  status : Nat
  input : List UInt8
  buffers : List (List (List UInt8))
  elapsedMs : Nat
  limitMs : Nat
  pid : Nat
  jump : Option Jump

namespace Machine

variable (m : Machine)

def withStatus (code : Nat) : Machine := { m with status := code % 256 }

def halt (finish : Finish) : Machine := { m with jump := some (.halt finish) }

def lookup (name : String) : Option String := m.bindings.lookup name

def assign (name value : String) : Machine :=
  { m with bindings := (name, value) :: m.bindings.filter (·.1 != name) }

def unassign (name : String) : Machine :=
  { m with bindings := m.bindings.filter (·.1 != name) }

/-- The value of a parameter; the arguments with blanks between them for all of them. -/
def parameter (name : String) : Option String :=
  match name with
  | "@" | "*" => if m.args.isEmpty then none else some (Text.joinWith " " m.args)
  | "#" => some (toString m.args.length)
  | "?" => some (toString m.status)
  | "$" => some (toString m.pid)
  | "-" => some ""
  | "0" => some m.name
  | _ =>
    match name.toNat? with
    | some n => if n = 0 then none else m.args[n - 1]?
    | none => m.lookup name

/-- Lets time pass. A shell that runs beyond its limit does not come to an end. -/
def wait (ms : Nat) : Machine :=
  let m := { m with elapsedMs := m.elapsedMs + ms }
  if m.limitMs ≤ m.elapsedMs then m.halt .outlasts else m

/-- Writes bytes to a channel. -/
def write (channel : Option Channel) (bytes : List UInt8) : Machine :=
  if bytes.isEmpty then m
  else match channel with
    | some (.buffer n) => { m with buffers := m.buffers.modify n (bytes :: ·) }
    | some (.file loc) =>
      match m.files.entry? loc with
      | some (.file content executable) =>
        { m with files := m.files.insert loc (.file (content ++ bytes) executable) }
      | _ => m
    | _ => m

/-- Opens a new buffer, which comes last. -/
def openBuffer : Machine := { m with buffers := m.buffers ++ [[]] }

/-- What a buffer holds. -/
def contents (n : Nat) : List UInt8 := ((m.buffers[n]?).getD []).reverse.flatten

/-- Gives up the buffers from number `n` on. -/
def dropBuffers (n : Nat) : Machine := { m with buffers := m.buffers.take n }

end Machine

end JavaAtlas.Shell
