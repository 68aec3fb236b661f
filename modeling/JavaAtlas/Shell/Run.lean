import JavaAtlas.Shell.Arithmetic
import JavaAtlas.Shell.Fields
import JavaAtlas.Shell.Machine
import JavaAtlas.Shell.Reader
import JavaAtlas.Shell.Tools

/-!
Running scripts on a file tree, and starting commands as a system does: a tool by its name, or a
script by its path.
-/

namespace JavaAtlas.Shell

open FileTree (encodeText decodeText?)

/-- The text of an output without the line ends at its end. -/
def outputText (bytes : List UInt8) : String :=
  (decodeText? (bytes.reverse.dropWhile (· == 10)).reverse).getD ""

/-- The milliseconds that a decimal number of seconds names. -/
def milliseconds (s : String) : Nat :=
  let (whole, fraction) := s.toList.span (· != '.')
  let number (cs : List Char) : Nat := ((String.ofList cs).toNat?).getD 0
  number (whole.filter Char.isDigit) * 1000 +
    number (((fraction.filter Char.isDigit) ++ ['0', '0', '0']).take 3)

namespace Machine

variable (m : Machine)

/-- Writes a message of the shell itself. -/
def complain (channels : Channels) (line : Nat) (text : String) (code : Nat) : Machine :=
  (m.write (channels.lookup 2)
    (encodeText (m.name ++ ": " ++ toString line ++ ": " ++ text ++ "\n"))).withStatus code

/-- Runs a tool. -/
def call (channels : Channels) (tool : Tool) (args : List String) : Machine :=
  let r := tool m.files m.input args
  ((({ m with files := r.files }).write (channels.lookup 1) r.out).write (channels.lookup 2)
    (encodeText r.err)).withStatus r.code

/-- Opens a file for output. -/
def openFile (appending : Bool) (path : String) : Except IoError (Machine × Channel) :=
  if path == "/dev/null" then .ok (m, .nowhere)
  else do
    let fs := m.files
    let kept := if appending then (fs.readBytes path).toOption.getD [] else []
    let made ← fs.write path kept
    return ({ m with files := made }, .file (← made.locate path))

/-- Carries out a redirection to a target, and says whether that worked. -/
def redirect (channels : Channels) (descriptor : Nat) (mode : RedirectMode) (target : String) :
    Machine × Channels × Bool :=
  let others := channels.filter (·.1 != descriptor)
  let refuse (what missing : String) (e : IoError) : Machine × Channels × Bool :=
    let reason := if e == .notFound then missing else e.reason
    (m.complain channels 1 (what ++ " " ++ target ++ ": " ++ reason) 2, channels, false)
  let opened (appending : Bool) : Machine × Channels × Bool :=
    match m.openFile appending target with
    | .ok (m, channel) => (m, (descriptor, channel) :: others, true)
    | .error e => refuse "cannot create" "Directory nonexistent" e
  match mode with
  | .write => opened false
  | .append => opened true
  | .duplicate =>
    match (target.toNat?).bind fun n => channels.lookup n with
    | some channel => (m, (descriptor, channel) :: others, true)
    | none => (m, others, true)
  | .read =>
    match Tools.readInput m.files [] target with
    | .ok bytes => ({ m with input := bytes }, channels, true)
    | .error e => refuse "cannot open" "No such file" e

/-- Lets a jump end here. -/
def absorb (jump : Jump) : Machine := if m.jump == some jump then { m with jump := none } else m

/-- After a round of a loop: whether it goes on. -/
def afterRound : Machine × Bool :=
  match m.jump with
  | none => (m, true)
  | some (.nextRound n) =>
    if n ≤ 1 then ({ m with jump := none }, true)
    else ({ m with jump := some (.nextRound (n - 1)) }, false)
  | some (.leaveLoop n) =>
    ({ m with jump := if n ≤ 1 then none else some (.leaveLoop (n - 1)) }, false)
  | some _ => (m, false)

/-- The state after a part that ran on its own: only files, output and time go on from it, and an
end that ends everything. -/
def afterChild (child : Machine) : Machine :=
  let code := match child.jump with
    | some (.halt (.exited code)) => code
    | some (.halt .killed) => 137
    | _ => child.status
  let jump := match child.jump with
    | some (.halt .outlasts) => child.jump
    | _ => none
  { m with
    files := { child.files with cwd := m.files.cwd }
    buffers := child.buffers
    elapsedMs := child.elapsedMs
    jump
    status := code % 256 }

/-- Like `afterChild`, for a part that shares the process: a signal ends both. -/
def afterSubshell (child : Machine) : Machine :=
  if child.jump == some (.halt .killed) then { m.afterChild child with jump := child.jump }
  else m.afterChild child

/-- Applies an operator to the value of a parameter, where it needs no more than a pattern. -/
def trimValue (operator : String) (pattern : List Marked) (value : String) : String :=
  let gs := Glob.parse pattern
  let cs := value.toList
  String.ofList (match operator with
    | "#" => Glob.dropFront false gs cs
    | "##" => Glob.dropFront true gs cs
    | "%" => Glob.dropBack false gs cs
    | _ => Glob.dropBack true gs cs)

def numberOf (name : String) : Int := ((m.parameter name).bind String.toInt?).getD 0

/-- Takes a line from the input. -/
def readLine (names : List String) : Machine :=
  let (line, rest) := m.input.span (· != 10)
  let next := match names.getLast? with
    | some name => m.assign name ((decodeText? line).getD "")
    | none => m
  { next with input := rest.drop 1 }.withStatus (if m.input.isEmpty then 1 else 0)

end Machine

/-- The number that an argument names, if there is one. -/
def countArg (args : List String) (other : Nat) : Nat := (args.head?.bind String.toNat?).getD other

/-- Commands that the shell does itself, where no other script is run. -/
def builtin? (channels : Channels) (line : Nat) (name : String) (args : List String)
    (m : Machine) : Option Machine :=
  match name with
  | ":" | "set" | "trap" | "umask" | "wait" => some (m.withStatus 0)
  | "exit" => some (m.halt (.exited (countArg args m.status % 256)))
  | "return" =>
    some { m.withStatus (countArg args m.status) with jump := some .leaveFunction }
  | "break" => some { m.withStatus 0 with jump := some (.leaveLoop (countArg args 1)) }
  | "continue" => some { m.withStatus 0 with jump := some (.nextRound (countArg args 1)) }
  | "shift" => some ({ m with args := m.args.drop (countArg args 1) }.withStatus 0)
  | "unset" => some ((args.foldl Machine.unassign m).withStatus 0)
  | "export" | "readonly" | "local" =>
    some ((args.foldl (fun m a => match Text.cutFirst? '=' a with
      | some (name, value) => m.assign name value
      | none => m) m).withStatus 0)
  | "read" => some (m.readLine (args.filter (· != "-r")))
  | "cd" =>
    match m.files.locate (args.headD "/") with
    | .ok loc =>
      if m.files.isDirAt loc then
        some ({ m with files := { m.files with cwd := loc } }.withStatus 0)
      else some (m.complain channels line ("cd: can't cd to " ++ args.headD "") 2)
    | .error _ => some (m.complain channels line ("cd: can't cd to " ++ args.headD "") 2)
  | "sleep" => some ((m.wait (args.foldl (fun n a => n + milliseconds a) 0)).withStatus 0)
  | "kill" =>
    if args.getLast? == some (toString m.pid) then
      some (if args.contains "-0" then m.withStatus 0 else m.halt .killed)
    else some (m.complain channels line "kill: No such process" 1)
  | _ => none

/-- What a program is: a tool, the shell, or a script with its text. -/
inductive Program where
  | tool (name : String)
  | shell
  | script (source : String)
  deriving Repr, DecidableEq

/-- Programs that are found by their name alone. -/
def Program.ofName? (name : String) : Option Program :=
  if name == "sh" then some .shell
  else if name == "sleep" || name == "kill" || (Tools.find? false name).isSome then
    some (.tool name)
  else none

/-- The program that the first line of a file asks for. -/
def Program.ofContent (content : List UInt8) : Except IoError Program :=
  let text := (decodeText? content).getD ""
  match Text.dropStart? "#!".toList text.toList with
  | none => .error .badFormat
  | some rest =>
    let interpreter := String.ofList (rest.takeWhile fun c => c != '\n' && c != ' ')
    if interpreter == "/bin/sh" || interpreter == "/usr/bin/sh" || interpreter == "/usr/bin/env" then
      .ok (.script text)
    else .error .notFound

/-- The program at a path or of a name. -/
def Program.find (fs : FileTree) (name : String) : Except IoError Program :=
  if !Text.hasChar '/' name then
    match ofName? name with
    | some program => .ok program
    | none => .error .notFound
  else
    let system := ["/bin/", "/usr/bin/"].findSome? fun dir =>
      (Text.dropStart? dir.toList name.toList).bind fun rest => ofName? (String.ofList rest)
    match system, fs.status name with
    | some program, _ => .ok program
    | none, .ok (.file content true) => ofContent content
    | none, .ok _ => .error .denied
    | none, .error e => .error e

mutual

/-- Runs a script. What it costs is bounded by the fuel; without any left it does not end. -/
def eval : Nat → Channels → Script → Machine → Machine
  | 0, _, _, m => m.halt .outlasts
  | fuel + 1, channels, script, m =>
    if m.jump.isSome then m
    else match script with
      | .simple line assignments words =>
        let (m, fields) := words.foldl (fun (m, fields) w =>
          let (m, pieces) := expand fuel channels true w m
          (m, fields ++ (Piece.fields pieces).flatMap (fieldValues m.files))) (m, [])
        let (m, values) := assignments.foldl (fun (m, values) (name, w) =>
          let (m, pieces) := expand fuel channels false w m
          (m, values ++ [(name, plainText (Piece.marked pieces))])) (m, [])
        let assigned := values.foldl (fun m (name, value) => m.assign name value) m
        if m.jump.isSome then m
        else match fields with
          | [] => if words.isEmpty && values.isEmpty then m else assigned
          | name :: args =>
            let after := runCommand fuel channels line name args assigned
            if values.isEmpty then after else { after with bindings := m.bindings }
      | .redirected body redirects =>
        let opened := redirects.foldl (fun state r =>
          match state with
          | (m, channels, false) => (m, channels, false)
          | (m, channels, true) =>
            let (m, pieces) := expand fuel channels false r.target m
            m.redirect channels r.descriptor r.mode (plainText (Piece.marked pieces)))
          (m, channels, true)
        match opened with
        | (after, _, false) => { after with input := m.input }
        | (ready, inner, true) =>
          let after := eval fuel inner body ready
          if redirects.any (·.mode == .read) then { after with input := m.input } else after
      | .sequence items => items.foldl (fun m item => eval fuel channels item m) m
      | .both first second =>
        let m := eval fuel channels first m
        if m.jump.isNone && m.status == 0 then eval fuel channels second m else m
      | .either first second =>
        let m := eval fuel channels first m
        if m.jump.isNone && m.status != 0 then eval fuel channels second m else m
      | .negated body =>
        let m := eval fuel channels body m
        if m.jump.isSome then m else m.withStatus (if m.status == 0 then 1 else 0)
      | .pipe source sink =>
        let n := m.buffers.length
        let first := eval fuel ((1, .buffer n) :: channels.filter (·.1 != 1)) source m.openBuffer
        let between := m.afterSubshell first
        if between.jump.isSome then between
        else
          let input := between.contents n
          let second := eval fuel channels sink { between.dropBuffers n with input }
          { between.afterSubshell second with input := m.input }
      | .subshell body => m.afterSubshell (eval fuel channels body m)
      | .conditional test body otherwise =>
        let m := eval fuel channels test m
        if m.jump.isSome then m
        else if m.status == 0 then eval fuel channels body m
        else eval fuel channels otherwise (m.withStatus 0)
      | .loop holds test body =>
        let m := eval fuel channels test m
        if m.jump.isSome then m
        else if (m.status == 0) != holds then m.withStatus 0
        else
          match (eval fuel channels body m).afterRound with
          | (m, true) => eval fuel channels (.loop holds test body) m
          | (m, false) => m
      | .each name words body =>
        let (m, values) := match words with
          | none => (m, m.args)
          | some words => words.foldl (fun (m, values) w =>
              let (m, pieces) := expand fuel channels true w m
              (m, values ++ (Piece.fields pieces).flatMap (fieldValues m.files))) (m, [])
        (values.foldl (fun (m, goesOn) value =>
          if goesOn then (eval fuel channels body (m.assign name value)).afterRound
          else (m, false)) (m.withStatus 0, true)).1
      | .choice word arms =>
        let (m, pieces) := expand fuel channels false word m
        let value := (Piece.marked pieces).map (·.1)
        let (m, found) := arms.foldl (fun (m, found) (patterns, body) =>
          match found with
          | some body => (m, some body)
          | none => patterns.foldl (fun (m, found) p =>
              let (m, pieces) := expand fuel channels false p m
              (m, if Glob.fits (Glob.parse (Piece.marked pieces)) value then some body else found))
              (m, none)) (m, none)
        match found with
        | some body => eval fuel channels body (m.withStatus 0)
        | none => m.withStatus 0
      | .function name body => { m with functions := (name, body) :: m.functions }

/-- The pieces of the value of a word. -/
def expand : Nat → Channels → Bool → Word → Machine → Machine × List Piece
  | 0, _, _, _, m => (m.halt .outlasts, [])
  | fuel + 1, channels, splits, word, m =>
    word.foldl (fun (m, pieces) part =>
      let (m, more) := expandPart fuel channels splits part m
      (m, pieces ++ more)) (m, [])

def expandPart : Nat → Channels → Bool → Part → Machine → Machine × List Piece
  | 0, _, _, _, m => (m.halt .outlasts, [])
  | fuel + 1, channels, splits, part, m =>
    let give (m : Machine) (value : String) (quoted : Bool) : Machine × List Piece :=
      (m, if quoted || !splits then [.chars value.toList quoted] else Piece.split value.toList)
    match part with
    | .text s quoted => (m, [.chars s.toList quoted])
    | .expansion (.parameter "@") quoted =>
      if !splits then give m ((m.parameter "@").getD "") quoted
      else (m, (m.args.map fun a =>
        if quoted then [Piece.chars a.toList true] else Piece.split a.toList).intersperse
          [.separator] |>.flatten)
    | .expansion (.parameter name) quoted => give m ((m.parameter name).getD "") quoted
    | .expansion (.arithmetic source) quoted =>
      let (m, pieces) := expand fuel channels false (Reader.wholeWord source) m
      let text := plainText (Piece.marked pieces)
      match Arithmetic.evaluate? m.numberOf text with
      | some n => give m (toString n) quoted
      | none =>
        ((m.complain channels 1 ("arithmetic expression: expecting primary: \"" ++ text ++ "\"")
          2).halt (.exited 2), [])
    | .expansion (.command source) quoted =>
      match Script.parse? source with
      | none => (m.withStatus 2, [])
      | some script =>
        let n := m.buffers.length
        let inner := (1, Channel.buffer n) :: channels.filter (·.1 != 1)
        let after := m.afterSubshell (eval fuel inner script m.openBuffer)
        give (after.dropBuffers n) (outputText (after.contents n)) quoted
    | .expansion (.modified name operator word) quoted =>
      let value := m.parameter name
      let missing := match operator.toList.head? with
        | some ':' => (value.getD "").isEmpty
        | _ => value.isNone
      let (after, pieces) := expand fuel channels false (Reader.wholeWord word) m
      let text := plainText (Piece.marked pieces)
      match operator with
      | "length" => give m (toString (value.getD "").length) quoted
      | "-" | ":-" => if missing then give after text quoted else give m (value.getD "") quoted
      | "=" | ":=" =>
        if missing then give (after.assign name text) text quoted else give m (value.getD "") quoted
      | "+" | ":+" => if missing then give m "" quoted else give after text quoted
      | _ => give after (Machine.trimValue operator (Piece.marked pieces) (value.getD "")) quoted

/-- Runs a command by its name: a function, a command of the shell, or a program. -/
def runCommand : Nat → Channels → Nat → String → List String → Machine → Machine
  | 0, _, _, _, _, m => m.halt .outlasts
  | fuel + 1, channels, line, name, args, m =>
    match m.functions.lookup name with
    | some body =>
      let after := (eval fuel channels body { m with args }).absorb .leaveFunction
      { after with args := m.args }
    | none =>
      match name, args with
      | "exec", [] => m.withStatus 0
      | "exec", program :: args =>
        let after := runCommand fuel channels line program args m
        if after.jump.isSome then after else after.halt (.exited after.status)
      | "eval", args =>
        match Script.parse? (Text.joinWith " " args) with
        | some script => eval fuel channels script m
        | none => m.withStatus 2
      | _, _ =>
        match builtin? channels line name args m, Tools.find? true name with
        | some after, _ => after
        | none, some tool => m.call channels tool args
        | none, none =>
          match Program.find m.files name with
          | .ok program => m.afterChild (runProgram fuel channels program name args m)
          | .error .denied => m.complain channels line (name ++ ": Permission denied") 126
          | .error _ => m.complain channels line (name ++ ": not found") 127

/-- Runs a program in a process of its own. -/
def runProgram : Nat → Channels → Program → String → List String → Machine → Machine
  | 0, _, _, _, _, m => m.halt .outlasts
  | fuel + 1, channels, program, name, args, m =>
    let fresh : Machine := { m with
      name, args, bindings := [], functions := [], status := 0, pid := m.pid + 1, jump := none }
    let runSource (source : String) (m : Machine) : Machine :=
      match Script.parse? source with
      | some script => eval fuel channels script m
      | none => m.complain channels 1 "Syntax error" 2
    match program with
    | .tool tool =>
      match Tools.find? false tool with
      | some t => fresh.call channels t args
      | none => (builtin? channels 1 tool args fresh).getD (fresh.withStatus 127)
    | .script source => runSource source fresh
    | .shell =>
      match args.dropWhile (fun a => a.toList.head? == some '-' && !Text.hasChar 'c' a) with
      | [] => fresh.withStatus 0
      | first :: rest =>
        if first.toList.head? == some '-' then
          match rest with
          | [] => fresh.complain channels 0 "-c requires an argument" 2
          | [source] => runSource source { fresh with args := [] }
          | source :: named :: args => runSource source { fresh with name := named, args }
        else
          match m.files.readText first with
          | .ok source => runSource source { fresh with name := first, args := rest }
          | .error _ => fresh.complain channels 0 ("cannot open " ++ first ++ ": No such file") 2

end

/-- How long a script may run, in steps. -/
def fuelLimit : Nat := 1000000

/-- Starts a command and lets it run. -/
def launch : Launcher := fun fs limitMs c => do
  if (c.program :: c.args).any (Text.hasChar '\x00') then throw .nulByte
  let cwd ← match c.directory with
    | none => pure fs.cwd
    | some dir => do
      let loc ← fs.locate dir
      if fs.isDirAt loc then pure loc else throw .notDirectory
  let inside := { fs with cwd }
  let program ← Program.find inside c.program
  let start : Machine := {
    files := inside
    name := c.program
    args := []
    bindings := []
    functions := []
    status := 0
    input := []
    buffers := [[], []]
    elapsedMs := 0
    limitMs
    pid := 4241
    jump := none }
  let done := runProgram fuelLimit [(1, .buffer 0), (2, .buffer 1)] program c.program c.args start
  return {
    finish := match done.jump with
      | some (.halt finish) => finish
      | _ => .exited done.status
    stdout := done.contents 0
    stderr := done.contents 1
    files := { done.files with cwd := fs.cwd } }

end JavaAtlas.Shell
