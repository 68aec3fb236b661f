import JavaAtlas.FileTree

/-!
The tools that scripts call: each takes its arguments and its input, and gives a code, what it
writes, and the files after that.
-/

namespace JavaAtlas.Shell

/-- What a tool did. -/
structure ToolResult where
  code : Nat
  out : List UInt8
  err : String
  files : FileTree

abbrev Tool := FileTree → List UInt8 → List String → ToolResult

namespace Tools

open FileTree (encodeText)

def isOctal (c : Char) : Bool := '0' ≤ c && c ≤ '7'

def octalValue (cs : List Char) : Nat := cs.foldl (fun n c => 8 * n + (c.toNat - '0'.toNat)) 0

/-- The byte that one letter after a backslash stands for. -/
def escapeByte? : Char → Option UInt8
  | 'a' => some 7
  | 'b' => some 8
  | 'f' => some 12
  | 'n' => some 10
  | 'r' => some 13
  | 't' => some 9
  | 'v' => some 11
  | '\\' => some 92
  | _ => none

/-- The bytes of a text with backslash sequences, and whether one of them ended the output. An
octal number has up to three digits; with `zeroFirst` a zero may come before them. -/
def unescape (zeroFirst : Bool) : Nat → List Char → List UInt8 × Bool
  | 0, _ => ([], false)
  | _ + 1, [] => ([], false)
  | fuel + 1, '\\' :: c :: cs =>
    if c = 'c' then ([], true)
    else if isOctal c then
      let digits := if zeroFirst && c = '0' then cs else c :: cs
      let octal := (digits.takeWhile isOctal).take 3
      let (more, ended) := unescape zeroFirst fuel (digits.drop octal.length)
      (UInt8.ofNat (octalValue octal) :: more, ended)
    else
      let (more, ended) := unescape zeroFirst fuel cs
      match escapeByte? c with
      | some b => (b :: more, ended)
      | none => (encodeText (String.ofList ['\\', c]) ++ more, ended)
  | fuel + 1, c :: cs =>
    let (more, ended) := unescape zeroFirst fuel cs
    (encodeText (String.singleton c) ++ more, ended)

/-- Writes its arguments with blanks between them. Within the shell, backslash sequences are
read. -/
def echo (builtin : Bool) : Tool := fun fs _ args =>
  let (quiet, args) := match args with
    | "-n" :: rest => (true, rest)
    | _ => (false, args)
  let text := Text.joinWith " " args
  let (bytes, ended) :=
    if builtin then unescape true (text.length + 1) text.toList else (encodeText text, false)
  ⟨0, if quiet || ended then bytes else bytes ++ [10], "", fs⟩

/-- Fills a text up to a width. -/
def pad (left zero : Bool) (width : Nat) (text : List Char) : List Char :=
  let missing := width - text.length
  if left then text ++ List.replicate missing ' '
  else if zero then List.replicate missing '0' ++ text
  else List.replicate missing ' ' ++ text

/-- A conversion of a format: its flags, width, precision and letter, and what follows it. -/
def readConversion (cs : List Char) : List Char × Nat × Option Nat × Option Char × List Char :=
  let (flags, cs) := cs.span ("-0+ #".toList.contains ·)
  let (width, cs) := cs.span Char.isDigit
  let (precision, cs) := match cs with
    | '.' :: rest => (some (rest.takeWhile Char.isDigit), rest.dropWhile Char.isDigit)
    | _ => (none, cs)
  let number (ds : List Char) : Nat := ((String.ofList ds).toNat?).getD 0
  (flags, number width, precision.map number, cs.head?, cs.tail)

/-- The text of an argument under a conversion. -/
def convert (letter : Char) (precision : Option Nat) (arg : String) : List Char :=
  match letter with
  | 's' | 'b' => match precision with
    | some n => arg.toList.take n
    | none => arg.toList
  | 'c' => arg.toList.take 1
  | 'x' => Nat.toDigits 16 ((arg.toNat?).getD 0)
  | 'o' => Nat.toDigits 8 ((arg.toNat?).getD 0)
  | _ => (toString ((arg.toInt?).getD 0)).toList

/-- Goes once through a format. Also gives the arguments that are left. -/
def formatOnce : Nat → List Char → List String → List UInt8 × List String
  | 0, _, args => ([], args)
  | _ + 1, [], args => ([], args)
  | fuel + 1, '%' :: '%' :: cs, args =>
    let (more, args) := formatOnce fuel cs args
    (37 :: more, args)
  | fuel + 1, '%' :: cs, args =>
    let (flags, width, precision, letter, rest) := readConversion cs
    let shown := convert (letter.getD 's') precision (args.headD "")
    let padded := pad (flags.contains '-') (flags.contains '0') width shown
    let bytes := if letter == some 'b' then (unescape true (padded.length + 1) padded).1
      else encodeText (String.ofList padded)
    let (more, args) := formatOnce fuel rest args.tail
    (bytes ++ more, args)
  | fuel + 1, '\\' :: c :: cs, args =>
    let size := if isOctal c then ((c :: cs).takeWhile isOctal).length.min 3 else 1
    let (bytes, _) := unescape false (size + 2) ('\\' :: (c :: cs).take size)
    let (more, args) := formatOnce fuel ((c :: cs).drop size) args
    (bytes ++ more, args)
  | fuel + 1, c :: cs, args =>
    let (more, args) := formatOnce fuel cs args
    (encodeText (String.singleton c) ++ more, args)

/-- Goes through a format as often as there are arguments for it. -/
def formatAll : Nat → List Char → List String → List UInt8
  | 0, _, _ => []
  | fuel + 1, format, args =>
    let (bytes, rest) := formatOnce (format.length + 1) format args
    if rest.isEmpty || rest.length == args.length then bytes
    else bytes ++ formatAll fuel format rest

def printf : Tool := fun fs _ args =>
  match args with
  | [] => ⟨2, [], "printf: usage: printf format [arg ...]\n", fs⟩
  | format :: rest => ⟨0, formatAll (rest.length + 1) format.toList rest, "", fs⟩

/-- The bytes of a file or a device; a dash is the input. -/
def readInput (fs : FileTree) (input : List UInt8) (name : String) :
    Except IoError (List UInt8) :=
  match name with
  | "-" => .ok input
  | "/dev/null" => .ok []
  | _ => fs.readBytes name

/-- Adds up what is read from several files, with a message for each that cannot be read. -/
def readAll (fs : FileTree) (names : List String) (read : String → Except IoError (List UInt8))
    (complain : String → IoError → String) : ToolResult :=
  names.foldl (fun r name =>
    match read name with
    | .ok bytes => { r with out := r.out ++ bytes }
    | .error e => { r with code := 1, err := r.err ++ complain name e }) ⟨0, [], "", fs⟩

def orInput (names : List String) : List String := if names.isEmpty then ["-"] else names

def cat : Tool := fun fs input args =>
  readAll fs (orInput args) (readInput fs input) fun name e =>
    "cat: " ++ name ++ ": " ++ e.reason ++ "\n"

/-- So much of a file: a number of bytes or of lines. -/
inductive Amount where
  | bytes (n : Nat)
  | lines (n : Nat)

/-- The first lines of bytes. -/
def takeLines : Nat → List UInt8 → List UInt8
  | 0, _ => []
  | _ + 1, [] => []
  | n + 1, b :: bs => b :: takeLines (if b = 10 then n else n + 1) bs

def Amount.take : Amount → List UInt8 → List UInt8
  | bytes n, content => content.take n
  | lines n, content => takeLines n content

/-- The options of `head` and the files it is to read. -/
def headOptions : Amount → List String → Amount × List String
  | amount, [] => (amount, [])
  | _, "-c" :: n :: rest => headOptions (.bytes ((n.toNat?).getD 0)) rest
  | _, "-n" :: n :: rest => headOptions (.lines ((n.toNat?).getD 0)) rest
  | amount, arg :: rest =>
    match arg.toList with
    | '-' :: 'c' :: n => headOptions (.bytes (((String.ofList n).toNat?).getD 0)) rest
    | '-' :: 'n' :: n => headOptions (.lines (((String.ofList n).toNat?).getD 0)) rest
    | '-' :: n =>
      match (String.ofList n).toNat? with
      | some n => headOptions (.lines n) rest
      | none => let (a, names) := headOptions amount rest; (a, arg :: names)
    | _ => let (a, names) := headOptions amount rest; (a, arg :: names)

def head : Tool := fun fs input args =>
  let (amount, names) := headOptions (.lines 10) args
  let read (name : String) : Except IoError (List UInt8) :=
    match name, amount with
    | "/dev/zero", .bytes n => .ok (List.replicate n 0)
    | _, _ => (readInput fs input name).map amount.take
  readAll fs (orInput names) read fun name e =>
    "head: cannot open '" ++ name ++ "' for reading: " ++ e.reason ++ "\n"

/-- Bytes with the ranges between two of them filled in. -/
def fillRanges : List UInt8 → List UInt8
  | lo :: 45 :: hi :: rest =>
    (List.range (hi.toNat + 1 - lo.toNat)).map (fun i => UInt8.ofNat (lo.toNat + i)) ++ fillRanges rest
  | b :: rest => b :: fillRanges rest
  | [] => []

def byteSet (s : String) : List UInt8 := fillRanges (unescape false (s.length + 1) s.toList).1

/-- The byte of the second set at the place of a byte in the first; the last byte of the second set
stands for all that are missing. -/
def mapByte (source target : List UInt8) (b : UInt8) : UInt8 :=
  match source.findIdx? (· == b) with
  | some i => (target[i]?).getD ((target.getLast?).getD b)
  | none => b

def tr : Tool := fun fs input args =>
  match args with
  | ["-d", set] =>
    let gone := byteSet set
    ⟨0, input.filter (!gone.contains ·), "", fs⟩
  | [source, target] => ⟨0, input.map (mapByte (byteSet source) (byteSet target)), "", fs⟩
  | _ => ⟨1, [], "tr: missing operand\n", fs⟩

def pwd : Tool := fun fs _ _ => ⟨0, encodeText (FileTree.pathOf fs.cwd ++ "\n"), "", fs⟩

/-- Arguments that are options, and the others. -/
def splitOptions (args : List String) : List String × List String :=
  args.partition fun a => a.length > 1 && a.toList.head? == some '-'

def listNames (all : Bool) (names : List String) : String :=
  String.join ((names.filter fun n => all || n.toList.head? != some '.').map (· ++ "\n"))

def ls : Tool := fun fs _ args =>
  let (options, operands) := splitOptions args
  let all := options.any fun o => Text.hasChar 'a' o || Text.hasChar 'A' o
  let targets := if operands.isEmpty then ["."] else operands
  let err := String.join (targets.filterMap fun t => match fs.status t with
    | .ok _ => none
    | .error e => some ("ls: cannot access '" ++ t ++ "': " ++ e.reason ++ "\n"))
  let files := targets.filter fun t => fs.pathExists t && !fs.isDir t
  let dirs := targets.filter fs.isDir
  let dirText (d : String) : String := listNames all ((fs.readDir d).toOption.getD [])
  let shown := String.join (files.map (· ++ "\n"))
  let blocks := dirs.map fun d => if targets.length = 1 then dirText d else d ++ ":\n" ++ dirText d
  let text := Text.joinWith "\n" ((if shown.isEmpty then [] else [shown]) ++ blocks)
  ⟨if err.isEmpty then 0 else 2, encodeText text, err, fs⟩

def rm : Tool := fun fs _ args =>
  let (options, operands) := splitOptions args
  let has (c : Char) : Bool := options.any (Text.hasChar c)
  operands.foldl (fun r name =>
    let refuse (e : IoError) : ToolResult :=
      { r with code := 1, err := r.err ++ "rm: cannot remove '" ++ name ++ "': " ++ e.reason ++ "\n" }
    match r.files.locateLink name with
    | .error e => if has 'f' then r else refuse e
    | .ok loc =>
      if !r.files.isDirAt loc then { r with files := r.files.erase loc }
      else if has 'r' || has 'R' then { r with files := r.files.removeTree name }
      else refuse .isDirectory) ⟨0, [], "", fs⟩

/-- Compares two numbers. -/
def compare? (op : String) (a b : Int) : Option Bool :=
  match op with
  | "-eq" => some (a == b)
  | "-ne" => some (a != b)
  | "-lt" => some (a < b)
  | "-le" => some (a ≤ b)
  | "-gt" => some (a > b)
  | "-ge" => some (a ≥ b)
  | _ => none

/-- A condition; none if it is not well formed. -/
def holds? (fs : FileTree) : List String → Option Bool
  | [] => some false
  | "!" :: rest => (holds? fs rest).map (!·)
  | [s] => some (!s.isEmpty)
  | ["-n", s] => some (!s.isEmpty)
  | ["-z", s] => some s.isEmpty
  | ["-e", p] => some (fs.pathExists p)
  | ["-f", p] => some (fs.isFile p)
  | ["-d", p] => some (fs.isDir p)
  | ["-r", p] | ["-w", p] => some (fs.pathExists p)
  | ["-s", p] => some (((fs.readBytes p).toOption.getD []) != [])
  | ["-x", p] => some (match fs.status p with
    | .ok (.file _ executable) => executable
    | .ok .dir => true
    | _ => false)
  | ["-L", p] | ["-h", p] => some (match fs.locateLink p with
    | .ok loc => match fs.entry? loc with
      | some (.link _) => true
      | _ => false
    | .error _ => false)
  | [a, "=", b] => some (a == b)
  | [a, "!=", b] => some (a != b)
  | [a, op, b] => do compare? op (← a.toInt?) (← b.toInt?)
  | _ => none

def test : Tool := fun fs _ args =>
  match holds? fs args with
  | some true => ⟨0, [], "", fs⟩
  | some false => ⟨1, [], "", fs⟩
  | none => ⟨2, [], "", fs⟩

/-- The tools by their names; within the shell `echo` reads backslash sequences. -/
def find? (builtin : Bool) (name : String) : Option Tool :=
  match name with
  | "echo" => some (echo builtin)
  | "printf" => some printf
  | "cat" => some cat
  | "head" => some head
  | "tr" => some tr
  | "pwd" => some pwd
  | "ls" => some ls
  | "rm" => some rm
  | "true" => some fun fs _ _ => ⟨0, [], "", fs⟩
  | "false" => some fun fs _ _ => ⟨1, [], "", fs⟩
  | "test" => some test
  | "[" => some fun fs input args =>
    if args.getLast? == some "]" then test fs input args.dropLast else ⟨2, [], "", fs⟩
  | _ => none

end Tools

end JavaAtlas.Shell
