import JavaAtlas.Path

/-!
A file system as a value: directories, files and symbolic links, each at its location. A path is
resolved name by name; a link on the way is replaced by what it points to, at most forty times.
-/

namespace JavaAtlas

/-- Why a file operation fails. -/
inductive IoError where
  | notFound
  | alreadyExists
  | notDirectory
  | isDirectory
  | notEmpty
  | tooManyLinks
  | denied
  | badFormat
  | nameTooLong
  | invalidText
  | nulByte
  deriving Repr, DecidableEq

/-- What the system says of a failure. -/
def IoError.reason : IoError → String
  | notFound => "No such file or directory"
  | alreadyExists => "File exists"
  | notDirectory => "Not a directory"
  | isDirectory => "Is a directory"
  | notEmpty => "Directory not empty"
  | tooManyLinks => "Too many levels of symbolic links"
  | denied => "Permission denied"
  | badFormat => "Exec format error"
  | nameTooLong => "File name too long"
  | invalidText => "stream did not contain valid UTF-8"
  | nulByte => "nul byte found in provided data"

/-- The number that the system has for a failure, if it comes from there. -/
def IoError.number? : IoError → Option Nat
  | notFound => some 2
  | alreadyExists => some 17
  | notDirectory => some 20
  | isDirectory => some 21
  | notEmpty => some 39
  | tooManyLinks => some 40
  | denied => some 13
  | badFormat => some 8
  | nameTooLong => some 36
  | invalidText | nulByte => none

def IoError.message (e : IoError) : String :=
  match e.number? with
  | some n => e.reason ++ " (os error " ++ toString n ++ ")"
  | none => e.reason

inductive FileEntry where
  | dir
  | file (content : List UInt8) (executable : Bool)
  | link (target : String)
  deriving Repr, DecidableEq

/-- A place in the file system: the names from the root, none of them a point or empty. -/
abbrev Location := List String

/-- The entries of a file system in the order of their making; the root is always a directory.
Paths that are not absolute start at `cwd`. -/
structure FileTree where
  entries : List (Location × FileEntry)
  cwd : Location
  deriving Repr, DecidableEq

namespace FileTree

def empty : FileTree := ⟨[], []⟩

variable (fs : FileTree)

def entry? (loc : Location) : Option FileEntry :=
  if loc.isEmpty then some .dir else fs.entries.lookup loc

def isDirAt (loc : Location) : Bool := fs.entry? loc == some .dir

/-- The path of a location. -/
def pathOf (loc : Location) : String := "/" ++ Text.joinWith "/" loc

/-- The names of a path; a slash at the end asks for a directory. -/
def namesOf (path : String) : List String :=
  let names := (Text.pieces '/' path).filter (· != "")
  if path.toList.getLast? == some '/' then names ++ ["."] else names

/-- Where the names of a path lead. -/
inductive Walk where
  | arrived (loc : Location)
  | missing (loc : Location)
  | linked (loc : Location) (target : String) (rest : List String)
  | failed (error : IoError)
  deriving Repr, DecidableEq

/-- Follows names up to the next link. With `keepLast` a link at the very end is where it arrives. -/
def walk (keepLast : Bool) : Location → List String → Walk
  | loc, [] => .arrived loc
  | loc, name :: rest =>
    if !fs.isDirAt loc then .failed .notDirectory
    else if 255 < name.utf8ByteSize then .failed .nameTooLong
    else if name = "." then walk keepLast loc rest
    else if name = ".." then walk keepLast loc.dropLast rest
    else
      let next := loc ++ [name]
      match fs.entry? next with
      | none => if rest.isEmpty then .missing next else .failed .notFound
      | some (.link target) =>
        if keepLast && rest.isEmpty then .arrived next else .linked loc target rest
      | some _ => walk keepLast next rest

/-- Follows names and at most `links` links. -/
def follow (keepLast : Bool) : Nat → Location → List String → Walk
  | links, loc, names =>
    match fs.walk keepLast loc names with
    | .linked loc target rest =>
      match links with
      | 0 => .failed .tooManyLinks
      | links + 1 =>
        follow keepLast links (if Path.isAbsolute target then [] else loc) (namesOf target ++ rest)
    | walk => walk

/-- Where a path leads. -/
def reach (keepLast : Bool) (path : String) : Walk :=
  if path.isEmpty then .failed .notFound
  else fs.follow keepLast 40 (if Path.isAbsolute path then [] else fs.cwd) (namesOf path)

/-- The location of a path, links followed. -/
def locate (path : String) : Except IoError Location :=
  match fs.reach false path with
  | .arrived loc => .ok loc
  | .missing _ => .error .notFound
  | .linked _ _ _ => .error .tooManyLinks
  | .failed e => .error e

/-- The location of a path, a link at the end not followed. -/
def locateLink (path : String) : Except IoError Location :=
  match fs.reach true path with
  | .arrived loc => .ok loc
  | .missing _ => .error .notFound
  | .linked _ _ _ => .error .tooManyLinks
  | .failed e => .error e

/-- The entry at a path, links followed. -/
def status (path : String) : Except IoError FileEntry := do
  match fs.entry? (← fs.locate path) with
  | some entry => .ok entry
  | none => .error .notFound

def pathExists (path : String) : Bool := (fs.status path).toOption.isSome

def isDir (path : String) : Bool := (fs.status path).toOption == some .dir

def isFile (path : String) : Bool :=
  match fs.status path with
  | .ok (.file _ _) => true
  | _ => false

/-- The path with all links resolved. -/
def canonicalize (path : String) : Except IoError String := (fs.locate path).map pathOf

/-- The true location of a path if it exists, else the path cleaned by its text. -/
def normalize (path : String) : String :=
  let absolute := if Path.isAbsolute path then path else Path.join (pathOf fs.cwd) path
  match fs.canonicalize absolute with
  | .ok found => found
  | .error _ => Path.clean absolute

def readBytes (path : String) : Except IoError (List UInt8) := do
  match ← fs.status path with
  | .file content _ => .ok content
  | .dir => .error .isDirectory
  | .link _ => .error .notFound

/-- The text of bytes in UTF-8. -/
def decodeText? (bytes : List UInt8) : Option String := String.fromUTF8? bytes.toByteArray

def encodeText (text : String) : List UInt8 := text.toUTF8.toList

def readText (path : String) : Except IoError String := do
  match decodeText? (← fs.readBytes path) with
  | some text => .ok text
  | none => .error .invalidText

/-- The names in the directory at a location, in the order of their bytes. -/
def namesAt (loc : Location) : List String :=
  (fs.entries.filterMap fun (l, _) =>
    match l.getLast? with
    | some name => if l.dropLast == loc then some name else none
    | none => none).mergeSort fun a b => decide (a ≤ b)

def readDir (path : String) : Except IoError (List String) := do
  let loc ← fs.locate path
  if fs.isDirAt loc then .ok (fs.namesAt loc) else .error .notDirectory

/-- Puts an entry at a location. -/
def insert (loc : Location) (entry : FileEntry) : FileTree :=
  { fs with entries := (fs.entries.filter (·.1 != loc)) ++ [(loc, entry)] }

/-- Takes away the entry at a location. -/
def erase (loc : Location) : FileTree := { fs with entries := fs.entries.filter (·.1 != loc) }

/-- The path without slashes at the end. -/
def withoutSlash (path : String) : String :=
  let cs := (path.toList.reverse.dropWhile (· == '/')).reverse
  if cs.isEmpty then path else String.ofList cs

/-- Makes one directory. -/
def createDir (path : String) : Except IoError FileTree :=
  match fs.reach true (withoutSlash path) with
  | .missing loc => .ok (fs.insert loc .dir)
  | .arrived _ => .error .alreadyExists
  | .linked _ _ _ => .error .tooManyLinks
  | .failed e => .error e

/-- An operation that does nothing when it fails. -/
def attempt (result : Except IoError FileTree) : Except IoError Unit × FileTree :=
  match result with
  | .ok made => (.ok (), made)
  | .error e => (.error e, fs)

/-- Makes the directories of a path whose components are given from the last to the first. Those that
were made before a failure stay. -/
def createDirsFrom : List Path.Component → Except IoError Unit × FileTree
  | [] => (.ok (), fs)
  | c :: before =>
    let path := Path.render (c :: before).reverse
    if fs.isDir path then (.ok (), fs)
    else
      match fs.createDir path with
      | .ok made => (.ok (), made)
      | .error .notFound =>
        match createDirsFrom before with
        | (.error e, parent) => (.error e, parent)
        | (.ok _, parent) =>
          match parent.createDir path with
          | .ok made => (.ok (), made)
          | .error e => if parent.isDir path then (.ok (), parent) else (.error e, parent)
      | .error e => (.error e, fs)

/-- Makes a directory and those around it that are missing. -/
def createDirAll (path : String) : Except IoError Unit × FileTree :=
  fs.createDirsFrom (Path.components path).reverse

/-- Writes a file; one that exists keeps its mode. -/
def write (path : String) (content : List UInt8) : Except IoError FileTree :=
  if path.toList.getLast? == some '/' then .error .isDirectory
  else match fs.reach false path with
    | .missing loc => .ok (fs.insert loc (.file content false))
    | .arrived loc =>
      match fs.entry? loc with
      | some (.file _ executable) => .ok (fs.insert loc (.file content executable))
      | _ => .error .isDirectory
    | .linked _ _ _ => .error .tooManyLinks
    | .failed e => .error e

/-- Makes a link. -/
def createLink (target path : String) : Except IoError FileTree :=
  match fs.reach true path with
  | .missing loc => .ok (fs.insert loc (.link target))
  | .arrived _ => .error .alreadyExists
  | .linked _ _ _ => .error .tooManyLinks
  | .failed e => .error e

/-- Takes away a file or a link. -/
def removeFile (path : String) : Except IoError FileTree := do
  let loc ← fs.locateLink path
  if fs.isDirAt loc then .error .isDirectory else .ok (fs.erase loc)

/-- Whether a path names the directory at its end by an entry of its own, which can be removed: not
by a point, two points, or a slash after a link. -/
def endsInEntry (path : String) : Bool :=
  match (Text.pieces '/' (withoutSlash path)).getLast? with
  | some "." | some ".." => false
  | _ =>
    match fs.locateLink (withoutSlash path) with
    | .ok loc => fs.isDirAt loc
    | .error _ => false

/-- The beginnings of a list, without the list itself. -/
def beginnings {α : Type} (xs : List α) : List (List α) :=
  (List.range xs.length).map (xs.take ·)

/-- The places that a path leads through. -/
def placesAlong (path : String) : List Location :=
  (beginnings (Text.pieces '/' path)).filterMap fun names =>
    (fs.locate (Text.joinWith "/" names)).toOption

/-- Whether a place stays when the directory at `loc` is taken away by the name `path`: the directory
itself when the name is not that of its entry, and those that the path itself leads down from,
because it no longer leads to them once the directory below is gone. -/
def staysBehind (path : String) (loc l : Location) : Bool :=
  (l == loc && !fs.endsInEntry path) ||
    ((fs.placesAlong path).filter loc.isPrefixOf).any fun place => l.isPrefixOf place && l != place

/-- Takes away all that lies below a location. -/
def clearBelow (loc : Location) : FileTree :=
  { fs with entries := fs.entries.filter fun (l, _) => !(loc.isPrefixOf l && l != loc) }

/-- Takes away an entry with everything below it. Nothing happens when there is no such entry. A link
below it is taken away and not followed; but a link that the path itself names loses what the
directory it leads to holds. -/
def removeTree (path : String) : FileTree :=
  match fs.locateLink path with
  | .error _ => fs
  | .ok loc =>
    match fs.entry? loc with
    | some .dir =>
      { fs with entries := fs.entries.filter fun (l, _) =>
          !loc.isPrefixOf l || fs.staysBehind path loc l }
    | some (.link _) =>
      match fs.locate path with
      | .ok target => (if fs.isDirAt target then fs.clearBelow target else fs).erase loc
      | .error _ => fs.erase loc
    | _ => fs.erase loc

/-- Copies a file with its mode. -/
def copyFile (source target : String) : Except IoError FileTree := do
  match ← fs.status source with
  | .file content executable =>
    let written ← fs.write target content
    let loc ← written.locate target
    .ok (written.insert loc (.file content executable))
  | _ => .error .isDirectory

/-- All entries below a location, directories before what they hold, each with the path from
there. The depth is bounded by `fuel`. -/
def listBelow : Nat → Location → String → List (String × FileEntry)
  | 0, _, _ => []
  | fuel + 1, loc, shown =>
    (fs.namesAt loc).flatMap fun name =>
      let next := loc ++ [name]
      let path := if shown.isEmpty then name else shown ++ "/" ++ name
      match fs.entry? next with
      | some .dir => (path, .dir) :: listBelow fuel next path
      | some entry => [(path, entry)]
      | none => []

/-- All entries below a directory, each with the path from there; nothing when it is no
directory. -/
def listing (path : String) : List (String × FileEntry) :=
  match fs.locate path with
  | .ok loc => if fs.isDirAt loc then fs.listBelow (fs.entries.length + 1) loc "" else []
  | .error _ => []

end FileTree

end JavaAtlas
