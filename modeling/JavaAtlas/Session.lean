import JavaAtlas.FileTree

/-!
The directory of one session. It lies in a base directory under a token that was drawn at random;
a token that is taken already is drawn again.
-/

namespace JavaAtlas

structure Session where
  token : String
  path : String
  tornDown : Bool
  deriving Repr, DecidableEq

/-- Why a session cannot be started or used. -/
inductive SessionError where
  | noBase (base : String) (error : IoError)
  | notCreated (path : String) (error : IoError)
  | noFreeToken (base : String)
  | noRandom (reason : String)
  | tornDown (path : String)
  deriving Repr, DecidableEq

namespace Session

/-- So many tokens are drawn at most. -/
def maxAttempts : Nat := 4

def isToken (s : String) : Bool :=
  s.length == 8 && s.toList.all fun c => c.isDigit || ('a' ≤ c && c ≤ 'f')

/-- The token that four random bytes are written as. -/
def tokenOf (bytes : Vector UInt8 4) : String :=
  String.ofList (bytes.toList.flatMap fun b =>
    [Nat.digitChar (b.toNat / 16), Nat.digitChar (b.toNat % 16)])

/-- The session whose directory was tried to make, or what is done `instead` when something has that
name already. -/
def claim (token path : String) (instead : Except SessionError (Session × FileTree)) :
    Except IoError FileTree → Except SessionError (Session × FileTree)
  | .ok made => .ok (⟨token, path, false⟩, made)
  | .error .alreadyExists => instead
  | .error e => .error (.notCreated path e)

/-- Makes the directory of the first token that is free. -/
def tryTokens (fs : FileTree) (base : String) : List String → Except SessionError (Session × FileTree)
  | [] => .error (.noFreeToken base)
  | token :: rest =>
    let path := Path.join base token
    claim token path (tryTokens fs base rest) (fs.createDir path)

/-- Starts a session in a base directory, which is made if it is missing. `draws` are the tokens
that come up. -/
def create (fs : FileTree) (base : String) (draws : List String) :
    Except SessionError (Session × FileTree) :=
  match fs.createDirAll base with
  | (.error e, _) => .error (.noBase base e)
  | (.ok _, made) => tryTokens made base (draws.take maxAttempts)

/-- The session that a process has already, or a new one. -/
def ofProcess (known : Option Session) (fs : FileTree) (base : String) (draws : List String) :
    Except SessionError (Session × FileTree) :=
  match known with
  | some session => .ok (session, fs)
  | none => create fs base draws

variable (s : Session)

/-- The directory of a project of the session. -/
def projectDir (name : String) : String := Path.join (Path.join s.path "projects") name

/-- Ends the session and takes its directory away, the first time only. -/
def teardown (fs : FileTree) : Session × FileTree :=
  if s.tornDown then (s, fs) else ({ s with tornDown := true }, fs.removeTree s.path)

end Session

namespace SessionError

def message : SessionError → String
  | noBase base error => "cannot create workspace base " ++ base ++ ": " ++ error.message
  | notCreated path error => "cannot create " ++ path ++ ": " ++ error.message
  | noFreeToken base =>
    "no free session token under " ++ base ++ " after " ++ toString Session.maxAttempts ++ " attempts"
  | noRandom reason => "random source unavailable: " ++ reason
  | tornDown path => "session workspace " ++ path ++ " already torn down"

end SessionError

end JavaAtlas
