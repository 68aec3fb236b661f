import JavaAtlas.Path
import JavaAtlas.Text.Blank

/-!
The settings of a service: from the environment, and from the program that starts it.
-/

namespace JavaAtlas

structure ServiceConfig where
  timeoutSecs : Nat
  absolutePaths : Bool
  workspaceBase : String
  mavenCommand : String
  classpathTimeoutSecs : Nat
  deriving Repr, DecidableEq

namespace ServiceConfig

def minTimeout : Int := 5

def maxTimeout : Int := 300

/-- The allowed number of seconds that is nearest to the one asked for. -/
def clampTimeout (secs : Int) : Nat := (max minTimeout (min secs maxTimeout)).toNat

def defaultWorkspaceBase : String := "/tmp/stratum-workspaces"

def initial : ServiceConfig where
  timeoutSecs := 30
  absolutePaths := false
  workspaceBase := defaultWorkspaceBase
  mavenCommand := "mvn"
  classpathTimeoutSecs := 120

/-- The value of a row of decimal digits, which must not be empty. -/
def digitsValue? (cs : List Char) : Option Nat :=
  if cs.isEmpty ∨ ¬ cs.all Char.isDigit then none
  else some (cs.foldl (fun n c => 10 * n + (c.toNat - '0'.toNat)) 0)

/-- A decimal number with an optional sign, if it is a 64-bit word. -/
def wordValue? (s : String) : Option Int :=
  let value := match s.toList with
    | '-' :: cs => (digitsValue? cs).map fun n => -(n : Int)
    | '+' :: cs => (digitsValue? cs).map fun n => (n : Int)
    | cs => (digitsValue? cs).map fun n => (n : Int)
  value.filter fun n => -9223372036854775808 ≤ n ∧ n < 9223372036854775808

def isOn (raw : String) : Bool :=
  ["1", "true", "yes", "on"].contains
    (String.ofList ((Text.trimBlanks raw.toList).map Char.toLower))

/-- A setting that is not blank, without the white space around it. -/
def setting? (lookup : String → Option String) (key : String) : Option String :=
  ((lookup key).map Text.trim).filter (!·.isEmpty)

/-- The settings of an environment. A number of seconds that cannot be read is passed over. -/
def ofEnvironment (lookup : String → Option String) : ServiceConfig :=
  { initial with
    timeoutSecs := match ((lookup "STRATUM_TIMEOUT_SECS").bind fun raw =>
        wordValue? (Text.trim raw)) with
      | some secs => clampTimeout secs
      | none => initial.timeoutSecs
    absolutePaths := (lookup "STRATUM_ABSOLUTE_PATHS").any isOn
    workspaceBase := (setting? lookup "STRATUM_WORKSPACE_DIR").getD initial.workspaceBase
    mavenCommand := (setting? lookup "STRATUM_MAVEN").getD initial.mavenCommand }

/-- The home directory of the account that the program runs under. -/
def accountHome : String := "/root"

/-- The home directory: the one that the environment names, else the account's. -/
def userHome (named : String) : String := if named.isEmpty then accountHome else named

/-- Where log files are written, in the home directory of the user. -/
def logDirectory (named : String) : String := Path.join (userHome named) ".stratum/logs"

variable (config : ServiceConfig)

/-- Asks for a number of seconds, which is read as a signed word. -/
def withTimeout (secs : UInt64) : ServiceConfig :=
  { config with timeoutSecs := clampTimeout secs.toInt64.toInt }

def withAbsolutePaths (absolute : Bool) : ServiceConfig := { config with absolutePaths := absolute }

def withWorkspaceBase (base : String) : ServiceConfig := { config with workspaceBase := base }

def withMaven (command : String) : ServiceConfig := { config with mavenCommand := command }

end ServiceConfig

end JavaAtlas
