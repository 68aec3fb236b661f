import JavaAtlas.Json

/-!
What can go wrong, by cause. Each error has one wording, and errors of the service have a stable
code beside it.
-/

namespace JavaAtlas

/-- The failures of a service that callers see. -/
inductive ServiceError where
  | notLoaded
  | notFound (what : String)
  | invalidInput (why : String)
  | timeout (operation : String) (seconds : Nat)
  | partialResult (what : String)
  | internal (why : String)
  deriving Repr, DecidableEq

namespace ServiceError

def code : ServiceError → String
  | notLoaded => "NOT_LOADED"
  | notFound _ => "NOT_FOUND"
  | invalidInput _ => "INVALID_INPUT"
  | timeout _ _ => "TIMEOUT"
  | partialResult _ => "PARTIAL_RESULT"
  | internal _ => "INTERNAL"

def message : ServiceError → String
  | notLoaded => "No project is loaded; call load with a project directory first"
  | notFound what => "Not found: " ++ what
  | invalidInput why => "Invalid input: " ++ why
  | timeout operation seconds =>
    "Operation '" ++ operation ++ "' timed out after " ++ toString seconds ++ "s"
  | partialResult what => "Partial result: " ++ what
  | internal why => "Internal error: " ++ why

def isTimeout : ServiceError → Bool
  | timeout _ _ => true
  | _ => false

end ServiceError

/-- The written form of a service error. -/
structure ErrorPayload where
  code : String
  message : String
  deriving Repr, DecidableEq

namespace ErrorPayload

def ofError (e : ServiceError) : ErrorPayload := ⟨e.code, e.message⟩

def toJson (p : ErrorPayload) : Json := .obj [("code", .str p.code), ("message", .str p.message)]

def ofJson? (j : Json) : Option ErrorPayload := do
  let [code, message] ← j.fields? ["code", "message"] | none
  return ⟨← code.toStr?, ← message.toStr?⟩

end ErrorPayload

end JavaAtlas
