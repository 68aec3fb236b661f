import JavaAtlas.Error

/-!
Operations that must end within a limit.
-/

namespace JavaAtlas.Deadline

/-- How an operation goes when nobody stops it. -/
inductive Course (α : Type) where
  | returns (value : α)
  | fails (error : ServiceError)
  | breaks (message : String)
  | outlasts
  deriving Repr

/-- Runs an operation on a worker of its own, for at most the given number of milliseconds. -/
def run {α : Type} (operation : String) (limitMs : Nat) : Course α → Except ServiceError α
  | .returns value => .ok value
  | .fails error => .error error
  | .breaks _ => .error (.internal ("operation '" ++ operation ++ "' panicked"))
  | .outlasts => .error (.timeout operation (limitMs / 1000))

/-- Runs an operation as a task, for at most the given number of milliseconds. -/
def runTask {α : Type} (operation : String) (limitMs : Nat) : Course α → Except ServiceError α
  | .breaks message => .error (.internal ("operation '" ++ operation ++ "' failed: " ++ message))
  | course => run operation limitMs course

end JavaAtlas.Deadline
