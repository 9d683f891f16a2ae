import Substrate.OsError

/-!
# Recoverable errors

Running out of a resource is reported to the caller, who may carry on. Each cause is a
constructor; `Error.message` is the text it is reported with.
-/

namespace Substrate

/-- A failure that the caller can recover from. -/
inductive Error where
  | primitiveCreation (what : String) (source : OsError)
  | threadSpawn (source : OsError)
  | threadJoin (source : OsError)
  | frameStackOverflow (limit : Nat)
  | invocationOverflow (limit : Nat)
  | alreadyAttached
  | invalidOption (name value : String)
  | signal (text : String)
  deriving DecidableEq, Repr

/-- The text an error is reported with. -/
def Error.message : Error → String
  | primitiveCreation what source => "failed to create " ++ what ++ ": " ++ source.message
  | threadSpawn source => "failed to spawn thread: " ++ source.message
  | threadJoin source => "failed to join thread: " ++ source.message
  | frameStackOverflow limit =>
    "frame stack overflow: more than " ++ toString limit ++ " active frames"
  | invocationOverflow limit =>
    "invocation history overflow: more than " ++ toString limit ++ " nested calls"
  | alreadyAttached => "thread is already attached to a virtual machine"
  | invalidOption name value => "invalid value for option `" ++ name ++ "`: " ++ value
  | signal text => text

end Substrate
