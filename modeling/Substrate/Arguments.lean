import Substrate.Decimal.Double

/-!
# Command-line arguments

The arguments that nobody has taken yet. A flag is taken by its name; an option comes with the
argument behind it as its value, whatever that looks like. Arguments that are taken are removed, an
option only once its value could be read.
-/

namespace Substrate

/-- The arguments left, in order. -/
abbrev Arguments : Type := List String

/-- Why an option could not be taken. -/
inductive ArgumentError where
  | missingValue (key : String)
  | unreadable (value : String) (cause : Decimal.LiteralError)
  deriving Repr

def ArgumentError.message : ArgumentError → String
  | missingValue key => "the '" ++ key ++ "' option doesn't have an associated value"
  | unreadable value cause => "failed to parse '" ++ value ++ "': " ++ cause.message

namespace Arguments

/-- Removes the first occurrence of a flag; tells whether there was one. -/
def takeFlag (args : Arguments) (flag : String) : Bool × Arguments :=
  (args.contains flag, args.erase flag)

/-- Removes the first occurrence of the first flag that is there. -/
def takeAnyFlag (args : Arguments) : List String → Bool × Arguments
  | [] => (false, args)
  | flag :: others => if args.contains flag then args.takeFlag flag else takeAnyFlag args others

/-- The argument behind the first occurrence of a key, and the other arguments. -/
def splitOption (key : String) : Arguments → Option (Option String × Arguments)
  | [] => none
  | arg :: rest =>
    if arg == key then
      match rest with
      | [] => some (none, [])
      | value :: rest => some (some value, rest)
    else (splitOption key rest).map fun (value?, others) => (value?, arg :: others)

/-- Takes an option whose value is read by `read`. -/
def takeOption {α : Type} (key : String) (read : String → Except Decimal.LiteralError α) :
    EStateM ArgumentError Arguments (Option α) := fun args =>
  match splitOption key args with
  | none => .ok none args
  | some (none, _) => .error (.missingValue key) args
  | some (some value, others) =>
    match read value with
    | .ok a => .ok (some a) others
    | .error cause => .error (.unreadable value cause) args

def readCount (text : String) : Except Decimal.LiteralError Nat :=
  Decimal.readCount wordLimit text.toList

def readDouble (text : String) : Except Decimal.LiteralError Double :=
  Double.read text.toList

end Arguments

end Substrate
