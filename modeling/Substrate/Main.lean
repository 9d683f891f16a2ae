import Substrate.Stress

/-!
# Command line

Runs the stress program on the arguments and the environment of the process.
-/

namespace Substrate.Stress

/-- Milliseconds as seconds, with three decimals. -/
def inSeconds (milliseconds : Nat) : String :=
  let rest := toString (milliseconds % 1000)
  toString (milliseconds / 1000) ++ "." ++
    String.ofList (List.replicate (3 - rest.length) '0') ++ rest

/-- Runs the program and prints how it ended; gives the exit code. -/
def launch (args : List String) : IO UInt32 := do
  let env ← Options.variableNames.filterMapM fun name => do
    return (← IO.getEnv name).map fun value => (name, value)
  let start ← IO.monoMsNow
  let ending := run .debug env args
  for line in ending.complaint do IO.eprintln line
  let elapsed := (← IO.monoMsNow) - start
  for line in ending.output (inSeconds elapsed) "0.000" do IO.println line
  return UInt32.ofNat (ending.code?.getD 134)

end Substrate.Stress

def main (args : List String) : IO UInt32 :=
  Substrate.Stress.launch args
