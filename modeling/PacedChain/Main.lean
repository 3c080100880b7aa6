import PacedChain.Command.Simulation

/-!
# The program

Reads the arguments, the environment and the settings, runs the command and prints its report.
-/
namespace PacedChain.Command

def usageText : String :=
  "Usage: cadence [--config <PATH>] [--verbose] <chain|service|help> [OPTIONS]\n\n" ++
  "Run a self-rescheduling sync chain against simulated boundaries.\n\n" ++
  "chain    Trigger the bootstrap and let the chain reschedule itself\n" ++
  "  --trigger <SIGNAL>            Signal to deliver; may be repeated [default: boot]\n" ++
  "  --oracle-delay <SECONDS>      Recommended before the first sync [default: 2]\n" ++
  "  --engine-delay <SECONDS>      Recommended before the next sync [default: 3]\n" ++
  "  --engine-fail-every <COUNT>   Make every n-th sync fail, 0 is never [default: 0]\n" ++
  "  --run-for <SECONDS>           Stop after this time [default: 15]\n" ++
  "service  Run the long-lived loop instead of the chain\n" ++
  "  --run-for <SECONDS>           Stop after this time [default: 5]\n"

def findFile (path : String) : IO (Except ReadFault ByteArray) := do
  try
    return .ok (← IO.FS.readBinFile path)
  catch
    | .noFileOrDirectory .. => return .error .missing
    | error => return .error (.other (toString error))

/-- Prints what a run has come to. -/
def Conclusion.print (conclusion : Conclusion) : IO Unit := do
  match conclusion with
  | .stopped .version => IO.println versionLine
  | .stopped .help => IO.print usageText
  | .stopped .usage => IO.eprint usageText
  | .failed failure => IO.eprintln s!"Error: {failure.message}"
  | .finished (some report) => IO.println report.toJson.pretty
  | .finished none => pure ()

end PacedChain.Command

def main (args : List String) : IO UInt32 := do
  let environment ← IO.getEnv "CADENCE_CONFIG"
  let found ← match PacedChain.Command.Invocation.parse environment args with
    | .ok { settingsPath := some path, .. } => PacedChain.Command.findFile path
    | _ => pure (.error .missing)
  let conclusion := PacedChain.Command.run environment args fun _ => found
  conclusion.print
  return conclusion.exitCode.toUInt32
