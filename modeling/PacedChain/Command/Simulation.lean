import PacedChain.Chain.Assembly
import PacedChain.Chain.Host
import PacedChain.Command.Invocation
import PacedChain.Json.Durable
import PacedChain.Settings.Document

/-!
# Simulations

A chain runs on simulated boundaries and a simulated clock: signals are delivered at the start, time
passes, the queue is closed, and the workers are waited for. The report says what was seen of the
chain and what is left on the queue.
-/
namespace PacedChain.Command

structure Report where
  chain : Status
  queue : Counts
  deriving DecidableEq

def Report.toJson (r : Report) : Json :=
  .record [("chain", r.chain.toJson), ("queue", Durable.toJson r.queue)]

/-- An oracle or engine that always recommends the same. -/
def steady (secs : Int) : Boundary := { answer := fun _ => .recommends secs }

/-- An engine that always recommends the same, but fails every so many calls. -/
def unsteady (secs : Int) (failEvery : Nat) : Boundary where
  answer n :=
    let call := n + 1
    if 0 < failEvery ∧ call % failEvery = 0 then .fails s!"simulated failure on call {call}"
    else .recommends secs

/-- Deliver signals in order until one is refused. -/
def deliver : List Trigger → Host → Except ChainError Host
  | [], host => .ok host
  | trigger :: rest, host =>
    match host.trigger trigger with
    | (.ok _, host) => deliver rest host
    | (.error error, _) => .error error

/-- Why a run comes to nothing. -/
inductive Failure where
  | settings (error : SettingsError)
  | assembly (error : AssemblyError)
  | delivery (error : ChainError)
  deriving DecidableEq

def Failure.message : Failure → String
  | .settings error => error.message
  | .assembly error => error.message
  | .delivery error => error.message

def ChainRun.simulate (run : ChainRun) (settings : Settings) : Except Failure Report := do
  let assembly : Assembly Desk := {
    queue := some { queue := Queue.empty settings.backoff settings.historyLimit }
    oracle := some (steady run.oracleDelay)
    engine := some (unsteady run.engineDelay run.engineFailEvery)
    policy := settings.policy }
  let (chain, desk) ← assembly.build.mapError .assembly
  let host := Host.spawn { desk, chain } settings.workers
  let host ← (deliver run.triggers host).mapError .delivery
  let host := ((host.sleep (Clock.ofSecs run.runFor)).closeQueue).shutdown
  return { chain := host.chain.status, queue := host.desk.queue.counts }

/-- Settings, found where an invocation says. -/
def Invocation.settings (invocation : Invocation)
    (files : String → Except ReadFault ByteArray) : Except SettingsError Settings :=
  match invocation.settingsPath with
  | none => .ok {}
  | some path => Settings.ofFile path (files path)

/-- Do what an invocation asks for. The service has nothing to report. -/
def Invocation.execute (invocation : Invocation) (files : String → Except ReadFault ByteArray) :
    Except Failure (Option Report) := do
  let settings ← (invocation.settings files).mapError .settings
  match invocation.subcommand with
  | .chain run => return some (← run.simulate settings)
  | .service _ => return none

inductive Conclusion where
  | stopped (stop : Stop)
  | failed (failure : Failure)
  | finished (report : Option Report)
  deriving DecidableEq

namespace Conclusion

/-- What the program tells whoever has started it: 0 for success, 1 for failure, 2 for arguments
that are not understood. -/
def exitCode : Conclusion → Nat
  | .stopped .usage => 2
  | .stopped _ => 0
  | .failed _ => 1
  | .finished _ => 0

def versionLine : String := "cadence 0.1.0"

def version? : Conclusion → Option String
  | .stopped .version => some versionLine
  | _ => none

def report? : Conclusion → Option Report
  | .finished report => report
  | _ => none

end Conclusion

/-- The program, given the variable of the environment that says where settings are, the arguments,
and what is found at each path. -/
def run (environment : Option String) (args : List String)
    (files : String → Except ReadFault ByteArray) : Conclusion :=
  match Invocation.parse environment args with
  | .error stop => .stopped stop
  | .ok invocation =>
    match invocation.execute files with
    | .error failure => .failed failure
    | .ok report => .finished report

end PacedChain.Command
