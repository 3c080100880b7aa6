import PacedChain.Delay
import PacedChain.Job
import PacedChain.Outcome
import PacedChain.Phase

/-!
# Status

What an observer has seen of a chain. Events are counted whether or not they are possible in the
phase the chain is in; only a possible one changes the phase. Nothing in the chain depends on it.
-/
namespace PacedChain

/-- The successor that an execution has put on the queue. -/
structure Scheduled where
  task : TaskId
  delay : Delay
  deriving DecidableEq

structure Status where
  phase : Phase := .notStarted
  bootstrapRuns : Nat := 0
  syncRuns : Nat := 0
  retries : Nat := 0
  stalls : Nat := 0
  /-- The delay of the successor that was scheduled last. -/
  lastDelay : Option Delay := none
  nextTask : Option TaskId := none
  deriving DecidableEq, Inhabited

namespace Status

def count (s : Status) : Event → Status
  | .bootstrapStarted => { s with bootstrapRuns := s.bootstrapRuns + 1 }
  | .syncStarted => { s with syncRuns := s.syncRuns + 1 }
  | .bootstrapRetried | .syncRetried => { s with retries := s.retries + 1 }
  | .gaveUp => { s with stalls := s.stalls + 1 }
  | .bootstrapEnqueued | .syncScheduled => s

def apply (s : Status) (event : Event) : Status :=
  { s.count event with phase := (s.phase.on event).getD s.phase }

def schedule (s : Status) (successor : Scheduled) : Status :=
  { s with lastDelay := some successor.delay, nextTask := some successor.task }.apply .syncScheduled

def start (s : Status) : Job → Status
  | .bootstrap => s.apply .bootstrapStarted
  | .sync => s.apply .syncStarted

def complete (s : Status) : Job → Completion → Status
  | _, .succeeded => s
  | .bootstrap, .retryScheduled _ _ => s.apply .bootstrapRetried
  | .sync, .retryScheduled _ _ => s.apply .syncRetried
  | _, .dead _ => s.apply .gaveUp

end Status

end PacedChain
