import PacedChain.Named

/-!
# Phases of a chain

The states of a chain as an observer sees them, and the events that lead from one to the next.
No state is meant to be the last one: a chain that has stalled starts over at the next trigger.
-/
namespace PacedChain

inductive Phase where
  | notStarted
  | bootstrapPending
  | bootstrapRunning
  | bootstrapRetry
  | syncScheduled
  | syncRunning
  | syncRetry
  | stalled
  deriving DecidableEq, Inhabited

instance : Named Phase where
  all := [.notStarted, .bootstrapPending, .bootstrapRunning, .bootstrapRetry, .syncScheduled,
    .syncRunning, .syncRetry, .stalled]
  text
    | .notStarted => "not_started"
    | .bootstrapPending => "bootstrap_pending"
    | .bootstrapRunning => "bootstrap_running"
    | .bootstrapRetry => "bootstrap_retry"
    | .syncScheduled => "sync_scheduled"
    | .syncRunning => "sync_running"
    | .syncRetry => "sync_retry"
    | .stalled => "stalled"

inductive Event where
  | bootstrapEnqueued
  | bootstrapStarted
  | bootstrapRetried
  | syncScheduled
  | syncStarted
  | syncRetried
  | gaveUp
  deriving DecidableEq

instance : Named Event where
  all := [.bootstrapEnqueued, .bootstrapStarted, .bootstrapRetried, .syncScheduled, .syncStarted,
    .syncRetried, .gaveUp]
  text
    | .bootstrapEnqueued => "bootstrap_enqueued"
    | .bootstrapStarted => "bootstrap_started"
    | .bootstrapRetried => "bootstrap_retried"
    | .syncScheduled => "sync_scheduled"
    | .syncStarted => "sync_started"
    | .syncRetried => "sync_retried"
    | .gaveUp => "gave_up"

namespace Phase

/-- The phase after an event, if the event is possible in this phase. -/
def on : Phase → Event → Option Phase
  | .notStarted, .bootstrapEnqueued | .stalled, .bootstrapEnqueued => some .bootstrapPending
  | .bootstrapPending, .bootstrapStarted | .bootstrapRetry, .bootstrapStarted =>
    some .bootstrapRunning
  | .bootstrapRunning, .bootstrapRetried => some .bootstrapRetry
  | .bootstrapRunning, .syncScheduled | .syncRunning, .syncScheduled => some .syncScheduled
  | .syncScheduled, .syncStarted | .syncRetry, .syncStarted => some .syncRunning
  | .syncRunning, .syncRetried => some .syncRetry
  | .bootstrapRunning, .gaveUp | .syncRunning, .gaveUp => some .stalled
  | _, _ => none

/-- A live chain goes on by itself. -/
def isLive : Phase → Bool
  | .notStarted | .stalled => false
  | _ => true

end Phase

end PacedChain
