import PacedChain.Job

/-!
# Queued tasks

What the queue knows of a task. A task is `queued` until it runs, `delayed` or `retryScheduled`
while its time has not come, and ends as `succeeded`, `dead` or `cancelled`.
-/
namespace PacedChain

inductive TaskState where
  | queued
  | delayed
  | running
  | succeeded
  | retryScheduled
  | dead
  | cancelled
  deriving DecidableEq

instance : Named TaskState where
  all := [.queued, .delayed, .running, .succeeded, .retryScheduled, .dead, .cancelled]
  text
    | .queued => "Queued"
    | .delayed => "Delayed"
    | .running => "Running"
    | .succeeded => "Succeeded"
    | .retryScheduled => "RetryScheduled"
    | .dead => "Dead"
    | .cancelled => "Cancelled"

namespace TaskState

/-- A finished task never changes again. -/
def isTerminal : TaskState → Bool
  | .succeeded | .dead | .cancelled => true
  | _ => false

/-- Only a queued task can be leased. -/
def isRunnable : TaskState → Bool
  | .queued => true
  | _ => false

/-- A waiting task is queued again when its time comes. -/
def isWaiting : TaskState → Bool
  | .delayed | .retryScheduled => true
  | _ => false

end TaskState

/-- A task as the queue keeps it. Attempts are counted without a bound, which is right for fewer than
2³² of them at one task. -/
structure Task where
  job : Job
  /-- The key the task holds, if it was enqueued under one. -/
  key : Option Key
  state : TaskState
  /-- Attempts started so far. -/
  attempts : Nat
  /-- When the task may run, while it waits for that time. -/
  notBefore : Option Nat
  createdAt : Nat
  updatedAt : Nat
  deriving DecidableEq

namespace Task

/-- A new task is ready to run. -/
def create (job : Job) (key : Option Key) (now : Nat) : Task :=
  ⟨job, key, .queued, 0, none, now, now⟩

/-- Hold a new task back until `at_`. -/
def holdBack (t : Task) (at_ now : Nat) : Task :=
  { t with state := .delayed, notBefore := some at_, updatedAt := now }

def start (t : Task) (now : Nat) : Task :=
  { t with state := .running, attempts := t.attempts + 1, updatedAt := now }

def succeed (t : Task) (now : Nat) : Task := { t with state := .succeeded, updatedAt := now }

def die (t : Task) (now : Nat) : Task := { t with state := .dead, updatedAt := now }

/-- Give the task up before it runs. -/
def cancel (t : Task) (now : Nat) : Task :=
  { t with state := .cancelled, notBefore := none, updatedAt := now }

def scheduleRetry (t : Task) (at_ now : Nat) : Task :=
  { t with state := .retryScheduled, notBefore := some at_, updatedAt := now }

/-- The time of a waiting task has come. -/
def requeue (t : Task) (now : Nat) : Task :=
  { t with state := .queued, notBefore := none, updatedAt := now }

end Task

end PacedChain
