import PacedChain.Chain.Execution

/-!
# Rehearsal

A queue without tasks to rehearse a chain with: it notes what is asked of it and answers as it was
told to.
-/
namespace PacedChain

inductive QueueCall where
  | enqueueUnique (key : Key) (policy : HolderPolicy) (job : Job)
  | enqueueDelayed (job : Job) (delay : Delay)
  deriving DecidableEq

/-- What an enqueue under a key is to come to. -/
inductive PlacementKind where
  | enqueued
  | keptExisting
  | replaced
  deriving DecidableEq, Inhabited

/-- A queue that answers as it is told to. -/
structure RehearsalQueue where
  unique : PlacementKind := .enqueued
  /-- The error of every call, if there is one. -/
  failure : Option QueueError := none
  created : Nat := 0
  /-- The calls so far, the last one first. -/
  calls : List QueueCall := []

namespace RehearsalQueue

/-- Note a call and number a task, or fail. -/
def number (q : RehearsalQueue) (call : QueueCall) : Except QueueError TaskId × RehearsalQueue :=
  let q := { q with calls := call :: q.calls }
  match q.failure with
  | some error => (.error error, q)
  | none => (.ok ⟨q.created + 1⟩, { q with created := q.created + 1 })

/-- The task that was numbered before a task, or the task itself if it is the first. -/
def before (task : TaskId) : TaskId := ⟨max 1 (task.number - 1)⟩

instance : TaskQueue RehearsalQueue where
  enqueueUnique q key policy job :=
    match q.number (.enqueueUnique key policy job) with
    | (.error error, q) => (.error error, q)
    | (.ok task, q) =>
      (.ok (match q.unique with
        | .enqueued => .enqueued task
        | .keptExisting => .keptExisting (before task)
        | .replaced => .replaced (before task) task), q)
  enqueueDelayed q job delay := q.number (.enqueueDelayed job delay)

end RehearsalQueue

end PacedChain
