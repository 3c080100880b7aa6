import PacedChain.Backoff
import PacedChain.Delay
import PacedChain.Queue.Task

/-!
# The queue

A queue of tasks that hands each of them out when its time has come and again after a failed
attempt. Time is an argument: a call at `now` is a function from the queue before it to the answer
and the queue after it, and a call that is refused leaves the queue as it was.

Tasks are numbered in the order of their creation. Which tasks can run next is kept apart from the
tasks themselves: `ready` in the order in which they became ready, `scheduled` in the order in which
they fall due, equal times in the order in which they were scheduled. Both may still name tasks that
have been cancelled since; these are passed over. Finished tasks are kept as long as there are at
most `historyLimit` of them.
-/
namespace PacedChain

inductive QueueError where
  | closed
  | taskNotFound (task : TaskId)
  | operationFailed (reason : String)
  deriving DecidableEq

def QueueError.message : QueueError → String
  | .closed => "queue is closed"
  | .taskNotFound task => s!"task not found: {task.text}"
  | .operationFailed reason => s!"operation failed: {reason}"

/-- What became of an enqueue under a key. -/
inductive Placement where
  /-- Nothing held the key, and a task was created. -/
  | enqueued (task : TaskId)
  /-- The holder stays; nothing was created. -/
  | keptExisting (holder : TaskId)
  /-- The holder was cancelled, and a task was created in its place. -/
  | replaced (previous task : TaskId)
  deriving DecidableEq

namespace Placement

/-- The task that holds the key now. -/
def holder : Placement → TaskId
  | .enqueued task | .keptExisting task | .replaced _ task => task

def isNew : Placement → Bool
  | .keptExisting _ => false
  | _ => true

end Placement

/-- A time at which a task falls due. -/
structure Wakeup where
  notBefore : Nat
  task : TaskId
  deriving DecidableEq

/-- One enqueue, as the queue saw it. -/
structure LogEntry where
  task : TaskId
  job : Job
  delay : Delay
  enqueuedAt : Nat
  notBefore : Nat
  deriving DecidableEq

/-- How many tasks have finished so far, and how. -/
structure Totals where
  succeeded : Nat := 0
  dead : Nat := 0
  cancelled : Nat := 0
  deriving DecidableEq, Inhabited

structure Queue where
  backoff : Backoff
  /-- Finished tasks, and entries of the log, that are kept. -/
  historyLimit : Nat
  /-- The tasks that are kept, oldest first. -/
  tasks : List (TaskId × Task) := []
  ready : List TaskId := []
  scheduled : List Wakeup := []
  /-- The task that was last enqueued under each key and has not given it up. -/
  holders : List (Key × TaskId) := []
  /-- The last enqueues, oldest first. -/
  log : List LogEntry := []
  /-- The finished tasks that are kept, in the order in which they finished. -/
  finished : List TaskId := []
  totals : Totals := {}
  created : Nat := 0
  leases : Nat := 0
  closed : Bool := false
  deriving DecidableEq

/-- The last `limit` members of a list. -/
def lastOf {α : Type} (limit : Nat) (l : List α) : List α := l.drop (l.length - limit)

namespace Queue

/-- How much history is kept where no other limit is set. -/
def standardHistory : Nat := 1024

def empty (backoff : Backoff) (historyLimit : Nat) : Queue := { backoff, historyLimit }

instance : Inhabited Queue := ⟨empty Backoff.standard standardHistory⟩

def task? (q : Queue) (id : TaskId) : Option Task :=
  (q.tasks.find? (·.1 = id)).map (·.2)

def modify (q : Queue) (id : TaskId) (f : Task → Task) : Queue :=
  { q with tasks := q.tasks.map fun entry => if entry.1 = id then (id, f entry.2) else entry }

/-- Add a time to a schedule, after those that are not later. -/
def addWakeup (w : Wakeup) : List Wakeup → List Wakeup
  | [] => [w]
  | v :: rest => if w.notBefore < v.notBefore then w :: v :: rest else v :: addWakeup w rest

/-- Have a task fall due at a time. -/
def schedule (q : Queue) (notBefore : Nat) (id : TaskId) : Queue :=
  { q with scheduled := addWakeup ⟨notBefore, id⟩ q.scheduled }

def note (q : Queue) (entry : LogEntry) : Queue :=
  { q with log := lastOf q.historyLimit (q.log ++ [entry]) }

def hold (q : Queue) (key : Option Key) (id : TaskId) : Queue :=
  match key with
  | none => q
  | some key => { q with holders := (key, id) :: q.holders.filter (·.1 ≠ key) }

/-- Create a task that may run after `delay`. -/
def insert (q : Queue) (now : Nat) (job : Job) (delay : Delay) (key : Option Key) :
    TaskId × Queue :=
  let id : TaskId := ⟨q.created + 1⟩
  let notBefore := Clock.deadline now delay.duration
  let task := Task.create job key now
  let added : Queue :=
    if delay.isZero then
      { q with tasks := q.tasks ++ [(id, task)], ready := q.ready ++ [id] }
    else
      { q with
        tasks := q.tasks ++ [(id, task.holdBack notBefore now)]
        scheduled := addWakeup ⟨notBefore, id⟩ q.scheduled }
  (id, { (added.hold key id).note ⟨id, job, delay, now, notBefore⟩ with created := q.created + 1 })

/-- Give up the key that a task holds, if it still holds one. -/
def releaseKey (q : Queue) (id : TaskId) : Queue :=
  match (q.task? id).bind (·.key) with
  | none => q
  | some key => { q with holders := q.holders.filter (· ≠ (key, id)) }

/-- The totals after one more task has finished in a state, if that is a finished state. -/
def addTotal? (t : Totals) : TaskState → Option Totals
  | .succeeded => some { t with succeeded := t.succeeded + 1 }
  | .dead => some { t with dead := t.dead + 1 }
  | .cancelled => some { t with cancelled := t.cancelled + 1 }
  | _ => none

/-- Book a task that has just finished, and forget the oldest finished ones beyond the limit. -/
def retire (q : Queue) (id : TaskId) : Queue :=
  match (q.task? id).bind fun task => addTotal? q.totals task.state with
  | none => q
  | some totals =>
    let finished := q.finished ++ [id]
    let gone := finished.take (finished.length - q.historyLimit)
    { q with
      totals
      finished := lastOf q.historyLimit finished
      tasks := q.tasks.filter fun entry => !gone.contains entry.1 }

def liveHolder (q : Queue) (key : Key) : Option (TaskId × TaskState) := do
  let (_, id) ← q.holders.find? (·.1 = key)
  let task ← q.task? id
  if task.state.isTerminal then none else some (id, task.state)

/-- Enqueue a task that may run after `delay`. -/
def enqueueDelayed (q : Queue) (now : Nat) (job : Job) (delay : Delay) :
    Except QueueError TaskId × Queue :=
  if q.closed then (.error .closed, q)
  else
    let (id, q) := q.insert now job delay none
    (.ok id, q)

def enqueue (q : Queue) (now : Nat) (job : Job) : Except QueueError TaskId × Queue :=
  q.enqueueDelayed now job Delay.zero

/-- Enqueue a task under a key. A task that holds the key and runs is never replaced. -/
def enqueueUnique (q : Queue) (now : Nat) (key : Key) (policy : HolderPolicy) (job : Job) :
    Except QueueError Placement × Queue :=
  if q.closed then (.error .closed, q)
  else match q.liveHolder key, policy with
    | none, _ =>
      let (id, q) := q.insert now job Delay.zero (some key)
      (.ok (.enqueued id), q)
    | some (holder, _), .keepExisting | some (holder, .running), .replace =>
      (.ok (.keptExisting holder), q)
    | some (previous, _), .replace =>
      let q := (q.modify previous (·.cancel now)).retire previous
      let (id, q) := q.insert now job Delay.zero (some key)
      (.ok (.replaced previous id), q)

/-- Refuse new tasks and hand out no more. -/
def close (q : Queue) : Queue := { q with closed := true }

end Queue

end PacedChain
