import PacedChain.Queue.Basic

/-!
# Counts

How many tasks are in which state. Unfinished tasks are counted where they are kept; finished ones
are counted as they finish, so that forgetting them changes nothing.
-/
namespace PacedChain

structure Counts where
  queued : Nat
  delayed : Nat
  running : Nat
  succeeded : Nat
  retryScheduled : Nat
  dead : Nat
  cancelled : Nat
  deriving DecidableEq

def Counts.pending (c : Counts) : Nat := c.queued + c.delayed + c.running + c.retryScheduled

namespace Queue

/-- How many of the tasks that are kept have a property. -/
def countTasks (q : Queue) (p : Task → Bool) : Nat := q.tasks.countP fun entry => p entry.2

def counts (q : Queue) : Counts where
  queued := q.countTasks (·.state == .queued)
  delayed := q.countTasks (·.state == .delayed)
  running := q.countTasks (·.state == .running)
  succeeded := q.totals.succeeded
  retryScheduled := q.countTasks (·.state == .retryScheduled)
  dead := q.totals.dead
  cancelled := q.totals.cancelled

/-- How many tasks are kept, finished or not. -/
def retained (q : Queue) : Nat := q.tasks.length

def taskState (q : Queue) (id : TaskId) : Option TaskState := (q.task? id).map (·.state)

def unfinished (q : Queue) (job : Job) : Nat :=
  q.countTasks fun task => task.job == job && !task.state.isTerminal

end Queue

end PacedChain
