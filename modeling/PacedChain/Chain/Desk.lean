import PacedChain.Chain.Execution
import PacedChain.Queue.Lease
import PacedChain.Queue.Tally

/-!
# The desk

A queue together with the clock it is read by and the journal of the calls on it.
-/
namespace PacedChain

/-- One call on the queue, with what came of it. -/
inductive Entry where
  | enqueue (job : Job) (result : Except QueueError TaskId)
  | enqueueDelayed (job : Job) (delay : Delay) (result : Except QueueError TaskId)
  | enqueueUnique (key : Key) (policy : HolderPolicy) (job : Job)
      (result : Except QueueError Placement)
  | lease (lease : Lease)
  /-- Who wanted a lease learns that the queue is closed. -/
  | leaseEnd
  | complete (task : TaskId) (outcome : Outcome) (result : Except CompleteError Completion)

structure Desk where
  now : Nat := 0
  queue : Queue
  /-- The calls so far and their times, the last one first. -/
  journal : List (Nat × Entry) := []

namespace Desk

def enter (d : Desk) (queue : Queue) (entry : Entry) : Desk :=
  { d with queue, journal := (d.now, entry) :: d.journal }

def enqueue (d : Desk) (job : Job) : Except QueueError TaskId × Desk :=
  let (result, queue) := d.queue.enqueue d.now job
  (result, d.enter queue (.enqueue job result))

instance : TaskQueue Desk where
  enqueueUnique d key policy job :=
    let (result, queue) := d.queue.enqueueUnique d.now key policy job
    (result, d.enter queue (.enqueueUnique key policy job result))
  enqueueDelayed d job delay :=
    let (result, queue) := d.queue.enqueueDelayed d.now job delay
    (result, d.enter queue (.enqueueDelayed job delay result))

/-- Look for a lease. Only a look that ends the wait for one is a call of its own. -/
def look (d : Desk) : Look × Desk :=
  match d.queue.look d.now with
  | (.closed, queue) => (.closed, d.enter queue .leaseEnd)
  | (.leased lease, queue) => (.leased lease, d.enter queue (.lease lease))
  | (.idle wake, queue) => (.idle wake, { d with queue })

def complete (d : Desk) (task : TaskId) (outcome : Outcome) :
    Except CompleteError Completion × Desk :=
  let (result, queue) := d.queue.complete d.now task outcome
  (result, d.enter queue (.complete task outcome result))

end Desk

end PacedChain
