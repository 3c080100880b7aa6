import PacedChain.Queue.Lease
import PacedChain.Queue.Tally

/-!
# Sessions

A run of a queue against a clock: operations one after the other, among them waits for a lease, the
completion of the leases that were handed out, and letting time pass. One wait at most goes on in
the background. It looks at the queue after every operation and at every time at which a task falls
due, as if it were always called in time. In a `Lobby` any number of waits sleep until they are
called, and one may take a call from another.
-/
namespace PacedChain

inductive Operation where
  | enqueue (job : Job)
  | enqueueDelayed (job : Job) (delay : Delay)
  | enqueueUnique (key : Key) (policy : HolderPolicy) (job : Job)
  /-- Wait for a lease, at most for `patience`. -/
  | lease (patience : Nat)
  /-- Complete the lease with this number. -/
  | complete (lease : Nat) (outcome : Outcome)
  /-- Give a lease up without completing it. -/
  | dropLease (lease : Nat)
  /-- Wait for a lease in the background. -/
  | wait
  | abortWait
  | sleep (duration : Nat)
  | close
  | log
  | retained
  | taskState (task : TaskId)
  | unfinished
  deriving DecidableEq

structure HeldLease where
  number : Nat
  lease : Lease
  /-- Whether no earlier lease has the same attempt id. -/
  fresh : Bool
  deriving DecidableEq

/-- The end of a wait in the background. -/
inductive WaitEnd where
  | closed
  | leased (held : HeldLease)
  deriving DecidableEq

inductive Reply where
  | done
  | enqueued (result : Except QueueError TaskId)
  | placed (result : Except QueueError Placement)
  | leased (held : HeldLease)
  | timedOut
  | closed
  | completed (result : Except QueueError Completion)
  /-- No lease of that number is held. -/
  | noLease
  | dropped (held : Bool)
  | log (entries : List LogEntry)
  | count (n : Nat)
  | state (state : Option TaskState)
  | unfinished (bootstraps syncs : Nat)

/-- An answer, and how things stand after it. -/
structure Observation where
  reply : Reply
  now : Nat
  counts : Counts
  /-- The end of the wait in the background, if it ended by this operation. -/
  waiter : Option WaitEnd

structure Session where
  now : Nat := 0
  queue : Queue
  /-- The leases handed out, in order; `none` where one is used up. -/
  leases : List (Option Lease) := []
  attemptIds : List AttemptId := []
  waiting : Bool := false

namespace Session

def start (queue : Queue) : Session := { queue }

def take (s : Session) (lease : Lease) : HeldLease × Session :=
  (⟨s.leases.length + 1, lease, !s.attemptIds.contains lease.attemptId⟩,
    { s with leases := s.leases ++ [some lease], attemptIds := s.attemptIds ++ [lease.attemptId] })

/-- The lease of a number, and the session without it. -/
def release (s : Session) (number : Nat) : Option (Lease × Session) :=
  match number with
  | 0 => none
  | index + 1 =>
    (s.leases[index]?.join).map fun lease => (lease, { s with leases := s.leases.set index none })

/-- Wait for a lease until a time, which is then now if nothing came earlier. -/
def awaitUntil (s : Session) (deadline : Nat) : Wait × Session :=
  match s.queue.leaseBy s.now deadline with
  | (.leased lease at_, queue) => (.leased lease at_, { s with queue, now := at_ })
  | (.timedOut, queue) => (.timedOut, { s with queue, now := deadline })
  | (.closed, queue) => (.closed, { s with queue })

/-- Let the wait in the background go on until a time. -/
def settleWaiter (s : Session) (deadline : Nat) : Option WaitEnd × Session :=
  if s.waiting then
    match s.awaitUntil deadline with
    | (.leased lease _, s) =>
      let (held, s) := s.take lease
      (some (.leased held), { s with waiting := false })
    | (.closed, s) => (some .closed, { s with waiting := false })
    | (.timedOut, s) => (none, s)
  else (none, s)

/-- Carry out an operation without regard to the wait in the background, unless time passes. -/
def perform (s : Session) : Operation → Except BackoffError (Reply × Session)
  | .enqueue job =>
    let (result, queue) := s.queue.enqueue s.now job
    .ok (.enqueued result, { s with queue })
  | .enqueueDelayed job delay =>
    let (result, queue) := s.queue.enqueueDelayed s.now job delay
    .ok (.enqueued result, { s with queue })
  | .enqueueUnique key policy job =>
    let (result, queue) := s.queue.enqueueUnique s.now key policy job
    .ok (.placed result, { s with queue })
  | .lease patience =>
    match s.awaitUntil (s.now + patience) with
    | (.leased lease _, s) =>
      let (held, s) := s.take lease
      .ok (.leased held, s)
    | (.timedOut, s) => .ok (.timedOut, s)
    | (.closed, s) => .ok (.closed, s)
  | .complete number outcome =>
    match s.release number with
    | none => .ok (.noLease, s)
    | some (lease, s) =>
      match s.queue.complete s.now lease.envelope.task outcome with
      | (.ok completion, queue) => .ok (.completed (.ok completion), { s with queue })
      | (.error (.refused error), queue) => .ok (.completed (.error error), { s with queue })
      | (.error (.noDelay error), _) => .error error
  | .dropLease number =>
    match s.release number with
    | none => .ok (.dropped false, s)
    | some (_, s) => .ok (.dropped true, s)
  | .wait => .ok (.done, { s with waiting := true })
  | .abortWait => .ok (.done, { s with waiting := false })
  | .sleep _ => .ok (.done, s)
  | .close => .ok (.done, { s with queue := s.queue.close })
  | .log => .ok (.log s.queue.log, s)
  | .retained => .ok (.count s.queue.retained, s)
  | .taskState task => .ok (.state (s.queue.taskState task), s)
  | .unfinished => .ok (.unfinished (s.queue.unfinished .bootstrap) (s.queue.unfinished .sync), s)

/-- The time that stands after an operation that does not end earlier. -/
def endTime (s : Session) : Operation → Nat
  | .sleep duration => s.now + duration
  | _ => s.now

/-- Carry out an operation. A wait that cannot be computed ends the session. -/
def step (s : Session) (op : Operation) : Except BackoffError (Observation × Session) := do
  let (reply, s) ← s.perform op
  -- The wait in the background sees the operation, and then every time up to the end of a sleep.
  let until_ := s.endTime op
  let (waiter, s) := s.settleWaiter until_
  let s := { s with now := until_ }
  return (⟨reply, s.now, s.queue.counts, waiter⟩, s)

def run (s : Session) : List Operation → Except BackoffError (List Observation)
  | [] => .ok []
  | op :: rest => do
    let (seen, s) ← s.step op
    return seen :: (← run s rest)

end Session

end PacedChain
