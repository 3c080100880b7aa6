import PacedChain.Queue.Session

/-!
# Calls and alarms

In a session, the wait in the background looks at the queue after every operation and at every time
at which a task falls due. In fact it sleeps: it looks when it is called, and when its alarm goes
off, which is set to the first time in the schedule as it has last seen it (`Vigil`). A new task,
one that is to be tried again and the closing of the queue call whoever waits. Where no one does,
one call is kept for the next wait to begin, though not that of the closing. Every wait looks before
it sleeps, and a call that was kept makes it look twice. There is one wait in the background at most;
for several of them, see `Lobby`.
-/
namespace PacedChain

/-- Whether an operation with this answer calls who waits for a lease. -/
def Reply.calls : Reply → Bool
  | .enqueued (.ok _) | .placed (.ok (.enqueued _)) | .placed (.ok (.replaced _ _))
  | .completed (.ok (.retryScheduled _ _)) => true
  | _ => false

/-- Whether a wait for a lease begins with this operation. -/
def Operation.begins : Operation → Bool
  | .lease _ | .wait => true
  | _ => false

/-- What the first of two looks leaves to the second one, if it does not end the wait. -/
def Queue.glance (q : Queue) (now : Nat) : Queue :=
  match q.look now with
  | (.idle _, q') => q'
  | _ => q

/-- A session whose wait in the background sleeps. -/
structure Vigil where
  session : Session
  /-- There is a call that no one has answered. -/
  called : Bool := false
  /-- When the wait in the background looks next if it is not called. -/
  alarm : Option Nat := none

namespace Vigil

def start (queue : Queue) : Vigil := { session := .start queue }

/-- Whether a call is unanswered after an operation. A wait answers it where it begins, and the one
in the background, which has yet to look then, counts as called. -/
def calledAfter (v : Vigil) (op : Operation) (reply : Reply) : Bool :=
  match op with
  | .lease _ => false
  | .wait => true
  | .close => v.called || v.session.waiting
  | _ => v.called || reply.calls

/-- Carry out an operation without regard to the wait in the background, unless time passes. -/
def perform (v : Vigil) (op : Operation) : Except BackoffError (Reply × Vigil) := do
  let glanced := v.session.queue.glance v.session.now
  let queue := if v.called && op.begins then glanced else v.session.queue
  let (reply, session) ← { v.session with queue }.perform op
  return (reply, { v with session, called := v.calledAfter op reply })

/-- When the wait in the background looks next. If its alarm goes off in the course of another wait,
it looks after the end of that one: the other one has looked at the same times and just before. -/
def nextLook (v : Vigil) : Option Nat :=
  if v.called then some v.session.now
  else v.alarm.map fun time => max v.session.now (Clock.wholeMilli time)

/-- Let the wait in the background go on until a time. -/
def settle (v : Vigil) (deadline : Nat) : Option WaitEnd × Vigil :=
  match v.nextLook with
  | none => (none, v)
  | some now =>
    if v.session.waiting && now ≤ deadline then
      let (ended, session) := { v.session with now }.settleWaiter deadline
      (ended, { session, alarm := session.queue.scheduled.head?.map (·.notBefore) })
    else (none, v)

/-- Carry out an operation. A wait that cannot be computed ends the session. -/
def step (v : Vigil) (op : Operation) : Except BackoffError (Observation × Vigil) := do
  let (reply, v) ← v.perform op
  let until_ := v.session.endTime op
  let (waiter, v) := v.settle until_
  return (⟨reply, until_, v.session.queue.counts, waiter⟩,
    { v with session := { v.session with now := until_ } })

def run (v : Vigil) : List Operation → Except BackoffError (List Observation)
  | [] => .ok []
  | op :: rest => do
    let (seen, v) ← v.step op
    return seen :: (← run v rest)

end Vigil

end PacedChain
