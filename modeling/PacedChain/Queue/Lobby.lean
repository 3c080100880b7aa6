import PacedChain.Queue.Vigil

/-!
# Lobbies

Any number of waits for a lease. Each looks at the queue when it begins, when it is called and when
its alarm goes off, which is set to the first time in the schedule as it has last seen it. A new
task and one that is to be tried again call only the wait that has slept for longest; the closing of
the queue calls all of them. A wait that looks in vain is the last in the row from then on. Where no
one waits, one call is kept for the next wait to begin, though not that of the closing.

Who is called, or whose alarm goes off, looks before anything else happens, and those whose alarms
go off at the same time look one after the other. Time passes in whole milliseconds. Where no two
wait at once, this is a session (`Lobby.run_solitary`).
-/
namespace PacedChain

/-- Whether an operation takes no time and is about no wait. -/
def Operation.isInstant : Operation → Bool
  | .lease _ | .wait | .abortWait | .sleep _ => false
  | _ => true

namespace Queue

/-- The wake-ups that are still to come. -/
def ahead (q : Queue) (now : Nat) : List Wakeup := q.scheduled.filter (now < ·.notBefore)

/-- The times after `now` and up to `deadline` at which alarms may go off. -/
def wakeTimes (q : Queue) (now deadline : Nat) : List Nat :=
  ((q.ahead now).map fun w => Clock.wholeMilli w.notBefore).filter (· ≤ deadline)

end Queue

/-- What a look comes to for the wait whose look it is. -/
inductive Glimpse where
  | ends (how : WaitEnd)
  | sleeps (alarm : Option Nat)

/-- A wait looks at the queue. -/
def Session.look (s : Session) : Glimpse × Session :=
  match s.queue.look s.now with
  | (.closed, queue) => (.ends .closed, { s with queue })
  | (.leased lease, queue) =>
    let (held, s) := { s with queue }.take lease
    (.ends (.leased held), s)
  | (.idle alarm, queue) => (.sleeps alarm, { s with queue })

/-- A wait that sleeps. -/
structure Waiter where
  name : Nat
  /-- When it looks if it is not called. -/
  alarm : Option Nat
  deriving DecidableEq

/-- The alarm has gone off by now. -/
def Waiter.isDue (now : Nat) (w : Waiter) : Bool := w.alarm.any (· ≤ now)

/-- A wait that has ended. -/
structure Ended where
  name : Nat
  at_ : Nat
  how : WaitEnd
  deriving DecidableEq

structure Lobby where
  session : Session
  /-- Who waits, the one that has slept for longest first. -/
  waiters : List Waiter := []
  /-- There is a call that no one has answered. -/
  kept : Bool := false

namespace Lobby

def start (queue : Queue) : Lobby := { session := .start queue }

def isWaiting (l : Lobby) (name : Nat) : Bool := l.waiters.any (·.name = name)

/-- A wait looks: it ends, or sleeps as the last in the row. -/
def look (l : Lobby) (name : Nat) : List Ended × Lobby :=
  match l.session.look with
  | (.ends how, session) => ([⟨name, l.session.now, how⟩], { l with session })
  | (.sleeps alarm, session) =>
    ([], { l with session, waiters := l.waiters ++ [⟨name, alarm⟩] })

/-- Waits that sleep no longer look one after the other. -/
def looks (l : Lobby) : List Waiter → List Ended × Lobby
  | [] => ([], l)
  | w :: ws =>
    let (first, l) := l.look w.name
    let (later, l) := l.looks ws
    (first ++ later, l)

theorem looks_cons (l : Lobby) (w : Waiter) (ws : List Waiter) :
    l.looks (w :: ws) = ((l.look w.name).1 ++ ((l.look w.name).2.looks ws).1,
      ((l.look w.name).2.looks ws).2) := rfl

/-- Call the wait that has slept for longest. -/
def callOne (l : Lobby) : List Ended × Lobby :=
  match l.waiters with
  | [] => ([], { l with kept := true })
  | w :: ws => { l with waiters := ws }.look w.name

def callAll (l : Lobby) : List Ended × Lobby := { l with waiters := [] }.looks l.waiters

/-- The alarms go off whose time has come. -/
def ring (l : Lobby) : List Ended × Lobby :=
  { l with waiters := l.waiters.filter (!·.isDue l.session.now) }.looks
    (l.waiters.filter (·.isDue l.session.now))

def standAt (l : Lobby) (now : Nat) : Lobby := { l with session := { l.session with now } }

/-- The clock comes by these times. -/
def passBy (l : Lobby) : List Nat → List Ended × Lobby
  | [] => ([], l)
  | now :: times =>
    let (first, l) := (l.standAt now).ring
    let (later, l) := l.passBy times
    (first ++ later, l)

theorem passBy_cons (l : Lobby) (now : Nat) (times : List Nat) :
    l.passBy (now :: times) = ((l.standAt now).ring.1 ++ ((l.standAt now).ring.2.passBy times).1,
      ((l.standAt now).ring.2.passBy times).2) := rfl

/-- What can happen in a lobby. -/
inductive Move where
  | call (op : Operation) (instant : op.isInstant = true)
  /-- A wait begins, unless one of that name goes on. -/
  | wait (name : Nat)
  | giveUp (name : Nat)
  /-- Time passes, in milliseconds. -/
  | pass (millis : Nat)
  deriving DecidableEq

/-- A wait that begins answers the call that was kept, which makes it look once more than others. -/
def answered (l : Lobby) : Lobby :=
  { l with
    session.queue := if l.kept then l.session.queue.glance l.session.now else l.session.queue
    kept := false }

/-- What is answered, which waits end, and the lobby after it. -/
def perform (l : Lobby) : Move → Except BackoffError (Reply × List Ended × Lobby)
  | .call op _ => do
    let (reply, session) ← l.session.perform op
    let l := { l with session }
    return (reply,
      if op = .close then l.callAll else if reply.calls then l.callOne else ([], l))
  | .wait name =>
    if l.isWaiting name then .ok (.done, [], l) else .ok (.done, l.answered.look name)
  | .giveUp name => .ok (.done, [], { l with waiters := l.waiters.filter (·.name ≠ name) })
  | .pass millis =>
    let deadline := l.session.now + millis * Clock.milli
    let (ended, l) := l.passBy (l.session.queue.wakeTimes l.session.now deadline)
    .ok (.done, ended, l.standAt deadline)

/-- An answer, and how things stand after it. -/
structure Seen where
  reply : Reply
  now : Nat
  counts : Counts
  /-- The waits that have ended on the way. -/
  ended : List Ended

/-- One move. A wait before a task is tried again that cannot be computed ends everything. -/
def step (l : Lobby) (m : Move) : Except BackoffError (Seen × Lobby) := do
  let (reply, ended, l) ← l.perform m
  return (⟨reply, l.session.now, l.session.queue.counts, ended⟩, l)

/-- What is seen of a row of moves, and the lobby after them. -/
def proceed (l : Lobby) : List Move → Except BackoffError (List Seen × Lobby)
  | [] => .ok ([], l)
  | m :: ms => do
    let (first, l) ← l.step m
    let (later, l) ← l.proceed ms
    return (first :: later, l)

def run (l : Lobby) (ms : List Move) : Except BackoffError (List Seen) :=
  (l.proceed ms).map Prod.fst

end Lobby

end PacedChain
