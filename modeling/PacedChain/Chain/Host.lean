import PacedChain.Chain.Desk

/-!
# The host

Groups of workers that run the chain of a desk. A worker asks for a lease, executes it, completes it
with the outcome and tells the chain what became of it, and starts over. A group can be asked to
stop, or left alone by its owner; a worker then ends instead of taking a lease, but never between a
lease and its completion. Steps of workers are explicit (`Host.stepWorker`); letting time pass
(`Host.runUntil`) takes them in turn, and executions take no time.
-/
namespace PacedChain

inductive Station where
  /-- About to see whether the group is asked to stop. -/
  | checking
  /-- Waiting for a lease or for the end of the group. -/
  | waiting
  | executing (lease : Lease) (stage : Stage)
  /-- The lease is completed, and the chain not told yet. -/
  | completed (lease : Lease) (completion : Completion)
  | gone

structure Worker where
  group : Nat
  station : Station

/-- Which of two things that a waiting worker can do at once it does. -/
inductive Preference where
  | stop
  | lease
  deriving DecidableEq

structure Host where
  desk : Desk
  chain : Chain
  workers : List Worker := []
  groups : Nat := 0
  /-- The group that still has an owner. -/
  current : Option Nat := none
  asked : List Nat := []
  left : List Nat := []

namespace Host

def isAsked (h : Host) (w : Worker) : Bool := h.asked.contains w.group

/-- Whether a worker learns that its group ends. -/
def isEnding (h : Host) (w : Worker) : Bool := h.isAsked w || h.left.contains w.group

/-- What a worker does next, and where it stands then. -/
def act (h : Host) (w : Worker) (preference : Preference) : Station × Host :=
  match w.station with
  | .checking => (if h.isAsked w then .gone else .waiting, h)
  | .waiting =>
    -- A group without an owner ends its waiting workers, but does not stop the others.
    if h.isEnding w && preference == .stop then
      (if h.isAsked w then .checking else .gone, h)
    else match h.desk.look with
      | (.closed, desk) => (.gone, { h with desk })
      | (.leased lease, desk) => (.executing lease .leased, { h with desk })
      | (.idle _, desk) => (.waiting, { h with desk })
  | .executing lease (.settled result) =>
    match h.desk.complete lease.envelope.task (Chain.outcome result) with
    | (.ok completion, desk) => (.completed lease completion, { h with desk })
    -- A refused report is dropped; a wait that cannot be computed takes the worker with it.
    | (.error (.refused _), desk) => (.checking, { h with desk })
    | (.error (.noDelay _), desk) => (.gone, { h with desk })
  | .executing lease stage =>
    let (stage, chain, desk) := h.chain.advance lease.envelope.job h.desk stage
    (.executing lease stage, { h with chain, desk })
  | .completed lease completion =>
    (.checking, { h with chain := h.chain.recordCompletion lease.envelope.job completion })
  | .gone => (.gone, h)

def stepWorker (h : Host) (index : Nat) (preference : Preference) : Host :=
  match h.workers[index]? with
  | none => h
  | some w =>
    let (station, h) := h.act w preference
    { h with workers := h.workers.set index { w with station } }

/-- Whether a worker has something to do that is not taking a lease. -/
def isBusy (h : Host) (w : Worker) : Bool :=
  match w.station with
  | .waiting => h.isEnding w
  | .gone => false
  | _ => true

def isWaiting (w : Worker) : Bool :=
  match w.station with
  | .waiting => true
  | _ => false

/-- The next thing that happens before `limit`, if anything does: the first busy worker takes a
step, else the first waiting one takes a lease, else the clock moves on to the next wake-up. -/
def tick (h : Host) (limit : Nat) : Option Host :=
  match h.workers.findIdx? h.isBusy with
  | some index => some (h.stepWorker index .stop)
  | none =>
    match h.workers.findIdx? isWaiting with
    | none => none
    | some index =>
      match h.desk.queue.look h.desk.now with
      | (.idle none, _) => none
      | (.idle (some wake), queue) =>
        -- What falls due at the limit itself belongs to what comes after it.
        if Clock.wholeMilli wake < limit then
          some { h with desk := { h.desk with queue, now := Clock.wholeMilli wake } }
        else none
      | _ => some (h.stepWorker index .lease)

/-- Let everything happen that happens before `limit`, but at most so many things, and then stand at
`limit`. -/
def runUntil (limit : Nat) : (budget : Nat) → Host → Host
  | 0, h => h
  | budget + 1, h =>
    match h.tick limit with
    | some h => runUntil limit budget h
    | none => { h with desk := { h.desk with now := limit } }

/-- More things than happen between two instants of any run that ends. -/
def budget : Nat := Nat.pow 10 15

def sleep (h : Host) (duration : Nat) : Host := runUntil (h.desk.now + duration) budget h

/-- Leave the current group without an owner; whether there was one. -/
def leaveGroup (h : Host) : Bool × Host :=
  match h.current with
  | none => (false, h)
  | some group => (true, { h with current := none, left := group :: h.left })

/-- Form a group of `n` workers in place of the current one. -/
def spawn (h : Host) (n : Nat) : Host :=
  let (_, h) := h.leaveGroup
  { h with
    workers := h.workers ++ List.replicate n ⟨h.groups, .checking⟩
    groups := h.groups + 1
    current := some h.groups }

def requestShutdown (h : Host) : Host :=
  match h.current with
  | none => h
  | some group => { h with asked := group :: h.asked }

def shutdown (h : Host) : Host :=
  match h.current with
  | none => h
  | some _ => sleep { h.requestShutdown with current := none } 0

def trigger (h : Host) (signal : Trigger) : Except ChainError Placement × Host :=
  let (result, chain, desk) := h.chain.trigger signal h.desk
  (result, { h with chain, desk })

def closeQueue (h : Host) : Host :=
  { h with desk := { h.desk with queue := h.desk.queue.close } }

/-- The journal in order of time, and the host with an empty one. -/
def takeJournal (h : Host) : List (Nat × Entry) × Host :=
  (h.desk.journal.reverse, { h with desk := { h.desk with journal := [] } })

end Host

end PacedChain
