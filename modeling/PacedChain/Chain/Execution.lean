import PacedChain.Chain.Status
import PacedChain.Trigger

/-!
# Executions

A chain runs on any queue that can enqueue under a key and with a delay (`TaskQueue`). A trigger
enqueues a bootstrap unless one is pending. An execution asks the boundary of its job and enqueues
one sync after the delay that follows from the answer; if either fails, nothing is enqueued and the
attempt is left to the queue to repeat. Both are made of steps (`Stage`), between which other calls
may come.
-/
namespace PacedChain

/-- A queue as a chain sees it. -/
class TaskQueue (σ : Type) where
  enqueueUnique : σ → Key → HolderPolicy → Job → Except QueueError Placement × σ
  enqueueDelayed : σ → Job → Delay → Except QueueError TaskId × σ

/-- The constants of a chain. -/
structure ChainPolicy where
  /-- The key under which bootstraps are duplicates of each other. -/
  key : Key := Key.standard
  /-- The spacing of syncs where the engine recommends none. -/
  fallback : Delay := Delay.fallback
  deriving DecidableEq, Inhabited

/-- A chain: its constants, its boundaries and what has been seen of it. -/
structure Chain where
  policy : ChainPolicy
  oracle : Boundary
  engine : Boundary
  guard : Guard := ⟨0⟩
  /-- How the calls so far have left the lock of the guard. -/
  lock : Lock := {}
  status : Status := {}

/-- How far an execution has come. -/
inductive Stage where
  | leased
  | started
  | answered (answer : Answer)
  /-- The successor is on the queue. -/
  | placed (successor : Scheduled)
  | settled (result : Except ChainError Scheduled)

namespace Chain

/-- The delay before the sync that follows an execution. -/
def successorDelay (c : Chain) : Job → Int → Delay
  | .bootstrap, secs => Delay.clamped secs
  | .sync, secs => Delay.orFallback secs c.policy.fallback

/-- Call the boundary of a job under the lock of the guard. -/
def ask (c : Chain) : Job → Answer × Chain
  | .bootstrap =>
    let (answer, oracle) := c.oracle.call
    let (answer, lock) := c.lock.hold answer
    (answer, { c with oracle, lock })
  | .sync =>
    let (answer, engine) := c.engine.call
    let (answer, lock) := c.lock.hold answer
    (answer, { c with engine, lock })

def boundaryError : Job → String → ChainError
  | .bootstrap => .oracle
  | .sync => .engine

variable {σ : Type} [TaskQueue σ]

/-- Put the successor of an answered call on the queue. -/
def place (c : Chain) (job : Job) (answer : Answer) (q : σ) : Except ChainError Scheduled × σ :=
  match c.guard.await (boundaryError job) answer with
  | .error error => (.error error, q)
  | .ok secs =>
    let delay := c.successorDelay job secs
    match TaskQueue.enqueueDelayed q .sync delay with
    | (.error error, q) => (.error (.scheduling error), q)
    | (.ok task, q) => (.ok ⟨task, delay⟩, q)

def advance (c : Chain) (job : Job) (q : σ) : Stage → Stage × Chain × σ
  | .leased => (.started, { c with status := c.status.start job }, q)
  | .started => let (answer, c) := c.ask job; (.answered answer, c, q)
  | .answered answer =>
    match c.place job answer q with
    | (.ok successor, q) => (.placed successor, c, q)
    | (.error error, q) => (.settled (.error error), c, q)
  | .placed successor =>
    (.settled (.ok successor), { c with status := c.status.schedule successor }, q)
  | .settled result => (.settled result, c, q)

/-- What an execution comes to that nobody observes. -/
def runJob (c : Chain) (job : Job) (q : σ) : Except ChainError Scheduled × Chain × σ :=
  let (answer, c) := c.ask job
  let (result, q) := c.place job answer q
  (result, c, q)

/-- What is reported to the queue of a result. -/
def outcome : Except ChainError Scheduled → Outcome
  | .ok _ => .success
  | .error _ => .retry

def observe (c : Chain) : Except ChainError Scheduled → Chain
  | .ok successor => { c with status := c.status.schedule successor }
  | .error _ => c

/-- Execute a job under observation. -/
def execute (c : Chain) (job : Job) (q : σ) : Outcome × Chain × σ :=
  let (result, c, q) := { c with status := c.status.start job }.runJob job q
  (outcome result, c.observe result, q)

/-- An execution is the four steps from its lease to its result. -/
theorem execute_eq_advance (c : Chain) (job : Job) (q : σ) :
    ∃ result c' q',
      (let (stage, c, q) := c.advance job q .leased
       let (stage, c, q) := c.advance job q stage
       let (stage, c, q) := c.advance job q stage
       c.advance job q stage) = (.settled result, c', q') ∧
      c.execute job q = (outcome result, c', q') := by
  simp only [advance, execute, runJob]
  generalize ({ c with status := c.status.start job } : Chain).ask job = asked
  obtain ⟨answer, c'⟩ := asked
  simp only
  cases h : c'.place job answer q with
  | mk result q' => cases result <;> exact ⟨_, _, _, rfl, rfl⟩

/-- Enqueue a bootstrap under a key, unless one is pending. -/
def fire (_signal : Trigger) (key : Key) (q : σ) : Except ChainError Placement × σ :=
  match TaskQueue.enqueueUnique q key .keepExisting .bootstrap with
  | (.ok placement, q) => (.ok placement, q)
  | (.error error, q) => (.error (.scheduling error), q)

def noteTrigger (c : Chain) : Except ChainError Placement → Chain
  | .ok placement =>
    if placement.isNew then { c with status := c.status.apply .bootstrapEnqueued } else c
  | .error _ => c

def trigger (c : Chain) (signal : Trigger) (q : σ) : Except ChainError Placement × Chain × σ :=
  let (result, q) := fire signal c.policy.key q
  (result, c.noteTrigger result, q)

def recordCompletion (c : Chain) (job : Job) (completion : Completion) : Chain :=
  { c with status := c.status.complete job completion }

end Chain

end PacedChain
