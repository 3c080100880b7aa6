import PacedChain.Queue.Basic

/-!
# Boundaries

The chain asks two opaque computations how many seconds to wait: the oracle before the first sync,
the engine after each sync. A boundary is the sequence of its answers and the number of calls made
so far. Calls go through a guard that lets one of them run at a time, and guards that share a lock
exclude each other. A call that crashes leaves the lock poisoned, and the calls after it take it all
the same (`Lock.hold`).
-/
namespace PacedChain

/-- What one call of a boundary comes to. -/
inductive Answer where
  /-- A recommendation in seconds; one that is not positive recommends nothing. -/
  | recommends (secs : Int)
  | fails (reason : String)
  /-- The call does not return. -/
  | crashes (reason : String)
  deriving DecidableEq

def Answer.isCrash : Answer → Bool
  | .crashes _ => true
  | _ => false

structure Boundary where
  /-- The answer to the call with this number, counted from zero. -/
  answer : Nat → Answer
  calls : Nat := 0

namespace Boundary

/-- The given answers in order, then the same one for ever. -/
def script (answers : List Answer) (otherwise : Answer) : Boundary :=
  { answer := fun n => answers.getD n otherwise }

def call (b : Boundary) : Answer × Boundary := (b.answer b.calls, { b with calls := b.calls + 1 })

end Boundary

inductive ChainError where
  | oracle (reason : String)
  | engine (reason : String)
  | scheduling (error : QueueError)
  | guardedCall (reason : String)
  | unknownTrigger (text : String)
  deriving DecidableEq

namespace ChainError

def message : ChainError → String
  | .oracle reason => s!"environment oracle failed: {reason}"
  | .engine reason => s!"sync engine failed: {reason}"
  | .scheduling error => s!"scheduling failed: {error.message}"
  | .guardedCall reason => s!"guarded call did not complete: {reason}"
  | .unknownTrigger text => s!"unknown trigger: {text}"

def cause : ChainError → Option String
  | .oracle reason | .engine reason => some reason
  | .scheduling error => some error.message
  | .guardedCall _ | .unknownTrigger _ => none

end ChainError

/-- The lock of a guard, as the calls that have held it left it. -/
structure Lock where
  /-- One of them has crashed. -/
  poisoned : Bool := false
  deriving DecidableEq

namespace Lock

/-- Take the lock; an error hands it out as well, and says that it is poisoned. -/
def take (l : Lock) : Except Lock Lock := if l.poisoned then .error l else .ok l

/-- What comes of a call that is made while the lock is held. A poisoned lock is recovered, since it
guards no data. -/
def hold (l : Lock) (answer : Answer) : Answer × Lock :=
  let held := match l.take with
    | .ok held => held
    | .error poisoned => poisoned
  (answer, { poisoned := held.poisoned || answer.isCrash })

theorem hold_eq (l : Lock) (answer : Answer) :
    l.hold answer = (answer, ⟨l.poisoned || answer.isCrash⟩) := by
  obtain ⟨poisoned⟩ := l
  cases poisoned <;> rfl

end Lock

/-- A guard is known by its lock. -/
structure Guard where
  lock : Nat
  deriving DecidableEq

namespace Guard

def sharesLock (a b : Guard) : Bool := a.lock == b.lock

/-- What a call under the guard comes to, here with a lock that nobody has poisoned. -/
def exclusive (_ : Guard) (answer : Answer) : Answer := (Lock.hold {} answer).1

/-- A call under the guard comes to what it comes to without. -/
theorem exclusive_eq (g : Guard) (answer : Answer) : g.exclusive answer = answer :=
  congrArg Prod.fst (Lock.hold_eq {} answer)

/-- A call under the guard that is waited for: a failure is wrapped, a crash is an error. -/
def await (g : Guard) (wrap : String → ChainError) (answer : Answer) : Except ChainError Int :=
  match g.exclusive answer with
  | .recommends secs => .ok secs
  | .fails reason => .error (wrap reason)
  | .crashes reason => .error (.guardedCall reason)

end Guard

/-- Guards in the order in which they were made; a new one has a lock of its own. -/
structure GuardRack where
  guards : List Guard := []

namespace GuardRack

def addNew (r : GuardRack) : GuardRack := ⟨r.guards ++ [⟨r.guards.length⟩]⟩

def addShared (r : GuardRack) (g : Guard) : GuardRack := ⟨r.guards ++ [g]⟩

end GuardRack

end PacedChain
