import PacedChain.Named

/-!
# Outcomes

An execution tells the queue whether its attempt is done; the queue tells the chain what became of
the task.
-/
namespace PacedChain

/-- What an execution reports of its attempt. -/
inductive Outcome where
  /-- The attempt is done, and its successor is scheduled. -/
  | success
  /-- Nothing was scheduled; the attempt is to be made again. -/
  | retry
  deriving DecidableEq

instance : Named Outcome where
  all := [.success, .retry]
  text
    | .success => "SUCCESS"
    | .retry => "RETRY"

def Outcome.isSuccess : Outcome → Bool
  | .success => true
  | .retry => false

inductive Completion where
  | succeeded
  /-- The attempt of this number is followed by another one after `delaySecs` seconds. -/
  | retryScheduled (attempt delaySecs : Nat)
  /-- The budget is spent after so many attempts, and the task never runs again. -/
  | dead (attempts : Nat)
  deriving DecidableEq

end PacedChain
