import PacedChain.Binary64
import PacedChain.Clock

/-!
# Backoff

How long a task waits after a failed attempt, and how many attempts it has. The wait after attempt
`n` is `min (base * multiplier ^ (n - 1)) cap`, computed in doubles of seconds; what is not finite
counts as more than the cap.
-/
namespace PacedChain

inductive BackoffError where
  /-- The formula gives less than zero seconds. -/
  | negativeDelay
  deriving DecidableEq

def BackoffError.message : BackoffError → String
  | .negativeDelay => "cannot convert float seconds to Duration: value is negative"

/-- Waits that grow by a factor up to a cap, within a budget of attempts. Times are nanoseconds. -/
structure Backoff where
  base : Nat
  multiplier : Binary64
  cap : Nat
  /-- Attempts in all, the first one counted; `none` is no limit. -/
  budget : Option Nat
  deriving DecidableEq

namespace Backoff

/-- Half a minute, doubled each time, at most five hours, without limit. -/
def standard : Backoff :=
  ⟨Clock.ofSecs 30, Binary64.ofNat 2, Clock.ofSecs (5 * 60 * 60), none⟩

instance : Inhabited Backoff := ⟨standard⟩

/-- A duration in seconds: its whole seconds and its fraction, each rounded, are added. -/
def seconds (duration : Nat) : Binary64 :=
  Binary64.add (Binary64.ofNat (Clock.secs duration))
    (Binary64.ofRatio (Clock.subNanos duration) Clock.second)

/-- The duration nearest to so many units of seconds; half a nanosecond goes to the even one. -/
def nanos (negative : Bool) (units : Nat) : Except BackoffError Nat :=
  if negative && units != 0 then .error .negativeDelay
  else .ok (Binary64.divNearest (units * Clock.second) Binary64.unity)

/-- The greatest exponent that is computed with. -/
def maxExponent : Nat := Nat.pow 2 31 - 1

/-- The seconds that the formula gives before the cap. -/
def uncapped (b : Backoff) (attempts : Nat) : Binary64 :=
  Binary64.mul (seconds b.base) (Binary64.pow b.multiplier (min (attempts - 1) maxExponent))

/-- The wait of so many seconds, up to the cap. -/
def capped (b : Backoff) : Binary64 → Except BackoffError Nat
  | .finite negative units =>
    if Binary64.le (seconds b.cap) (.finite negative units) then .ok b.cap
    else nanos negative units
  | _ => .ok b.cap

def nextDelay (b : Backoff) (attempts : Nat) : Except BackoffError Nat :=
  b.capped (b.uncapped attempts)

/-- Whether a task that has made so many attempts may be tried again. -/
def allowsRetry (b : Backoff) (attempts : Nat) : Bool :=
  match b.budget with
  | none => true
  | some budget => attempts < budget

end Backoff

end PacedChain
