import PacedChain.Clock

/-!
# Delay

A recommendation is a signed number of seconds, and one that is not positive recommends nothing.
A bootstrap runs its first sync at once in that case (`Delay.clamped`), a sync keeps to the fallback
spacing (`Delay.orFallback`), so a scheduled delay is never negative.
-/
namespace PacedChain

structure Delay where
  secs : Nat
  deriving DecidableEq, Inhabited

namespace Delay

def zero : Delay := ⟨0⟩

/-- One day: the spacing that is used when nothing is recommended. -/
def fallback : Delay := ⟨24 * 60 * 60⟩

/-- The recommendation, or no delay if it is not positive. -/
def clamped (recommended : Int) : Delay := ⟨recommended.toNat⟩

/-- The recommendation, or the other delay if it is not positive. -/
def orFallback (recommended : Int) (other : Delay) : Delay :=
  if 0 < recommended then ⟨recommended.toNat⟩ else other

def isZero (d : Delay) : Bool := d.secs == 0

def duration (d : Delay) : Nat := Clock.ofSecs d.secs

def text (d : Delay) : String := s!"{d.secs}s"

def order (a b : Delay) : Ordering := compare a.secs b.secs

theorem isZero_iff {d : Delay} : d.isZero = true ↔ d = zero := by
  obtain ⟨n⟩ := d
  simp [isZero, zero]

theorem isZero_orFallback {v : Int} {d : Delay} (h : d.isZero = false) :
    (orFallback v d).isZero = false := by
  unfold orFallback
  split
  · next pos => simp only [isZero, beq_eq_false_iff_ne]; omega
  · exact h

end Delay

end PacedChain
