import PacedChain.Proofs.Backoff.Sign
import PacedChain.Proofs.Backoff.Whole
import PacedChain.Proofs.Queue.Calls

/-!
# Waits without a base

Where the base is zero, the formula gives zero, and so there is no wait as long as the power of the
multiplier is finite. Zero times an infinite power is no number, and what is not finite counts as
more than the cap: from there on the wait is the whole cap (`Backoff.nextDelay_of_base_zero`). With
a multiplier of two this happens after attempt 1025. Powers of two below and above the multiplier
tell when its powers are still finite (`Backoff.isFinite_power`) and when they are infinite
(`Backoff.power_eq_infinite`).
-/
namespace PacedChain

-- Their values are too large to be unfolded; what is needed of them is known by lemmas.
attribute [local irreducible] Binary64.unity Binary64.overflow

namespace Binary64

/-- A positive power is a product. -/
theorem exists_mul_powFrom {result base : Binary64} {n : Nat} (positive : 0 < n) :
    ∃ x y, powFrom result base n = mul x y := by
  induction n using Nat.strongRecOn generalizing result base with
  | ind n ih =>
    unfold powFrom
    by_cases last : n / 2 = 0
    · have one : n % 2 = 1 := by omega
      rw [if_pos last, if_pos one]
      exact ⟨_, _, rfl⟩
    · rw [if_neg last]
      exact ih (n / 2) (by omega) (by omega)

theorem rounded_pow (base : Binary64) {n : Nat} (positive : 0 < n) : (pow base n).Rounded := by
  obtain ⟨x, y, product⟩ : ∃ x y, powFrom (ofNat 1) base n = mul x y :=
    exists_mul_powFrom positive
  rw [pow, product]
  exact rounded_mul x y

/-- What is beyond all finite numbers is infinite. -/
theorem eq_infinite_of_reaches {x : Binary64} (rounded : x.Rounded) (h : x.Reaches overflow) :
    x = .infinite false := by
  cases h with
  | infinite => rfl
  | finite large =>
    have small := (rounded _ _ rfl).2
    omega

theorem two_pow_mul_unity (k : Nat) : Representable (2 ^ k * unity) := by
  rw [unity_eq]
  exact (representable_two_pow k).mul_two_pow unityExponent

theorem two_pow_lt_overflow {k : Nat} (small : k < topExponent) : 2 ^ k * unity < overflow := by
  rw [overflow_eq]
  exact Nat.mul_lt_mul_of_pos_right (Nat.pow_lt_pow_right (by decide) small) unity_pos

/-- A finite number that is at most so much. -/
def Within (n : Nat) (x : Binary64) : Prop := ∃ units, x = .finite false units ∧ units ≤ n

theorem Within.mul {m n r : Nat} {x y : Binary64} (first : x.Within m) (second : y.Within n)
    (fits : Representable r) (small : r < overflow) (h : m * n ≤ r * unity) :
    (mul x y).Within r := by
  obtain ⟨a, rfl, a_le⟩ := first
  obtain ⟨b, rfl, b_le⟩ := second
  have below : nearest (a * b) unity ≤ r :=
    nearest_le fits unity_pos (Nat.le_trans (Nat.mul_le_mul a_le b_le) h)
  rw [Binary64.mul]
  rcases round_cases false (a * b) unity with ⟨finite, -⟩ | ⟨-, large⟩
  · exact ⟨_, finite, below⟩
  · omega

/-- The units of a product of powers of two. -/
theorem two_pow_units (c j k : Nat) :
    2 ^ (c * j) * unity * (2 ^ (c * k) * unity) = 2 ^ (c * (j + k)) * unity * unity := by
  rw [Nat.mul_add, pow_add]
  ring

theorem ofNat_two_pow {c : Nat} (small : c < topExponent) :
    ofNat (2 ^ c) = .finite false (2 ^ c * unity) := by
  have exact_ := round_of_representable false (two_pow_mul_unity c) (two_pow_lt_overflow small)
    Nat.one_pos
  rw [Nat.mul_one] at exact_
  rw [ofNat, ofRatio, exact_]

theorem within_of_le {c : Nat} {x : Binary64} (small : c < topExponent) (atLeast : x.Reaches unity)
    (atMost : le x (ofNat (2 ^ c)) = true) : x.Within (2 ^ c * unity) := by
  rw [ofNat_two_pow small] at atMost
  cases atLeast with
  | infinite => cases atMost
  | finite => exact ⟨_, rfl, le_finite.mp atMost⟩

/-- A power of what is at most a power of two is finite while that power of two is. -/
theorem Within.pow {c n : Nat} {x : Binary64} (atLeast : x.Reaches unity)
    (atMost : le x (ofNat (2 ^ c)) = true) (small : c * n < topExponent) :
    (Binary64.pow x n).Within (2 ^ (c * n) * unity) := by
  refine pow_induction
    (P := fun k y => c * k < topExponent → y.Within (2 ^ (c * k) * unity)) ?_ ?_ ?_ n small
  · intro _
    rw [ofNat_eq (by decide), Nat.mul_zero, pow_zero]
    exact ⟨_, rfl, Nat.le_refl _⟩
  · intro small
    rw [Nat.mul_one] at small ⊢
    exact within_of_le small atLeast atMost
  · intro j k y z first second small
    have parts : c * j + c * k < topExponent := by rwa [← Nat.mul_add]
    exact (first (by omega)).mul (second (by omega)) (two_pow_mul_unity _)
      (two_pow_lt_overflow small) (Nat.le_of_eq (two_pow_units c j k))

/-- A power of what is at least a power of two is at least the power of that. -/
theorem Reaches.pow_two_pow {c : Nat} {x : Binary64} (atLeast : le (ofNat (2 ^ c)) x = true)
    (n : Nat) : (Binary64.pow x n).Reaches (2 ^ (c * n) * unity) := by
  have positive : ∀ k, 0 < 2 ^ k * unity := fun k => Nat.mul_pos (Nat.two_pow_pos k) unity_pos
  refine pow_induction (P := fun k y => y.Reaches (2 ^ (c * k) * unity)) ?_ ?_ ?_ n
  · rw [ofNat_eq (by decide), Nat.mul_zero, pow_zero]
    exact .finite (Nat.le_refl _)
  · rw [Nat.mul_one]
    exact (reaches_ofNat (two_pow_mul_unity c)).of_le (positive c) atLeast
  · intro j k y z first second
    exact first.mul second (two_pow_mul_unity _) (positive _)
      (Nat.le_of_eq (two_pow_units c j k).symm)

end Binary64

namespace Backoff

open Binary64

variable {b : Backoff} {c attempts : Nat}

/-- The power of the multiplier that a wait is computed with. -/
def power (b : Backoff) (attempts : Nat) : Binary64 :=
  pow b.multiplier (min (attempts - 1) maxExponent)

/-- Any duration is some positive number of seconds, however they are rounded. -/
theorem reaches_seconds {duration : Nat} (positive : 0 < duration) :
    (seconds duration).Reaches 1 := by
  have small : Clock.second ≤ unity := by decide +kernel
  have fits : ∀ k, Representable (min k 1) := fun k =>
    representable_of_le (Nat.le_trans (Nat.min_le_right k 1) (by decide))
  have whole : (ofNat (Clock.secs duration)).Reaches (min (Clock.secs duration) 1) := by
    refine reaches_round (fits _) Nat.one_pos ?_
    rw [Nat.mul_one]
    exact Nat.le_trans (Nat.min_le_left _ _) (Nat.le_mul_of_pos_right _ unity_pos)
  have part : (ofRatio (Clock.subNanos duration) Clock.second).Reaches
      (min (Clock.subNanos duration) 1) :=
    reaches_round (fits _) (by decide) (Nat.mul_le_mul (Nat.min_le_left _ _) small)
  have split := Clock.ofSecs_secs_add_subNanos duration
  refine whole.add part (representable_of_le (by decide)) ?_
  rcases Nat.eq_zero_or_pos (Clock.secs duration) with none | some
  · rw [none, Clock.ofSecs, Nat.mul_zero] at split
    omega
  · omega

/-- Zero seconds are no wait, also where the cap is zero. -/
theorem capped_zero (b : Backoff) (negative : Bool) : b.capped (.finite negative 0) = .ok 0 := by
  by_cases reached : le (seconds b.cap) (.finite negative 0) = true
  · have none : b.cap = 0 := by
      rcases Nat.eq_zero_or_pos b.cap with none | some
      · exact none
      · cases (reaches_seconds some).of_le Nat.one_pos reached with
        | finite impossible => omega
    rw [capped, if_pos reached, none]
  · rw [capped, if_neg reached, nanos]
    simp [divNearest, unity_pos]

/-- Without a base there is no wait while the power is finite; otherwise the wait is the cap. -/
theorem nextDelay_of_base_zero (no_base : b.base = 0) (attempts : Nat) :
    b.nextDelay attempts = .ok (if (b.power attempts).isFinite then 0 else b.cap) := by
  have zero : seconds 0 = .finite false 0 := by
    have none := seconds_ofSecs 0
    rwa [ofNat_eq (Nat.zero_le _), Nat.zero_mul, Clock.ofSecs, Nat.mul_zero] at none
  rw [nextDelay, uncapped, no_base, zero]
  change b.capped (mul (.finite false 0) (b.power attempts)) = _
  cases b.power attempts with
  | nan => rfl
  -- Zero times infinity is no number, and what is no number is cut down to the cap.
  | infinite => rfl
  | finite negative units =>
    rw [mul, Nat.zero_mul]
    have zero := round_of_representable (false != negative)
      (representable_of_le (Nat.zero_le _)) overflow_pos unity_pos
    rw [Nat.zero_mul] at zero
    rw [zero]
    exact capped_zero b _

/-- Up to a power of two that is finite itself, the power of a multiplier that is at most two to the
`c` is finite. -/
theorem isFinite_power (atLeast : le (ofNat 1) b.multiplier = true)
    (atMost : le b.multiplier (ofNat (2 ^ c)) = true) (few : c * (attempts - 1) < 1024) :
    (b.power attempts).isFinite = true := by
  have small : c * min (attempts - 1) maxExponent < topExponent :=
    Nat.lt_of_le_of_lt (Nat.mul_le_mul_left c (Nat.min_le_left _ _)) few
  obtain ⟨units, finite, -⟩ := Within.pow (reaches_of_one_le atLeast) atMost small
  rw [power, finite]
  rfl

/-- From a power of two on that is infinite itself, the power of a multiplier that is at least two to
the `c` is infinite. -/
theorem power_eq_infinite (atLeast : le (ofNat (2 ^ c)) b.multiplier = true)
    (many : 1024 ≤ c * (attempts - 1)) : b.power attempts = .infinite false := by
  have some : 0 < c := Nat.pos_of_mul_pos_right (Nat.lt_of_lt_of_le (by decide) many)
  have highest : 1024 ≤ maxExponent := by decide
  -- The greatest exponent is far beyond the one at which the power becomes infinite.
  have large : topExponent ≤ c * min (attempts - 1) maxExponent := by
    by_cases clamped : attempts - 1 ≤ maxExponent
    · rwa [Nat.min_eq_left clamped]
    · rw [Nat.min_eq_right (by omega)]
      exact Nat.le_trans highest (Nat.le_mul_of_pos_left _ some)
  have positive : 0 < min (attempts - 1) maxExponent := by
    apply Nat.pos_of_ne_zero
    intro none
    rw [none, Nat.mul_zero] at large
    cases large
  have reached := Reaches.pow_two_pow atLeast (min (attempts - 1) maxExponent)
  refine eq_infinite_of_reaches (rounded_pow _ positive) (reached.mono ?_)
  rw [overflow_eq]
  exact Nat.mul_le_mul_right _ (Nat.pow_le_pow_right (by decide) large)

theorem nextDelay_of_isFinite (no_base : b.base = 0) (finite : (b.power attempts).isFinite = true) :
    b.nextDelay attempts = .ok 0 := by
  rw [nextDelay_of_base_zero no_base, if_pos finite]

theorem nextDelay_of_infinite (no_base : b.base = 0) (infinite : b.power attempts = .infinite false) :
    b.nextDelay attempts = .ok b.cap := by
  rw [nextDelay_of_base_zero no_base, infinite]
  rfl

/-- Without a base there is no wait while the power of the multiplier is finite, and the whole cap
from then on. A task that is retried without limit is due again at once in the first case, after
whichever attempt it has failed. -/
theorem no_wait_while_power_is_finite (multiplier : Binary64) (cap : Nat)
    (atLeast : le (ofNat 1) multiplier = true) (budget : Option Nat) :
    let b : Backoff := ⟨0, multiplier, cap, budget⟩
    (∀ attempts, b.nextDelay attempts = .ok (if (b.power attempts).isFinite then 0 else cap)) ∧
    (∀ c attempts, le multiplier (ofNat (2 ^ c)) = true → c * (attempts - 1) < 1024 →
      b.nextDelay attempts = .ok 0) ∧
    (∀ c attempts, le (ofNat (2 ^ c)) multiplier = true → 1024 ≤ c * (attempts - 1) →
      b.nextDelay attempts = .ok cap) ∧
    (budget = none → ∀ q : Queue, q.backoff = b → ∀ id task, q.task? id = some task → ∀ now,
      ∃ secs after again, q.complete now id .retry =
          (.ok (.retryScheduled task.attempts secs), after) ∧
        after.task? id = some again ∧ again.state = .retryScheduled ∧
        again.attempts = task.attempts ∧
        again.notBefore =
          some (if (b.power task.attempts).isFinite then now else Clock.deadline now cap)) := by
  intro b
  have waits : ∀ attempts,
      b.nextDelay attempts = .ok (if (b.power attempts).isFinite then 0 else cap) :=
    fun attempts => nextDelay_of_base_zero rfl attempts
  refine ⟨waits, ?_, ?_, ?_⟩
  · intro c attempts atMost few
    exact nextDelay_of_isFinite rfl (isFinite_power atLeast atMost few)
  · intro c attempts large many
    exact nextDelay_of_infinite rfl (power_eq_infinite large many)
  · intro unlimited q same id task known now
    have allowed : q.backoff.allowsRetry task.attempts = true := by
      rw [same, allowsRetry]
      simp [b, unlimited]
    obtain ⟨delay, wait, given⟩ : ∃ delay, q.backoff.nextDelay task.attempts = .ok delay ∧
        delay = if (b.power task.attempts).isFinite then 0 else cap :=
      ⟨_, same ▸ waits task.attempts, rfl⟩
    have again : (q.modify id (·.scheduleRetry (Clock.deadline now delay) now)).task? id =
        some (task.scheduleRetry (Clock.deadline now delay) now) := Queue.task?_modify_self known
    refine ⟨_, _, _, Queue.complete_retry known now allowed wait, again, rfl, rfl, ?_⟩
    rw [given]
    split
    · exact congrArg some (Nat.add_zero now)
    · rfl

/-- With a multiplier of three there is no wait up to attempt 512, and the cap from 1025 on. -/
theorem no_wait_while_power_of_three_is_finite :
    let b : Backoff := ⟨0, ofNat 3, Clock.ofSecs 60, none⟩
    le (ofNat 1) b.multiplier = true ∧ b.nextDelay 512 = .ok 0 ∧
      b.nextDelay (2 ^ 32 - 1) = .ok (Clock.ofSecs 60) := by
  intro b
  have atLeast : le (ofNat 1) (ofNat 3) = true := by decide +kernel
  obtain ⟨-, early, late, -⟩ :=
    no_wait_while_power_is_finite (ofNat 3) (Clock.ofSecs 60) atLeast none
  exact ⟨atLeast, early 2 512 (by decide +kernel) (by decide),
    late 1 (2 ^ 32 - 1) (by decide +kernel) (by decide)⟩

/-- With a multiplier of two, the wait after attempt 1025 is the cap though the base is zero. -/
theorem cap_without_base :
    let b : Backoff := { standard with base := 0 }
    le (ofNat 1) b.multiplier = true ∧ b.multiplier.isFinite = true ∧
      b.nextDelay 1024 = .ok 0 ∧ b.nextDelay 1025 = .ok (Clock.ofSecs (5 * 60 * 60)) ∧
      b.nextDelay 1025 ≠ .ok 0 := by
  intro b
  have atLeast : le (ofNat 1) b.multiplier = true := by decide +kernel
  have atMost : le b.multiplier (ofNat (2 ^ 1)) = true := by decide +kernel
  have large : le (ofNat (2 ^ 1)) b.multiplier = true := by decide +kernel
  have early : b.nextDelay 1024 = .ok 0 :=
    nextDelay_of_isFinite rfl (isFinite_power atLeast atMost (by decide))
  have late : b.nextDelay 1025 = .ok (Clock.ofSecs (5 * 60 * 60)) :=
    nextDelay_of_infinite rfl (power_eq_infinite large (by decide))
  refine ⟨atLeast, by decide +kernel, early, late, ?_⟩
  rw [late]
  decide

end Backoff

end PacedChain
