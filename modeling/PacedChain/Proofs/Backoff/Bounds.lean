import PacedChain.Proofs.Backoff.Sign
import PacedChain.Proofs.Backoff.Whole
import PacedChain.Proofs.Desk.Agenda

/-!
# Waits within bounds

Settings that pass lead to a wait after any number of attempts, at most the cap, and at least the
base unless the cap is less. The computed seconds are compared with a cap that has been rounded
itself, possibly upwards; but they have been rounded to the same numbers, so that none of them lies
between the cap and what it is rounded to (`Binary64.ofNat_le_of_le`). What is converted to a
duration is therefore less than the cap (`Backoff.capped_cases`).
-/
namespace PacedChain

namespace Binary64

/-- A whole number is not rounded beyond any double that it is at most. -/
theorem ofNat_le_of_le {n units : Nat} (rounded : (finite false units).Rounded)
    (h : n * unity ≤ units) : le (ofNat n) (.finite false units) = true := by
  obtain ⟨fits, small⟩ := rounded false units rfl
  have below : nearest (n * unity) 1 ≤ units :=
    nearest_le fits Nat.one_pos (Nat.le_trans h (Nat.le_of_eq (Nat.mul_one units).symm))
  rcases round_cases false (n * unity) 1 with ⟨finite, -⟩ | ⟨-, large⟩
  · rw [ofNat, ofRatio, finite]
    exact le_finite.mpr below
  · omega

end Binary64

namespace Backoff

open Binary64

variable {b : Backoff} {cap : Nat} {x : Binary64}

/-- Seconds that a duration can be made of: neither a NaN nor infinite, not negative, and less than
2^64 seconds once they are rounded to nanoseconds. -/
inductive Convertible : Binary64 → Prop
  | finite {negative : Bool} {units : Nat} (sign : negative = true → units = 0)
    (range : divNearest (units * Clock.second) unity < Clock.ofSecs (2 ^ 64)) :
    Convertible (.finite negative units)

theorem divNearest_seconds_le {units n : Nat} (h : units ≤ n * unity) :
    divNearest (units * Clock.second) unity ≤ Clock.ofSecs n := by
  apply divNearest_le unity_pos
  rw [ofSecs_mul_unity]
  exact Nat.mul_le_mul_right _ h

theorem le_divNearest_seconds {units n : Nat} (h : n * unity ≤ units) :
    Clock.ofSecs n ≤ divNearest (units * Clock.second) unity := by
  apply le_divNearest unity_pos
  rw [ofSecs_mul_unity]
  exact Nat.mul_le_mul_right _ h

/-- Rounded seconds that do not reach the rounded cap do not pass the cap itself. -/
theorem units_le_of_below {units : Nat} (rounded : (finite false units).Rounded)
    (below : ¬le (seconds (Clock.ofSecs cap)) (.finite false units) = true) :
    units ≤ cap * unity := by
  rw [seconds_ofSecs] at below
  exact Nat.le_of_not_le fun large => below (ofNat_le_of_le rounded large)

/-- A computed number of seconds is cut down to the cap or converted, and what is converted is at
most the cap. -/
theorem capped_cases (capped_at : b.cap = Clock.ofSecs cap) (unsigned : x.Unsigned)
    (rounded : x.Rounded) :
    b.capped x = .ok b.cap ∨
      ∃ units, x = .finite false units ∧ units ≤ cap * unity ∧
        b.capped x = .ok (divNearest (units * Clock.second) unity) := by
  cases unsigned with
  | nan => exact .inl rfl
  | infinite => exact .inl rfl
  | finite units =>
    by_cases reached : le (seconds b.cap) (.finite false units) = true
    · rw [capped, if_pos reached]
      exact .inl rfl
    · refine .inr ⟨units, rfl, units_le_of_below rounded (capped_at ▸ reached), ?_⟩
      rw [capped, if_neg reached, nanos, Bool.false_and, if_neg Bool.false_ne_true]

/-- What is converted can be. -/
theorem convertible_of_below (capped_at : b.cap = Clock.ofSecs cap) (small : cap < 2 ^ 64)
    (unsigned : x.Unsigned) (rounded : x.Rounded) (given : x.isFinite = true)
    (below : le (seconds b.cap) x = false) : Convertible x := by
  cases unsigned with
  | nan => cases given
  | infinite => cases given
  | finite units =>
    have within : units ≤ cap * unity :=
      units_le_of_below rounded (by rw [← capped_at, below]; exact Bool.false_ne_true)
    have fits : Clock.ofSecs cap < Clock.ofSecs (2 ^ 64) :=
      Nat.mul_lt_mul_of_pos_left small (by decide)
    exact .finite (by simp) (Nat.lt_of_le_of_lt (divNearest_seconds_le within) fits)

/-- A wait is the cap, or what the computed seconds are converted to. -/
theorem nextDelay_cases (capped_at : b.cap = Clock.ofSecs cap)
    (atLeast : le (ofNat 1) b.multiplier = true) (attempts : Nat) :
    b.nextDelay attempts = .ok b.cap ∨
      ∃ units, b.uncapped attempts = .finite false units ∧ units ≤ cap * unity ∧
        b.nextDelay attempts = .ok (divNearest (units * Clock.second) unity) :=
  capped_cases capped_at (unsigned_uncapped (unsigned_of_one_le atLeast) attempts) (rounded_mul _ _)

theorem exists_nextDelay_le (capped_at : b.cap = Clock.ofSecs cap)
    (atLeast : le (ofNat 1) b.multiplier = true) (attempts : Nat) :
    ∃ wait, b.nextDelay attempts = .ok wait ∧ wait ≤ b.cap := by
  rcases nextDelay_cases capped_at atLeast attempts with cut | ⟨units, -, below, converted⟩
  · exact ⟨_, cut, Nat.le_refl _⟩
  · refine ⟨_, converted, ?_⟩
    rw [capped_at]
    exact divNearest_seconds_le below

/-- The first factor is kept by a product with a power of what is at least one. -/
theorem reaches_uncapped {base : Nat} (based_at : b.base = Clock.ofSecs base) (base_pos : 0 < base)
    (small : base ≤ 2 ^ 53) (atLeast : le (ofNat 1) b.multiplier = true) (attempts : Nat) :
    (b.uncapped attempts).Reaches (base * unity) := by
  have power := (reaches_of_one_le atLeast).pow (min (attempts - 1) maxExponent)
  rw [uncapped, based_at, seconds_ofSecs]
  exact (stands_ofNat small).reaches.mul power (representable_mul_unity small)
    (Nat.mul_pos base_pos unity_pos) (by rw [Nat.min_eq_left small])

theorem min_le_nextDelay {base : Nat} (based_at : b.base = Clock.ofSecs base)
    (small : base ≤ 2 ^ 53) (capped_at : b.cap = Clock.ofSecs cap)
    (atLeast : le (ofNat 1) b.multiplier = true) {attempts wait : Nat}
    (waits : b.nextDelay attempts = .ok wait) : min b.base b.cap ≤ wait := by
  -- A base of zero may give no number at all, but any wait is long enough for it.
  rcases Nat.eq_zero_or_pos base with rfl | base_pos
  · rw [based_at, Clock.ofSecs, Nat.mul_zero]
    exact Nat.le_trans (Nat.min_le_left _ _) (Nat.zero_le _)
  · have reached := reaches_uncapped based_at base_pos small atLeast attempts
    rcases nextDelay_cases capped_at atLeast attempts with cut | ⟨units, computed, -, converted⟩
    · rw [Except.ok.inj (waits.symm.trans cut)]
      exact Nat.min_le_right _ _
    · rw [computed] at reached
      cases reached with
      | finite reached =>
        rw [Except.ok.inj (waits.symm.trans converted), based_at]
        exact Nat.le_trans (Nat.min_le_left _ _) (le_divNearest_seconds reached)

end Backoff

/-- Where every wait can be computed, no completion fails for want of one. -/
theorem Queue.complete_ne_noDelay {q : Queue}
    (waits : ∀ attempts, ∃ wait, q.backoff.nextDelay attempts = .ok wait) (now : Nat) (id : TaskId)
    (outcome : Outcome) (error : BackoffError) :
    (q.complete now id outcome).1 ≠ .error (.noDelay error) := by
  intro failed
  rcases known : q.task? id with _ | task
  · rw [complete, known] at failed
    cases failed
  · cases outcome with
    | success =>
      rw [complete_success known] at failed
      cases failed
    | retry =>
      obtain ⟨wait, computed⟩ := waits task.attempts
      cases computed.symm.trans (nextDelay_of_noDelay known failed)

namespace Settings

variable {s : Settings}

/-- Settings that pass, with a cap of less than 2^64 seconds, lead to a wait after any number of
attempts: what is converted to a duration can be, the wait is at most the cap, and it is at least
the base or the cap if the base is not beyond 2^53 seconds. No completion fails for want of it. -/
theorem waits_within_bounds (valid : s.validate = .ok s) (cap_fits : s.retry.maxSecs < 2 ^ 64) :
    (∀ attempts,
      ((s.backoff.uncapped attempts).isFinite = true →
        Binary64.le (Backoff.seconds s.backoff.cap) (s.backoff.uncapped attempts) = false →
        Backoff.Convertible (s.backoff.uncapped attempts)) ∧
      ∃ wait, s.backoff.nextDelay attempts = .ok wait ∧ wait ≤ s.backoff.cap ∧
        (s.retry.baseSecs ≤ 2 ^ 53 → min s.backoff.base s.backoff.cap ≤ wait)) ∧
    ∀ q : Queue, q.backoff = s.backoff → ∀ now id outcome error,
      (q.complete now id outcome).1 ≠ .error (.noDelay error) := by
  have clean := fault?_of_validate valid
  have atLeast := one_le_multiplier clean
  constructor
  · intro attempts
    constructor
    · intro given below
      have unsigned := Backoff.unsigned_uncapped (Binary64.unsigned_of_one_le atLeast) attempts
      have rounded : (s.backoff.uncapped attempts).Rounded := Binary64.rounded_mul _ _
      exact Backoff.convertible_of_below rfl cap_fits unsigned rounded given below
    · obtain ⟨wait, computed, below⟩ := Backoff.exists_nextDelay_le rfl atLeast attempts
      exact ⟨wait, computed, below,
        fun small => Backoff.min_le_nextDelay rfl small rfl atLeast computed⟩
  · intro q same
    exact Queue.complete_ne_noDelay fun attempts => same ▸ exists_nextDelay clean attempts

/-- An infinite multiplier keeps to the bounds too. -/
theorem waits_within_bounds_of_infinite_multiplier :
    let s : Settings := { retry := ⟨7, .infinite false, 2 ^ 64 - 1, none⟩ }
    s.validate = .ok s ∧ s.retry.maxSecs < 2 ^ 64 ∧
      ∃ wait, s.backoff.nextDelay (2 ^ 32 - 1) = .ok wait ∧
        Clock.ofSecs 7 ≤ wait ∧ wait ≤ Clock.ofSecs (2 ^ 64 - 1) := by
  intro s
  have valid : s.validate = .ok s := by
    have clean : s.fault? = none := by decide +kernel
    simp only [validate, clean]
  have fits : s.retry.maxSecs < 2 ^ 64 := by decide
  obtain ⟨-, wait, computed, below, above⟩ := (waits_within_bounds valid fits).1 (2 ^ 32 - 1)
  exact ⟨valid, fits, wait, computed, above (by decide), below⟩

end Settings

end PacedChain
