import PacedChain.Proofs.Backoff.Magnitude

/-!
# Waits of whole seconds

With whole numbers of up to 53 bits for the base, the multiplier and the cap, a wait is what the
formula gives in unbounded integers. A product of doubles stands for the product of whole numbers
(`Binary64.Stands`): it is exact as long as 2^53 is not passed, and what is passed once stays passed,
however it is rounded and even if it becomes infinite. The cap is not beyond 2^53, so that none of
this shows.
-/
namespace PacedChain

namespace Binary64

/-- The number is this whole number if that is at most 2^53; otherwise it is at least 2^53. -/
structure Stands (n : Nat) (x : Binary64) : Prop where
  within : n ≤ 2 ^ 53 → x = .finite false (n * unity)
  beyond : 2 ^ 53 < n → x.Reaches (2 ^ 53 * unity)

variable {m n : Nat} {x y : Binary64}

theorem stands_ofNat (small : n ≤ 2 ^ 53) : (ofNat n).Stands n where
  within _ := ofNat_eq small
  beyond large := by omega

theorem Stands.reaches (h : x.Stands n) : x.Reaches (min n (2 ^ 53) * unity) := by
  by_cases small : n ≤ 2 ^ 53
  · rw [h.within small, Nat.min_eq_left small]
    exact .finite (Nat.le_refl _)
  · rw [Nat.min_eq_right (by omega)]
    exact h.beyond (by omega)

/-- A product of positive whole numbers beyond 2^53 is beyond it also if each factor is cut down to
2^53. -/
theorem le_min_mul_min {limit : Nat} (m_pos : 0 < m) (n_pos : 0 < n) (h : limit ≤ m * n) :
    limit ≤ min m limit * min n limit := by
  by_cases m_small : m ≤ limit
  · by_cases n_small : n ≤ limit
    · rwa [Nat.min_eq_left m_small, Nat.min_eq_left n_small]
    · rw [Nat.min_eq_right (by omega : limit ≤ n)]
      exact Nat.le_mul_of_pos_left limit (by omega)
  · rw [Nat.min_eq_right (by omega : limit ≤ m)]
    by_cases none : limit = 0
    · omega
    · exact Nat.le_mul_of_pos_right limit (by omega)

theorem Stands.mul (first : x.Stands m) (second : y.Stands n) (m_pos : 0 < m) (n_pos : 0 < n) :
    (mul x y).Stands (m * n) where
  within small := by
    have m_small : m ≤ 2 ^ 53 := Nat.le_trans (Nat.le_mul_of_pos_right m n_pos) small
    have n_small : n ≤ 2 ^ 53 := Nat.le_trans (Nat.le_mul_of_pos_left n m_pos) small
    have product : m * unity * (n * unity) = m * n * unity * unity := by ring
    rw [first.within m_small, second.within n_small, Binary64.mul, product]
    exact round_of_representable false (representable_mul_unity small)
      (mul_unity_lt_overflow small) unity_pos
  beyond large := by
    -- The factors make 2^53 even if each of them is only known to reach it.
    have cut := le_min_mul_min m_pos n_pos (Nat.le_of_lt large)
    refine first.reaches.mul second.reaches (representable_mul_unity (Nat.le_refl _))
      (Nat.mul_pos (by decide) unity_pos) ?_
    calc 2 ^ 53 * unity * unity
        ≤ min m (2 ^ 53) * min n (2 ^ 53) * unity * unity :=
          Nat.mul_le_mul_right _ (Nat.mul_le_mul_right _ cut)
      _ = min m (2 ^ 53) * unity * (min n (2 ^ 53) * unity) := by ring

theorem Stands.pow (h : x.Stands m) (m_pos : 0 < m) (exponent : Nat) :
    (pow x exponent).Stands (m ^ exponent) := by
  refine pow_induction (P := fun k y => y.Stands (m ^ k)) ?_ ?_ ?_ exponent
  · rw [pow_zero]
    exact stands_ofNat (by decide)
  · rwa [pow_one]
  · intro j k y z first second
    rw [pow_add]
    exact first.mul second (Nat.pow_pos m_pos) (Nat.pow_pos m_pos)

end Binary64

namespace Backoff

open Binary64

theorem nanos_whole (n : Nat) : nanos false (n * unity) = .ok (Clock.ofSecs n) := by
  rw [nanos, Bool.false_and, if_neg Bool.false_ne_true, ← ofSecs_mul_unity,
    divNearest_mul _ unity_pos]

/-- Seconds that reach the cap are cut down to it. -/
theorem capped_of_reaches {b : Backoff} {cap : Nat} {x : Binary64}
    (capped_at : b.cap = Clock.ofSecs cap) (small : cap ≤ 2 ^ 53) (h : x.Reaches (cap * unity)) :
    b.capped x = .ok b.cap := by
  cases h with
  | infinite => rfl
  | finite reached =>
    rw [capped, capped_at, seconds_ofSecs, ofNat_eq small, if_pos (le_finite.mpr reached)]

theorem capped_of_stands {b : Backoff} {cap n : Nat} {x : Binary64}
    (capped_at : b.cap = Clock.ofSecs cap) (small : cap ≤ 2 ^ 53) (h : x.Stands n) :
    b.capped x = .ok (Clock.ofSecs (min n cap)) := by
  by_cases reached : cap ≤ n
  · rw [Nat.min_eq_right reached, ← capped_at]
    exact capped_of_reaches capped_at small
      (h.reaches.mono (Nat.mul_le_mul_right _ (by omega)))
  · have below : ¬le (.finite false (cap * unity)) (.finite false (n * unity)) = true := by
      rw [le_finite]
      exact Nat.not_le_of_lt (Nat.mul_lt_mul_of_pos_right (by omega) unity_pos)
    rw [h.within (by omega), Nat.min_eq_left (by omega), capped, capped_at, seconds_ofSecs,
      ofNat_eq small, if_neg below, nanos_whole]

/-- Exponents beyond the greatest one that is computed with do not change what is cut down to a cap
of 53 bits. -/
theorem min_pow_clamp {base factor cap : Nat} (base_pos : 0 < base) (factor_pos : 0 < factor)
    (small : cap ≤ 2 ^ 53) (exponent : Nat) :
    min (base * factor ^ min exponent maxExponent) cap = min (base * factor ^ exponent) cap := by
  by_cases clamped : exponent ≤ maxExponent
  · rw [Nat.min_eq_left clamped]
  · have highest : 53 ≤ maxExponent := by decide
    rw [Nat.min_eq_right (by omega : maxExponent ≤ exponent)]
    -- Any factor but one has made 2^53 after 53 multiplications, far below the greatest exponent.
    by_cases constant : factor = 1
    · rw [constant, Nat.one_pow, Nat.one_pow]
    · have large : ∀ k, 53 ≤ k → cap ≤ base * factor ^ k := by
        intro k reached
        calc cap ≤ 2 ^ 53 := small
          _ ≤ factor ^ 53 := Nat.pow_le_pow_left (by omega) 53
          _ ≤ factor ^ k := Nat.pow_le_pow_right factor_pos reached
          _ ≤ base * factor ^ k := Nat.le_mul_of_pos_left _ base_pos
      rw [Nat.min_eq_right (large _ highest), Nat.min_eq_right (large _ (by omega))]

/-- Whole numbers of up to 53 bits give exactly the wait of the formula, after any number of
attempts. -/
theorem exact_on_whole_seconds (base factor cap : Nat) (budget : Option Nat)
    (base_pos : 1 ≤ base) (base_small : base ≤ 2 ^ 53)
    (factor_pos : 1 ≤ factor) (factor_small : factor ≤ 2 ^ 53)
    (cap_small : cap ≤ 2 ^ 53) (attempts : Nat) :
    nextDelay ⟨Clock.ofSecs base, Binary64.ofNat factor, Clock.ofSecs cap, budget⟩ attempts =
      .ok (Clock.ofSecs (min (base * factor ^ (max attempts 1 - 1)) cap)) := by
  have exponent : max attempts 1 - 1 = attempts - 1 := by omega
  have power := (stands_ofNat factor_small).pow factor_pos (min (attempts - 1) maxExponent)
  have product := (stands_ofNat base_small).mul power base_pos (Nat.pow_pos factor_pos)
  rw [nextDelay, uncapped, seconds_ofSecs, capped_of_stands rfl cap_small product, exponent,
    min_pow_clamp base_pos factor_pos cap_small]

/-- The last wait below a cap of 2^53 seconds is 3^33 seconds, and the next one is the cap. -/
theorem exact_on_whole_seconds_up_to_cap :
    let b : Backoff := ⟨Clock.ofSecs 3, Binary64.ofNat 3, Clock.ofSecs (2 ^ 53), none⟩
    b.nextDelay 33 = .ok (Clock.ofSecs (3 ^ 33)) ∧ b.nextDelay 34 = .ok (Clock.ofSecs (2 ^ 53)) := by
  have waits := exact_on_whole_seconds 3 3 (2 ^ 53) none (by decide) (by decide) (by decide)
    (by decide) (by decide)
  exact ⟨waits 33, waits 34⟩

end Backoff

end PacedChain
