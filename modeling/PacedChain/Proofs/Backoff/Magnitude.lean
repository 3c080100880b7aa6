import PacedChain.Backoff
import PacedChain.Proofs.Backoff.Rounding
import Mathlib.Tactic.Ring

/-!
# Magnitudes

How large products and powers of doubles are at least (`Binary64.Reaches`), and what that says about
a wait: a number of seconds that reaches the cap is cut down to it (`Backoff.capped_of_reaches`).
What holds of powers is shown along the products that they are made of (`Binary64.pow_induction`).
-/
namespace PacedChain

namespace Binary64

/-- A number of at least so many units; infinity is at least any number of them. -/
inductive Reaches (n : Nat) : Binary64 → Prop
  | infinite : Reaches n (.infinite false)
  | finite {units : Nat} (h : n ≤ units) : Reaches n (.finite false units)

theorem Reaches.mono {m n : Nat} {x : Binary64} (h : x.Reaches n) (le : m ≤ n) : x.Reaches m := by
  cases h with
  | infinite => exact .infinite
  | finite h => exact .finite (Nat.le_trans le h)

theorem reaches_round {n num den : Nat} (fits : Representable n) (positive : 0 < den)
    (h : n * den ≤ num) : (round false num den).Reaches n := by
  rcases round_cases false num den with ⟨finite, -⟩ | ⟨infinite, -⟩
  · rw [finite]
    exact .finite (le_nearest fits positive h)
  · rw [infinite]
    exact .infinite

theorem Reaches.mul {m n r : Nat} {x y : Binary64} (first : x.Reaches m) (second : y.Reaches n)
    (fits : Representable r) (positive : 0 < r) (h : r * unity ≤ m * n) : (mul x y).Reaches r := by
  have product : 0 < m * n := Nat.lt_of_lt_of_le (Nat.mul_pos positive unity_pos) h
  have m_pos : 0 < m := Nat.pos_of_mul_pos_right product
  have n_pos : 0 < n := Nat.pos_of_mul_pos_left product
  cases first with
  | infinite =>
    cases second with
    | infinite => exact .infinite
    | finite second =>
      rw [Binary64.mul, if_neg (by omega)]
      exact .infinite
  | finite first =>
    cases second with
    | infinite =>
      rw [Binary64.mul, if_neg (by omega)]
      exact .infinite
    | finite second =>
      rw [Binary64.mul]
      exact reaches_round fits unity_pos (Nat.le_trans h (Nat.mul_le_mul first second))

theorem le_finite {m n : Nat} : le (.finite false m) (.finite false n) = true ↔ m ≤ n := by
  simp [le, lt, isNaN, scaled]

/-- A whole number of up to 53 bits is held exactly. -/
theorem ofNat_eq {n : Nat} (small : n ≤ 2 ^ 53) : ofNat n = .finite false (n * unity) := by
  have exact_ := round_of_representable false (representable_mul_unity small)
    (mul_unity_lt_overflow small) Nat.one_pos
  rwa [Nat.mul_one] at exact_

theorem Reaches.add {m n r : Nat} {x y : Binary64} (first : x.Reaches m) (second : y.Reaches n)
    (fits : Representable r) (h : r ≤ m + n) : (add x y).Reaches r := by
  cases first with
  | infinite =>
    cases second with
    | infinite => exact .infinite
    | finite => exact .infinite
  | finite first =>
    cases second with
    | infinite => exact .infinite
    | finite second =>
      rw [Binary64.add, if_pos rfl]
      exact reaches_round fits Nat.one_pos (by omega)

/-- What is not less than a positive number is at least as much. -/
theorem Reaches.of_le {n : Nat} {x y : Binary64} (h : x.Reaches n) (positive : 0 < n)
    (atLeast : le x y = true) : y.Reaches n := by
  cases h with
  | infinite =>
    cases y with
    | nan => cases atLeast
    | infinite negative =>
      cases negative with
      | false => exact .infinite
      | true => cases atLeast
    | finite => cases atLeast
  | finite h =>
    cases y with
    | nan => cases atLeast
    | infinite negative =>
      cases negative with
      | false => exact .infinite
      | true => cases atLeast
    | finite negative units =>
      cases negative with
      | false => exact .finite (Nat.le_trans h (le_finite.mp atLeast))
      | true =>
        simp only [le, lt, isNaN, scaled, Bool.not_false, Bool.true_and, if_true,
          Bool.not_eq_true', decide_eq_false_iff_not, Bool.false_eq_true, if_false] at atLeast
        omega

theorem reaches_ofNat {n : Nat} (fits : Representable (n * unity)) :
    (ofNat n).Reaches (n * unity) := by
  rw [ofNat, ofRatio]
  exact reaches_round fits Nat.one_pos (Nat.le_of_eq (Nat.mul_one (n * unity)))

theorem reaches_of_one_le {x : Binary64} (atLeast : le (ofNat 1) x = true) : x.Reaches unity := by
  have one := reaches_ofNat (representable_mul_unity (n := 1) (by decide))
  rw [Nat.one_mul] at one
  exact one.of_le unity_pos atLeast

/-! ### Rounded numbers -/

/-- What an operation gives is infinite, or it can be held exactly. -/
def Rounded (x : Binary64) : Prop :=
  ∀ negative units, x = .finite negative units → Representable units ∧ units < overflow

theorem rounded_round (negative : Bool) {num den : Nat} (positive : 0 < den) :
    (round negative num den).Rounded := by
  intro sign units given
  rcases round_cases negative num den with ⟨finite, small⟩ | ⟨infinite, -⟩
  · rw [finite] at given
    cases given
    exact ⟨representable_nearest positive, small⟩
  · rw [infinite] at given
    cases given

theorem rounded_mul (x y : Binary64) : (mul x y).Rounded := by
  intro negative units given
  cases x with
  | nan => cases given
  | infinite s =>
    cases y with
    | nan => cases given
    | infinite t => cases given
    | finite t b =>
      rw [mul] at given
      split at given <;> cases given
  | finite s a =>
    cases y with
    | nan => cases given
    | infinite t =>
      rw [mul] at given
      split at given <;> cases given
    | finite t b =>
      rw [mul] at given
      exact rounded_round _ unity_pos _ _ given

/-! ### Powers -/

theorem powFrom_induction {P : Nat → Binary64 → Prop}
    (times : ∀ {j k : Nat} {x y : Binary64}, P j x → P k y → P (j + k) (mul x y))
    {j k : Nat} {result base : Binary64} (reached : P j result) (next : P k base) (n : Nat) :
    P (j + k * n) (powFrom result base n) := by
  -- By the recursion of `powFrom`, which squares the base and halves the exponent.
  induction n using Nat.strongRecOn generalizing j k result base with
  | ind n ih =>
    have grown : P (j + k * (n % 2)) (if n % 2 = 1 then mul result base else result) := by
      rcases Nat.mod_two_eq_zero_or_one n with even | odd
      · rw [if_neg (by omega), even, Nat.mul_zero]
        exact reached
      · rw [if_pos odd, odd, Nat.mul_one]
        exact times reached next
    unfold powFrom
    have halves : n = n % 2 + 2 * (n / 2) := (Nat.mod_add_div n 2).symm
    by_cases last : n / 2 = 0
    · have single : n % 2 = n := by omega
      rw [if_pos last]
      rwa [single] at grown ⊢
    · rw [if_neg last]
      have rest := ih (n / 2) (by omega) grown (times next next)
      have exponents : j + k * n = j + k * (n % 2) + (k + k) * (n / 2) := by
        conv_lhs => rw [halves]
        ring
      rwa [exponents]

/-- What holds of the number one, of the base, and of every product of two numbers that it holds of,
holds of all powers of the base; the numbers it speaks of add up like exponents. -/
theorem pow_induction {P : Nat → Binary64 → Prop} {base : Binary64} (one : P 0 (ofNat 1))
    (self : P 1 base)
    (times : ∀ {j k : Nat} {x y : Binary64}, P j x → P k y → P (j + k) (mul x y)) (n : Nat) :
    P n (pow base n) := by
  have power := powFrom_induction times one self n
  rwa [Nat.zero_add, Nat.one_mul] at power

/-- A power of what is at least one is at least one. -/
theorem Reaches.pow {base : Binary64} (h : base.Reaches unity) (n : Nat) :
    (pow base n).Reaches unity := by
  have fits : Representable unity := by
    have one := representable_mul_unity (n := 1) (by decide)
    rwa [Nat.one_mul] at one
  refine pow_induction (P := fun _ x => x.Reaches unity) ?_ h ?_ n
  · rw [ofNat_eq (by decide), Nat.one_mul]
    exact .finite (Nat.le_refl _)
  · intro j k x y first second
    exact first.mul second fits unity_pos (Nat.le_refl _)

end Binary64

namespace Backoff

open Binary64

theorem ofSecs_mul_unity (n : Nat) : Clock.ofSecs n * unity = n * unity * Clock.second := by
  rw [Clock.ofSecs]
  ring

theorem seconds_ofSecs (n : Nat) : seconds (Clock.ofSecs n) = ofNat n := by
  have none_over : ofRatio 0 Clock.second = .finite false 0 := by
    have zero : round false (0 * Clock.second) Clock.second = .finite false 0 :=
      round_of_representable false (representable_of_le (Nat.zero_le _)) overflow_pos (by decide)
    rw [Nat.zero_mul] at zero
    rw [ofRatio, Nat.zero_mul, zero]
  rw [seconds, Clock.secs_ofSecs, Clock.subNanos_ofSecs, none_over]
  rcases round_cases false (n * unity) 1 with ⟨finite, small⟩ | ⟨infinite, -⟩
  · have same := round_of_representable false (representable_nearest Nat.one_pos) small Nat.one_pos
    rw [ofNat, ofRatio, finite, add, if_pos rfl, Nat.add_zero]
    rwa [Nat.mul_one] at same
  · rw [ofNat, ofRatio, infinite]
    rfl

end Backoff

end PacedChain
