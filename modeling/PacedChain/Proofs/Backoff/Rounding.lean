import PacedChain.Binary64
import Mathlib.Algebra.Order.Ring.Nat

/-!
# Rounding

A number of units can be held exactly if 53 significant bits are enough for it
(`Binary64.Representable`). Rounding never passes such a number: what is at least as much before it
is rounded is so afterwards (`le_nearest`), and what is at most as much too (`nearest_le`). What is
rounded can be held itself (`representable_nearest`), and what can be held stays as it is
(`nearest_of_representable`). How ties are decided plays no part in this.
-/
namespace PacedChain.Binary64

/-- The power of two that the number one is in units. -/
def unityExponent : Nat := 1074

/-- The exponent of the least power of two that is too large to be finite. -/
def topExponent : Nat := 1024

theorem unity_eq : unity = 2 ^ unityExponent := by decide +kernel

theorem overflow_eq : overflow = 2 ^ topExponent * unity := by decide +kernel

theorem unity_pos : 0 < unity := by
  rw [unity_eq]
  exact Nat.two_pow_pos _

theorem overflow_pos : 0 < overflow := by
  rw [overflow_eq]
  exact Nat.mul_pos (Nat.two_pow_pos _) unity_pos

/-! ### Quotients -/

theorem le_divNearest {k num den : Nat} (positive : 0 < den) (h : k * den ≤ num) :
    k ≤ divNearest num den := by
  have floor : k ≤ num / den := (Nat.le_div_iff_mul_le positive).mpr h
  simp only [divNearest]
  split <;> omega

theorem divNearest_le {k num den : Nat} (positive : 0 < den) (h : num ≤ k * den) :
    divNearest num den ≤ k := by
  simp only [divNearest]
  split
  · exact Nat.div_le_of_le_mul (Nat.mul_comm den k ▸ h)
  · rename_i up
    -- What is rounded up is not a multiple of the divisor.
    have inexact : num ≠ k * den := by
      rintro rfl
      rw [Nat.mul_mod_left] at up
      omega
    have below : num / den < k := (Nat.div_lt_iff_lt_mul positive).mpr (by omega)
    omega

theorem divNearest_mul (k : Nat) {den : Nat} (positive : 0 < den) :
    divNearest (k * den) den = k :=
  Nat.le_antisymm (divNearest_le positive (Nat.le_refl _)) (le_divNearest positive (Nat.le_refl _))

/-! ### Numbers of 53 bits -/

def Representable (n : Nat) : Prop := ∃ digits shift, digits < 2 ^ 53 ∧ n = digits * 2 ^ shift

theorem representable_two_pow (k : Nat) : Representable (2 ^ k) :=
  ⟨1, k, by decide, (Nat.one_mul _).symm⟩

theorem representable_of_le {n : Nat} (h : n ≤ 2 ^ 53) : Representable n := by
  rcases Nat.lt_or_eq_of_le h with less | rfl
  · exact ⟨n, 0, less, (Nat.mul_one n).symm⟩
  · exact representable_two_pow 53

theorem Representable.mul_two_pow {n : Nat} (h : Representable n) (k : Nat) :
    Representable (n * 2 ^ k) := by
  obtain ⟨digits, shift, small, rfl⟩ := h
  exact ⟨digits, shift + k, small, by rw [Nat.mul_assoc, ← pow_add]⟩

theorem mul_unity_lt_overflow {n : Nat} (h : n ≤ 2 ^ 53) : n * unity < overflow := by
  have top : 2 ^ 53 < 2 ^ topExponent := Nat.pow_lt_pow_right (by decide) (by decide)
  rw [overflow_eq]
  exact Nat.mul_lt_mul_of_pos_right (Nat.lt_of_le_of_lt h top) unity_pos

theorem representable_mul_unity {n : Nat} (h : n ≤ 2 ^ 53) : Representable (n * unity) := by
  rw [unity_eq]
  exact (representable_of_le h).mul_two_pow unityExponent

/-- A large number of 53 bits is a multiple of its last place. -/
theorem Representable.dvd {n shift : Nat} (h : Representable n) (large : 2 ^ (52 + shift) ≤ n) :
    2 ^ shift ∣ n := by
  obtain ⟨digits, own, small, rfl⟩ := h
  have reaches : shift ≤ own := by
    apply Nat.le_of_not_lt
    intro less
    have bound : digits * 2 ^ own < 2 ^ 53 * 2 ^ own :=
      Nat.mul_lt_mul_of_pos_right small (Nat.two_pow_pos own)
    have places : 2 ^ 53 * 2 ^ own ≤ 2 ^ (52 + shift) := by
      rw [← pow_add]
      exact Nat.pow_le_pow_right (by decide) (by omega)
    omega
  exact Nat.dvd_mul_left_of_dvd (pow_dvd_pow 2 reaches) digits

/-! ### The nearest number -/

theorem lt_two_pow_excess (n : Nat) : n < 2 ^ (53 + excess n) :=
  Nat.lt_of_lt_of_le Nat.lt_log2_self
    (Nat.pow_le_pow_right (by decide) (by simp only [excess]; omega))

theorem two_pow_le_of_excess {n : Nat} (h : excess n ≠ 0) : 2 ^ (52 + excess n) ≤ n := by
  simp only [excess] at *
  have exact_ : 52 + (n.log2 + 1 - 53) = n.log2 := by omega
  have nonzero : n ≠ 0 := by
    rintro rfl
    simp at h
  rw [exact_]
  exact Nat.log2_self_le nonzero

theorem nearest_eq (num den : Nat) : nearest num den =
    divNearest num (den * 2 ^ excess (num / den)) * 2 ^ excess (num / den) := rfl

theorem representable_nearest {num den : Nat} (positive : 0 < den) :
    Representable (nearest num den) := by
  have bound := lt_two_pow_excess (num / den)
  rw [nearest_eq]
  generalize excess (num / den) = shift at bound
  refine Representable.mul_two_pow (representable_of_le ?_) shift
  refine divNearest_le (Nat.mul_pos positive (Nat.two_pow_pos shift)) (Nat.le_of_lt ?_)
  calc num < 2 ^ (53 + shift) * den := (Nat.div_lt_iff_lt_mul positive).mp bound
    _ = 2 ^ 53 * (den * 2 ^ shift) := by rw [pow_add, Nat.mul_assoc, Nat.mul_comm den]

theorem le_nearest {n num den : Nat} (fits : Representable n) (positive : 0 < den)
    (h : n * den ≤ num) : n ≤ nearest num den := by
  have large := two_pow_le_of_excess (n := num / den)
  rw [nearest_eq]
  generalize excess (num / den) = shift at large
  have spread : 0 < den * 2 ^ shift := Nat.mul_pos positive (Nat.two_pow_pos shift)
  have scaled : ∀ k, k * 2 ^ shift * den ≤ num →
      k * 2 ^ shift ≤ divNearest num (den * 2 ^ shift) * 2 ^ shift := by
    intro k bound
    refine Nat.mul_le_mul_right _ (le_divNearest spread ?_)
    rwa [Nat.mul_comm den, ← Nat.mul_assoc]
  by_cases multiple : 2 ^ shift ∣ n
  · obtain ⟨k, rfl⟩ := multiple
    rw [Nat.mul_comm (2 ^ shift)] at h ⊢
    exact scaled k h
  · -- A number with smaller places lies below all those with as many digits as the quotient.
    have shifted : shift ≠ 0 := by
      rintro rfl
      exact multiple (Nat.one_dvd n)
    have less : n < 2 ^ 52 * 2 ^ shift := by
      rw [← pow_add]
      exact Nat.lt_of_not_le fun big => multiple (fits.dvd big)
    have quotient : 2 ^ 52 * 2 ^ shift * den ≤ num := by
      rw [← pow_add]
      exact (Nat.le_div_iff_mul_le positive).mp (large shifted)
    exact Nat.le_trans (Nat.le_of_lt less) (scaled _ quotient)

theorem nearest_le {n num den : Nat} (fits : Representable n) (positive : 0 < den)
    (h : num ≤ n * den) : nearest num den ≤ n := by
  have large := two_pow_le_of_excess (n := num / den)
  rw [nearest_eq]
  generalize excess (num / den) = shift at large
  have multiple : 2 ^ shift ∣ n := by
    by_cases unshifted : shift = 0
    · rw [unshifted]
      exact Nat.one_dvd n
    · have quotient : num / den ≤ n := Nat.div_le_of_le_mul (Nat.mul_comm n den ▸ h)
      exact fits.dvd (Nat.le_trans (large unshifted) quotient)
  obtain ⟨k, rfl⟩ := multiple
  rw [Nat.mul_comm (2 ^ shift)] at h ⊢
  refine Nat.mul_le_mul_right _ (divNearest_le (Nat.mul_pos positive (Nat.two_pow_pos shift)) ?_)
  rwa [Nat.mul_comm den, ← Nat.mul_assoc]

theorem nearest_of_representable {n den : Nat} (fits : Representable n) (positive : 0 < den) :
    nearest (n * den) den = n :=
  Nat.le_antisymm (nearest_le fits positive (Nat.le_refl _))
    (le_nearest fits positive (Nat.le_refl _))

/-! ### Rounded numbers -/

/-- Rounding keeps the sign. -/
theorem round_cases (negative : Bool) (num den : Nat) :
    (round negative num den = .finite negative (nearest num den) ∧ nearest num den < overflow) ∨
      (round negative num den = .infinite negative ∧ overflow ≤ nearest num den) := by
  unfold round
  -- How large the limit is does not matter here.
  generalize overflow = limit
  generalize nearest num den = units
  by_cases small : units < limit
  · exact .inl ⟨if_pos small, small⟩
  · exact .inr ⟨if_neg small, Nat.le_of_not_lt small⟩

/-- What can be held is rounded to itself. -/
theorem round_of_representable (negative : Bool) {n den : Nat} (fits : Representable n)
    (small : n < overflow) (positive : 0 < den) :
    round negative (n * den) den = .finite negative n := by
  have same := nearest_of_representable fits positive
  rcases round_cases negative (n * den) den with ⟨finite, -⟩ | ⟨-, large⟩
  · rw [finite, same]
  · omega

end PacedChain.Binary64
