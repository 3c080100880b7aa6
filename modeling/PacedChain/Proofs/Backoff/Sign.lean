import PacedChain.Settings.Basic
import PacedChain.Proofs.Backoff.Magnitude

/-!
# Waits can be computed

The one wait that cannot be computed is a negative one. Sums and products of numbers without a minus
sign have none, so that a multiplier that is at least one never leads to it, whatever the number of
attempts (`Settings.exists_nextDelay`).
-/
namespace PacedChain

namespace Binary64

/-- A number without a minus sign; a NaN has none. -/
inductive Unsigned : Binary64 → Prop
  | nan : Unsigned .nan
  | infinite : Unsigned (.infinite false)
  | finite (units : Nat) : Unsigned (.finite false units)

theorem unsigned_round (num den : Nat) : (round false num den).Unsigned := by
  rcases round_cases false num den with ⟨finite, -⟩ | ⟨infinite, -⟩
  · rw [finite]
    exact .finite _
  · rw [infinite]
    exact .infinite

theorem unsigned_ofRatio (num den : Nat) : (ofRatio num den).Unsigned := unsigned_round _ _

theorem unsigned_ofNat (n : Nat) : (ofNat n).Unsigned := unsigned_ofRatio n 1

theorem unsigned_add {a b : Binary64} (first : a.Unsigned) (second : b.Unsigned) :
    (add a b).Unsigned := by
  cases first with
  | nan =>
    rw [add.eq_1]
    exact .nan
  | infinite =>
    cases second with
    | nan => exact .nan
    | infinite => exact .infinite
    | finite n => exact .infinite
  | finite m =>
    cases second with
    | nan => exact .nan
    | infinite => exact .infinite
    | finite n =>
      rw [add, if_pos rfl]
      exact unsigned_round _ _

theorem unsigned_mul {a b : Binary64} (first : a.Unsigned) (second : b.Unsigned) :
    (mul a b).Unsigned := by
  cases first with
  | nan =>
    rw [mul.eq_1]
    exact .nan
  | infinite =>
    cases second with
    | nan => exact .nan
    | infinite => exact .infinite
    | finite n =>
      rw [mul]
      split
      · exact .nan
      · exact .infinite
  | finite m =>
    cases second with
    | nan => exact .nan
    | infinite =>
      rw [mul]
      split
      · exact .nan
      · exact .infinite
    | finite n =>
      rw [mul]
      exact unsigned_round _ _

theorem unsigned_pow {base : Binary64} (unsigned : base.Unsigned) (exponent : Nat) :
    (pow base exponent).Unsigned :=
  pow_induction (P := fun _ x => x.Unsigned) (unsigned_ofNat 1) unsigned unsigned_mul exponent

/-- What is at least one has no minus sign. -/
theorem unsigned_of_one_le {x : Binary64} (atLeast : le (ofNat 1) x = true) : x.Unsigned := by
  cases reaches_of_one_le atLeast with
  | infinite => exact .infinite
  | finite => exact .finite _

end Binary64

namespace Backoff

theorem exists_capped (b : Backoff) {seconds : Binary64} (unsigned : seconds.Unsigned) :
    ∃ wait, b.capped seconds = .ok wait := by
  -- What is not finite is cut down to the cap.
  cases unsigned with
  | nan => exact ⟨_, rfl⟩
  | infinite => exact ⟨_, rfl⟩
  | finite units =>
    rw [capped]
    generalize Binary64.le (Backoff.seconds b.cap) (.finite false units) = large
    cases large with
    | true => exact ⟨_, rfl⟩
    | false =>
      rw [nanos, Bool.false_and]
      exact ⟨_, rfl⟩

theorem unsigned_uncapped {b : Backoff} (unsigned : b.multiplier.Unsigned) (attempts : Nat) :
    (b.uncapped attempts).Unsigned := by
  have seconds : (seconds b.base).Unsigned :=
    Binary64.unsigned_add (Binary64.unsigned_ofNat _) (Binary64.unsigned_ofRatio _ _)
  exact Binary64.unsigned_mul seconds (Binary64.unsigned_pow unsigned _)

theorem exists_nextDelay {b : Backoff} (unsigned : b.multiplier.Unsigned) (attempts : Nat) :
    ∃ wait, b.nextDelay attempts = .ok wait :=
  b.exists_capped (unsigned_uncapped unsigned attempts)

theorem exists_nextDelay_standard (attempts : Nat) :
    ∃ wait, standard.nextDelay attempts = .ok wait := by
  refine exists_nextDelay ?_ attempts
  simp only [standard]
  exact Binary64.unsigned_ofNat 2

end Backoff

theorem Settings.fault?_of_validate {s : Settings} (valid : s.validate = .ok s) :
    s.fault? = none := by
  unfold validate at valid
  split at valid
  · cases valid
  · assumption

/-- In settings that pass, the multiplier is at least one. -/
theorem Settings.one_le_multiplier {s : Settings} (valid : s.fault? = none) :
    Binary64.le (Binary64.ofNat 1) s.backoff.multiplier = true := by
  change Binary64.le (Binary64.ofNat 1) s.retry.multiplier = true
  cases grows : Binary64.le (Binary64.ofNat 1) s.retry.multiplier with
  | true => rfl
  | false =>
    simp only [fault?, grows, Bool.not_false, if_true] at valid
    split at valid
    · cases valid
    · split at valid
      · cases valid
      · split at valid <;> cases valid

/-- Settings that pass give a backoff with a wait after every attempt. -/
theorem Settings.exists_nextDelay {s : Settings} (valid : s.fault? = none) (attempts : Nat) :
    ∃ wait, s.backoff.nextDelay attempts = .ok wait :=
  Backoff.exists_nextDelay (Binary64.unsigned_of_one_le (one_le_multiplier valid)) attempts

end PacedChain
