/-!
# Clock

An instant is the number of nanoseconds since the clock was started, a duration a number of
nanoseconds; both are natural numbers. Stored times are exact, while a wait ends at the first whole
millisecond at or after the time it waits for (`Clock.wholeMilli`). A wait is never scheduled
further ahead than `Clock.longest`.
-/
namespace PacedChain.Clock

def second : Nat := 1000000000

def milli : Nat := 1000000

def micro : Nat := 1000

def ofSecs (n : Nat) : Nat := second * n

def ofMillis (n : Nat) : Nat := milli * n

def secs (duration : Nat) : Nat := duration / second

/-- The nanoseconds of a duration beyond its whole seconds. -/
def subNanos (duration : Nat) : Nat := duration % second

/-- The longest wait that is ever scheduled: thirty years of 365 days. -/
def longest : Nat := ofSecs (86400 * 365 * 30)

/-- When a wait that starts now is over; it counts as at most `longest`. -/
def deadline (now duration : Nat) : Nat := now + min duration longest

/-- The first whole millisecond at or after `t`. -/
def wholeMilli (t : Nat) : Nat := if t % milli = 0 then t else milli * (t / milli + 1)

@[simp] theorem secs_ofSecs (n : Nat) : secs (ofSecs n) = n := by
  simp only [secs, ofSecs, second]
  omega

@[simp] theorem subNanos_ofSecs (n : Nat) : subNanos (ofSecs n) = 0 := by
  simp only [subNanos, ofSecs, second]
  omega

theorem ofSecs_secs_add_subNanos (d : Nat) : ofSecs (secs d) + subNanos d = d := by
  simp only [ofSecs, secs, subNanos, second]
  omega

theorem le_wholeMilli (t : Nat) : t ≤ wholeMilli t := by
  unfold wholeMilli
  split <;> simp only [milli] at * <;> omega

theorem milli_dvd_wholeMilli (t : Nat) : milli ∣ wholeMilli t := by
  unfold wholeMilli
  split
  · next whole => exact Nat.dvd_of_mod_eq_zero whole
  · exact Nat.dvd_mul_right _ _

theorem wholeMilli_eq_self {t : Nat} (h : milli ∣ t) : wholeMilli t = t :=
  if_pos (Nat.mod_eq_zero_of_dvd h)

theorem wholeMilli_mono {s t : Nat} (h : s ≤ t) : wholeMilli s ≤ wholeMilli t := by
  unfold wholeMilli
  split <;> split <;> simp only [milli] at * <;> omega

/-- A count of units with its fraction of `places` digits, closing zeros left out. -/
private def decimal (whole fraction places : Nat) (unit : String) : String :=
  let digits := Nat.toDigits 10 fraction
  let padded := List.replicate (places - digits.length) '0' ++ digits
  let kept := (padded.reverse.dropWhile (· == '0')).reverse
  toString whole ++ (if kept.isEmpty then "" else "." ++ String.ofList kept) ++ unit

/-- A duration is written in the largest of the units s, ms, µs and ns that it reaches. -/
def durationText (d : Nat) : String :=
  if second ≤ d then decimal (secs d) (subNanos d) 9 "s"
  else if milli ≤ d then decimal (d / milli) (d % milli) 6 "ms"
  else if micro ≤ d then decimal (d / micro) (d % micro) 3 "µs"
  else decimal d 0 0 "ns"

end PacedChain.Clock
