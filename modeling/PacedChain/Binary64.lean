/-!
# Binary64

Double precision numbers with exact arithmetic: every finite one is a whole number of units of
2^-1074, the least positive one. An operation takes its exact result, a ratio of two natural
numbers, to the nearest number of at most 53 significant bits, and of two equally near ones to the
even one (`Binary64.nearest`); from 2^1024 on the result is infinite.
-/
namespace PacedChain

inductive Binary64 where
  | nan
  | infinite (negative : Bool)
  /-- So many units of 2^-1074. -/
  | finite (negative : Bool) (units : Nat)
  deriving DecidableEq, Inhabited

namespace Binary64

/-- The units of the number one. -/
def unity : Nat := Nat.pow 2 1074

/-- The units of 2^1024, which is too large to be finite. -/
def overflow : Nat := Nat.pow 2 2098

/-- The whole number nearest to `num / den`; a half goes to the even neighbour. -/
def divNearest (num den : Nat) : Nat :=
  let quotient := num / den
  let rest := num % den
  if 2 * rest < den ∨ (2 * rest = den ∧ quotient % 2 = 0) then quotient else quotient + 1

/-- How many low bits of a number 53 significant bits leave no room for. -/
def excess (n : Nat) : Nat := n.log2 + 1 - 53

/-- The units nearest to `num / den` that have at most 53 significant bits. -/
def nearest (num den : Nat) : Nat :=
  let shift := excess (num / den)
  divNearest num (den * Nat.pow 2 shift) * Nat.pow 2 shift

/-- The double nearest to `num / den` units. -/
def round (negative : Bool) (num den : Nat) : Binary64 :=
  let units := nearest num den
  if units < overflow then .finite negative units else .infinite negative

def ofRatio (num den : Nat) : Binary64 := round false (num * unity) den

def ofNat (n : Nat) : Binary64 := ofRatio n 1

def ofInt (n : Int) : Binary64 := round (n < 0) (n.natAbs * unity) 1

/-- The double nearest to `coefficient * 10 ^ exponent`. Exponents that are out of reach whatever
the digits are decided by themselves. -/
def ofDecimal (negative : Bool) (coefficient : Nat) (exponent : Int) : Binary64 :=
  let magnitude := exponent + (Nat.toDigits 10 coefficient).length
  if coefficient = 0 ∨ magnitude < -400 then .finite negative 0
  else if 400 < magnitude then .infinite negative
  else if 0 ≤ exponent then round negative (coefficient * Nat.pow 10 exponent.toNat * unity) 1
  else round negative (coefficient * unity) (Nat.pow 10 (-exponent).toNat)

def isFinite : Binary64 → Bool
  | .finite _ _ => true
  | _ => false

def isNaN : Binary64 → Bool
  | .nan => true
  | _ => false

/-- The value in units, with its sign. -/
def scaled (negative : Bool) (units : Nat) : Int := if negative then -(units : Int) else units

/-- A number of units with its sign; a sum of zero is positive. -/
private def ofScaled (n : Int) : Binary64 := round (n < 0) n.natAbs 1

def add : Binary64 → Binary64 → Binary64
  | .nan, _ | _, .nan => .nan
  | .infinite s, .infinite t => if s = t then .infinite s else .nan
  | .infinite s, .finite _ _ => .infinite s
  | .finite _ _, .infinite t => .infinite t
  | .finite s a, .finite t b =>
    if s = t then round s (a + b) 1 else ofScaled (scaled s a + scaled t b)

def mul : Binary64 → Binary64 → Binary64
  | .nan, _ | _, .nan => .nan
  | .infinite s, .infinite t => .infinite (s != t)
  | .infinite s, .finite t b => if b = 0 then .nan else .infinite (s != t)
  | .finite s a, .infinite t => if a = 0 then .nan else .infinite (s != t)
  | .finite s a, .finite t b => round (s != t) (a * b) unity

/-- Whether one number is less than another; nothing is less or greater than a NaN. -/
def lt : Binary64 → Binary64 → Bool
  | .nan, _ | _, .nan => false
  | .infinite s, .infinite t => s && !t
  | .infinite s, .finite _ _ => s
  | .finite _ _, .infinite t => !t
  | .finite s a, .finite t b => scaled s a < scaled t b

/-- Whether one number is at most another; false if one of them is a NaN. -/
def le (a b : Binary64) : Bool := !a.isNaN && !b.isNaN && !lt b a

/-- Whether two numbers have one value; a NaN has none. -/
def same (a b : Binary64) : Bool := le a b && le b a

/-- `result * base ^ exponent` by repeated squaring, every product rounded. -/
def powFrom (result base : Binary64) (exponent : Nat) : Binary64 :=
  let result := if exponent % 2 = 1 then mul result base else result
  if exponent / 2 = 0 then result else powFrom result (mul base base) (exponent / 2)
termination_by exponent

def pow (base : Binary64) (exponent : Nat) : Binary64 := powFrom (ofNat 1) base exponent

/-- The number that 64 bits stand for: sign, 11 bits of exponent, 52 bits of fraction. -/
def ofBits (bits : Nat) : Binary64 :=
  let negative := bits / Nat.pow 2 63 % 2 == 1
  let exponent := bits / Nat.pow 2 52 % Nat.pow 2 11
  let fraction := bits % Nat.pow 2 52
  if exponent = 2047 then (if fraction = 0 then .infinite negative else .nan)
  else if exponent = 0 then .finite negative fraction
  else .finite negative ((Nat.pow 2 52 + fraction) * Nat.pow 2 (exponent - 1))

/-- The 64 bits of a number; there is one NaN. -/
def toBits : Binary64 → Nat
  | .nan => 0x7ff8000000000000
  | .infinite negative => (if negative then Nat.pow 2 63 else 0) + 2047 * Nat.pow 2 52
  | .finite negative units =>
    (if negative then Nat.pow 2 63 else 0) +
      if units < Nat.pow 2 52 then units
      else
        let exponent := units.log2 - 51
        exponent * Nat.pow 2 52 + (units / Nat.pow 2 (exponent - 1) - Nat.pow 2 52)

end Binary64

end PacedChain
