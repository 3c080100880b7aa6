/-!
# Identifiers

An identifier is a number that is written with 26 base-32 digits, the highest first. The digits are
0 to 9 and the Latin letters without I, L, O and U. Letters are read in either case; a text that
stands for more than 128 bits loses the high ones.
-/
namespace PacedChain

namespace Base32

def alphabet : List Char := "0123456789ABCDEFGHJKMNPQRSTVWXYZ".toList

/-- Digits of an identifier. -/
def width : Nat := 26

def modulus : Nat := Nat.pow 2 128

def digit (value : Nat) : Char := alphabet.getD value '0'

/-- The value of a digit, if the character is one. -/
def value? (c : Char) : Option Nat := alphabet.idxOf? c.toUpper

/-- The last `count` digits of a number, the highest first. -/
def digits : (count n : Nat) → List Char
  | 0, _ => []
  | count + 1, n => digits count (n / 32) ++ [digit (n % 32)]

/-- The number that a row of digits continues; `none` if one of the characters is no digit. -/
def number? : (high : Nat) → List Char → Option Nat
  | high, [] => some high
  | high, c :: rest => (value? c).bind fun v => number? (high * 32 + v) rest

/-- The written form of the low 128 bits of a number. -/
def text (n : Nat) : String := String.ofList (digits width (n % modulus))

end Base32

/-- What can be wrong with the text of an identifier. -/
inductive IdentifierError where
  | invalidLength
  | invalidChar
  deriving DecidableEq

def IdentifierError.message : IdentifierError → String
  | .invalidLength => "invalid length"
  | .invalidChar => "invalid character"

/-- The number that a text stands for; its length in bytes is looked at first. -/
def Base32.parse (s : String) : Except IdentifierError Nat :=
  if s.utf8ByteSize ≠ width then .error .invalidLength
  else match number? 0 s.toList with
    | some n => .ok (n % modulus)
    | none => .error .invalidChar

structure TaskId where
  number : Nat
  deriving DecidableEq, Inhabited

structure AttemptId where
  number : Nat
  deriving DecidableEq, Inhabited

def TaskId.text (t : TaskId) : String := "task-" ++ Base32.text t.number

def AttemptId.text (a : AttemptId) : String := "attempt-" ++ Base32.text a.number

/-- Identifiers come in the order of their numbers. -/
def TaskId.order (a b : TaskId) : Ordering := compare a.number b.number

namespace Base32

theorem length_digits (count n : Nat) : (digits count n).length = count := by
  induction count generalizing n with
  | zero => rfl
  | succ count ih => simp [digits, ih]

theorem value?_digit {v : Nat} (h : v < 32) : value? (digit v) = some v := by
  have all : ∀ v < 32, value? (digit v) = some v := by decide
  exact all v h

theorem number?_append (high : Nat) (a b : List Char) :
    number? high (a ++ b) = (number? high a).bind fun n => number? n b := by
  induction a generalizing high with
  | nil => rfl
  | cons c a ih => cases h : value? c <;> simp [number?, h, ih]

theorem number?_digits (high count n : Nat) :
    number? high (digits count n) = some (high * Nat.pow 32 count + n % Nat.pow 32 count) := by
  induction count generalizing n with
  | zero => simp [digits, number?, Nat.mod_one]
  | succ count ih =>
    have low : n % 32 < 32 := Nat.mod_lt _ (by decide)
    simp only [digits, number?_append, ih, Option.bind_some, number?, value?_digit low,
      Option.some.injEq]
    have grown : Nat.pow 32 (count + 1) = Nat.pow 32 count * 32 := rfl
    have split : n % Nat.pow 32 (count + 1) = n / 32 % Nat.pow 32 count * 32 + n % 32 := by
      rw [grown, Nat.mul_comm (Nat.pow 32 count), Nat.mod_mul]
      omega
    rw [split, grown, ← Nat.mul_assoc]
    omega

end Base32

end PacedChain
