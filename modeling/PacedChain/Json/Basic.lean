import PacedChain.Binary64

/-!
# JSON

JSON values. A number keeps its decimal digits, an object its members in order, the ones of equal
name included. A text that is written with half a surrogate pair is well-formed but stands for no
characters (`none`).
-/
namespace PacedChain

/-- A decimal number, `coefficient * 10 ^ exponent` with a sign. -/
structure Numeral where
  negative : Bool
  coefficient : Nat
  exponent : Int
  /-- Written without a fraction and an exponent. -/
  integral : Bool
  deriving DecidableEq

namespace Numeral

def ofNat (n : Nat) : Numeral := ⟨false, n, 0, true⟩

/-- The natural number that is written as digits alone. -/
def natural? (n : Numeral) : Option Nat :=
  if n.integral && !n.negative then some n.coefficient else none

/-- Whether the nearest double is finite. -/
def inRange (n : Numeral) : Bool :=
  (Binary64.ofDecimal n.negative n.coefficient n.exponent).isFinite

end Numeral

inductive Json where
  | null
  | bool (value : Bool)
  | number (value : Numeral)
  | text (value : Option String)
  | array (items : List Json)
  | object (members : List (Option String × Json))

namespace Json

def nat (n : Nat) : Json := .number (.ofNat n)

def str (s : String) : Json := .text (some s)

def record (members : List (String × Json)) : Json :=
  .object (members.map fun (name, value) => (some name, value))

mutual

/-- How deep arrays and objects are nested. -/
def depth : Json → Nat
  | .array items => depthItems items + 1
  | .object members => depthMembers members + 1
  | _ => 0

def depthItems : List Json → Nat
  | [] => 0
  | item :: rest => max (depth item) (depthItems rest)

def depthMembers : List (Option String × Json) → Nat
  | [] => 0
  | (_, value) :: rest => max (depth value) (depthMembers rest)

end

mutual

/-- Every text stands for characters and every number for a finite double. -/
def isSound : Json → Bool
  | .number value => value.inRange
  | .text value => value.isSome
  | .array items => areSound items
  | .object members => areSoundMembers members
  | .null | .bool _ => true

def areSound : List Json → Bool
  | [] => true
  | item :: rest => isSound item && areSound rest

def areSoundMembers : List (Option String × Json) → Bool
  | [] => true
  | (name, value) :: rest => name.isSome && isSound value && areSoundMembers rest

end

/-- The deepest nesting that is kept in memory. -/
def maxDepth : Nat := 127

/-- Whether a value can be kept in memory before it is known what it stands for. -/
def isBufferable (j : Json) : Bool := j.isSound && j.depth ≤ maxDepth

end Json

end PacedChain
