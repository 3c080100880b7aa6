import PacedChain.Json.Reader
import PacedChain.Json.Writer
import Mathlib.Data.List.Forall2

/-!
# Texts and numbers read back

The reader takes a written text or whole number off the front of the characters and leaves the ones
behind it (`readText_escape`, `readNumber_renderNumeral`). A text may hold any characters. A number
has to be followed by something that does not continue it (`EndsNumber`).
-/
namespace PacedChain

/-- A number that is written as digits alone, with a sign. -/
def Numeral.IsWhole (n : Numeral) : Prop := n.integral = true ∧ n.exponent = 0

theorem Numeral.isWhole_ofNat (n : Nat) : (Numeral.ofNat n).IsWhole := ⟨rfl, rfl⟩

namespace Json

variable {c e : Char} {n : Nat} {cs rest more : List Char} {pieces : List Piece}

/-! ### Texts -/

/-- A piece that is this character; a number is one if it is below the surrogates. -/
inductive Piece.StandsFor : Piece → Char → Prop
  | char (c : Char) : StandsFor (.char c) c
  | unit {n : Nat} (low : n < 0xD800) : StandsFor (.unit n) (Char.ofNat n)

theorem isHighSurrogate_of_low (low : n < 0xD800) : isHighSurrogate n = false := by
  simp only [isHighSurrogate, Bool.and_eq_false_iff, decide_eq_false_iff_not]
  omega

theorem isLowSurrogate_of_low (low : n < 0xD800) : isLowSurrogate n = false := by
  simp only [isLowSurrogate, Bool.and_eq_false_iff, decide_eq_false_iff_not]
  omega

theorem joinPieces_eq (h : List.Forall₂ Piece.StandsFor pieces cs) :
    joinPieces pieces = some cs := by
  induction h with
  | nil => rfl
  | cons first others ih =>
    cases first with
    | char c => rw [joinPieces, ih, Option.map_some]
    | unit low =>
      -- A number looks at the number behind it, which is no surrogate either.
      cases others with
      | nil => simp [joinPieces, isHighSurrogate_of_low low, isLowSurrogate_of_low low]
      | cons second others =>
        cases second with
        | char c =>
          simp only [joinPieces] at ih ⊢
          simp [isHighSurrogate_of_low low, isLowSurrogate_of_low low, ih]
        | unit next =>
          rw [joinPieces, ih]
          simp [isHighSurrogate_of_low low, isLowSurrogate_of_low low]

theorem readPieces_visible (visible : ¬c.toNat < 0x20) (no_quote : c ≠ '"') (no_slash : c ≠ '\\')
    (h : readPieces rest = some (pieces, more)) :
    readPieces (c :: rest) = some (.char c :: pieces, more) := by
  rw [readPieces]
  · simp [visible, no_slash, h]
  · exact no_quote
  · intro a b c d rest
    simp [no_slash]
  · simp [no_slash]

theorem readPieces_letter (letter : escaped? e = some c)
    (h : readPieces rest = some (pieces, more)) :
    readPieces ('\\' :: e :: rest) = some (.char c :: pieces, more) := by
  have no_number : e ≠ 'u' := by
    rintro rfl
    simp [escaped?] at letter
  rw [readPieces]
  · simp [letter, h]
  · simp [no_number]

theorem readPieces_number {a b c d : Char} (number : Text.hexNumber? [a, b, c, d] = some n)
    (h : readPieces rest = some (pieces, more)) :
    readPieces ('\\' :: 'u' :: a :: b :: c :: d :: rest) = some (.unit n :: pieces, more) := by
  simp [readPieces, number, h]

theorem hexNumber?_control (small : n < 0x20) :
    Text.hexNumber? ['0', '0', hexDigit (n / 16), hexDigit (n % 16)] = some n := by
  have all : ∀ n < 0x20,
      Text.hexNumber? ['0', '0', hexDigit (n / 16), hexDigit (n % 16)] = some n := by decide
  exact all n small

/-- The written form of a character is read as one piece that is the character. -/
theorem readPieces_escape (c : Char) (h : readPieces rest = some (pieces, more)) :
    ∃ piece : Piece, piece.StandsFor c ∧
      readPieces (escape c ++ rest) = some (piece :: pieces, more) := by
  unfold escape
  split_ifs
  -- Seven characters have a letter of their own.
  iterate 7 case _ same => exact ⟨_, .char c, readPieces_letter (by rw [same]; rfl) h⟩
  case _ control =>
    have stands : (Piece.unit c.toNat).StandsFor c := by
      have := Piece.StandsFor.unit (n := c.toNat) (by omega)
      rwa [Char.ofNat_toNat] at this
    exact ⟨_, stands, readPieces_number (hexNumber?_control control) h⟩
  case _ no_quote no_slash _ _ _ _ _ visible =>
    exact ⟨_, .char c, readPieces_visible visible no_quote no_slash h⟩

theorem readPieces_flatMap_escape (cs rest : List Char) :
    ∃ pieces, List.Forall₂ Piece.StandsFor pieces cs ∧
      readPieces (cs.flatMap escape ++ '"' :: rest) = some (pieces, rest) := by
  induction cs with
  | nil => exact ⟨[], .nil, by simp [readPieces]⟩
  | cons c cs ih =>
    obtain ⟨pieces, others, read⟩ := ih
    obtain ⟨piece, first, read⟩ := readPieces_escape c read
    refine ⟨piece :: pieces, .cons first others, ?_⟩
    rwa [List.flatMap_cons, List.append_assoc]

theorem readText_escape (s : String) (rest : List Char) :
    readText (s.toList.flatMap escape ++ '"' :: rest) = some (some s, rest) := by
  obtain ⟨pieces, stand, read⟩ := readPieces_flatMap_escape s.toList rest
  simp [readText, read, joinPieces_eq stand]

/-! ### Numbers -/

/-- These characters do not continue a number. -/
def EndsNumber (cs : List Char) : Prop :=
  ∀ c ∈ cs.head?, c.isDigit = false ∧ c ≠ '.' ∧ c ≠ 'e' ∧ c ≠ 'E'

theorem digitsValue_concat (cs : List Char) (c : Char) :
    digitsValue (cs ++ [c]) = digitsValue cs * 10 + (c.toNat - '0'.toNat) := by
  simp [digitsValue]

theorem digitsValue_toDigits (n : Nat) : digitsValue (Nat.toDigits 10 n) = n := by
  induction n using Nat.strongRecOn with
  | ind n ih =>
    have last : n % 10 < 10 := Nat.mod_lt _ (by decide)
    rw [Nat.toDigits_eq_if (by decide)]
    split
    · rename_i small
      simp [digitsValue, Nat.toNat_digitChar_sub_48_of_lt_ten small]
    · rw [digitsValue_concat, ih (n / 10) (by omega)]
      have value : (Nat.digitChar (n % 10)).toNat - '0'.toNat = n % 10 :=
        Nat.toNat_digitChar_sub_48_of_lt_ten last
      omega

/-- A written number does not begin with a zero, unless it is zero. -/
theorem head?_toDigits {n : Nat} (positive : 0 < n) :
    ∃ d tail, Nat.toDigits 10 n = d :: tail ∧ d ≠ '0' := by
  induction n using Nat.strongRecOn with
  | ind n ih =>
    rw [Nat.toDigits_eq_if (by decide)]
    split
    · refine ⟨_, _, rfl, ?_⟩
      simp only [ne_eq, Nat.digitChar_eq_zero]
      omega
    · obtain ⟨d, tail, written, nonzero⟩ := ih (n / 10) (by omega) (by omega)
      exact ⟨d, tail ++ [(n % 10).digitChar], by simp [written], nonzero⟩

theorem isDigit_of_mem_toDigits (h : c ∈ Nat.toDigits 10 n) : c.isDigit = true :=
  Nat.isDigit_of_mem_toDigits (by decide) (by decide) h

theorem exists_digit_toDigits (n : Nat) :
    ∃ d tail, Nat.toDigits 10 n = d :: tail ∧ d.isDigit = true := by
  obtain ⟨d, tail, written⟩ := List.exists_cons_of_ne_nil (Nat.toDigits_ne_nil (n := n) (b := 10))
  exact ⟨d, tail, written, isDigit_of_mem_toDigits (n := n) (by simp [written])⟩

theorem spanDigits_append (digits : ∀ c ∈ cs, c.isDigit = true)
    (ends : ∀ c ∈ rest.head?, c.isDigit = false) : spanDigits (cs ++ rest) = (cs, rest) := by
  have none_left : rest.takeWhile Char.isDigit = [] ∧ rest.dropWhile Char.isDigit = rest := by
    cases rest with
    | nil => exact ⟨rfl, rfl⟩
    | cons c rest =>
      have no_digit := ends c rfl
      exact ⟨List.takeWhile_cons_of_neg (by simp [no_digit]),
        List.dropWhile_cons_of_neg (by simp [no_digit])⟩
  rw [spanDigits, List.takeWhile_append_of_pos digits, List.dropWhile_append_of_pos digits,
    none_left.1, none_left.2, List.append_nil]

theorem readWhole_toDigits (n : Nat) (ends : EndsNumber rest) :
    readWhole (Nat.toDigits 10 n ++ rest) = some (Nat.toDigits 10 n, rest) := by
  have found : spanDigits (Nat.toDigits 10 n ++ rest) = (Nat.toDigits 10 n, rest) :=
    spanDigits_append (fun _ => isDigit_of_mem_toDigits) fun c first => (ends c first).1
  rw [readWhole, found]
  rcases Nat.eq_zero_or_pos n with rfl | positive
  · rfl
  · obtain ⟨d, tail, written, nonzero⟩ := head?_toDigits positive
    rw [written]
    split
    · simp_all
    · simp_all
    · rfl

theorem readFraction_of_ends (ends : EndsNumber rest) : readFraction rest = some ([], rest) := by
  unfold readFraction
  split
  · exact absurd rfl (ends '.' rfl).2.1
  · rfl

theorem readExponent_of_ends (ends : EndsNumber rest) : readExponent rest = some (none, rest) := by
  cases rest with
  | nil => rfl
  | cons c rest =>
    obtain ⟨-, -, no_e, no_E⟩ := ends c rfl
    simp [readExponent, no_e, no_E]

theorem readNumber_renderNumeral {n : Numeral} (whole : n.IsWhole) (ends : EndsNumber rest) :
    readNumber (renderNumeral n ++ rest) = some (n, rest) := by
  obtain ⟨negative, coefficient, exponent, integral⟩ := n
  obtain ⟨rfl, rfl⟩ : integral = true ∧ exponent = 0 := whole
  have digits := readWhole_toDigits coefficient ends
  have value := digitsValue_toDigits coefficient
  cases negative with
  | true =>
    simp [renderNumeral, readNumber, digits, value, readFraction_of_ends ends,
      readExponent_of_ends ends]
  | false =>
    -- What stands in front decides how `readNumber` goes on.
    have no_sign : ∀ tail, Nat.toDigits 10 coefficient ++ rest ≠ '-' :: tail := by
      intro tail same
      obtain ⟨d, others, written, digit⟩ := exists_digit_toDigits coefficient
      rw [written, List.cons_append, List.cons.injEq] at same
      simp [same.1] at digit
    simp [renderNumeral, readNumber, digits, value, readFraction_of_ends ends,
      readExponent_of_ends ends]

end Json

end PacedChain
