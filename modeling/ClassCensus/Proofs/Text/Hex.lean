import ClassCensus.Text.Hex
import Mathlib.Data.Nat.Digits.Defs

/-!
# Digits of numbers

A number that fits a width is written in the shortest way with zeros in front, and no two numbers
that fit are written alike.
-/

namespace ClassCensus.Hex

variable {width number other : Nat}

theorem digit_eq_digitChar (value : Nat) (hvalue : value < 16) :
    digit value = Nat.digitChar value := by
  decide +revert

theorem digit_injective (first : Nat) (hfirst : first < 16) (second : Nat) (hsecond : second < 16)
    (hsame : digit first = digit second) : first = second := by
  decide +revert

theorem toLower_digit (value : Nat) (hvalue : value < 16) :
    (digit value).toLower = digit value := by
  decide +revert

/-- Digits can be split off at the back, too. -/
theorem paddedDigits_succ (width number : Nat) :
    paddedDigits (width + 1) number =
      paddedDigits width (number / 16) ++ [digit (number % 16)] := by
  induction width generalizing number with
  | zero => simp [paddedDigits]
  | succ width ih =>
      have hfirst : number / Nat.pow 16 (width + 1) = number / 16 / Nat.pow 16 width := by
        rw [Nat.div_div_eq_div_mul, Nat.mul_comm]
        rfl
      rw [paddedDigits, ih number, hfirst]
      rfl

theorem paddedDigits_zero (width : Nat) : paddedDigits width 0 = List.replicate width '0' := by
  induction width with
  | zero => rfl
  | succ width ih =>
      have hdigit : digit (0 % 16) = '0' := by decide
      rw [paddedDigits_succ, Nat.zero_div, ih, hdigit, List.replicate_succ']

/-- A number that fits a width is written in the shortest way, with zeros in front. -/
theorem paddedDigits_eq_leftpad (hnumber : number < 16 ^ (width + 1)) :
    paddedDigits (width + 1) number = (Nat.toDigits 16 number).leftpad (width + 1) '0' := by
  induction width generalizing number with
  | zero =>
      have hsmall : number < 16 := by omega
      rw [paddedDigits_succ, Nat.toDigits_of_lt_base hsmall, Nat.mod_eq_of_lt hsmall,
        digit_eq_digitChar number hsmall]
      rfl
  | succ width ih =>
      have hdigit := digit_eq_digitChar (number % 16) (Nat.mod_lt number (by decide))
      rw [paddedDigits_succ, hdigit]
      by_cases hsmall : number < 16
      · rw [Nat.div_eq_of_lt hsmall, Nat.mod_eq_of_lt hsmall, paddedDigits_zero,
          Nat.toDigits_of_lt_base hsmall]
        rfl
      · have hquotient : number / 16 < 16 ^ (width + 1) := by
          rw [Nat.div_lt_iff_lt_mul (by decide), ← Nat.pow_succ]
          exact hnumber
        rw [ih hquotient, Nat.toDigits_of_base_le (by decide) (Nat.le_of_not_lt hsmall)]
        simp only [List.leftpad, List.append_assoc, List.length_append, List.length_singleton,
          Nat.add_sub_add_right]

theorem mod_eq_of_paddedDigits_eq (hsame : paddedDigits width number = paddedDigits width other) :
    number % 16 ^ width = other % 16 ^ width := by
  induction width generalizing number other with
  | zero => rw [Nat.pow_zero, Nat.mod_one, Nat.mod_one]
  | succ width ih =>
      obtain ⟨hfirst, hothers⟩ := List.cons.inj hsame
      have hdigit :=
        digit_injective _ (Nat.mod_lt _ (by decide)) _ (Nat.mod_lt _ (by decide)) hfirst
      rw [Nat.pow_succ, Nat.mod_mul, Nat.mod_mul, ih hothers]
      exact congrArg (_ + 16 ^ width * ·) hdigit

/-- No two numbers that fit a width are written alike. -/
theorem eq_of_paddedDigits_eq (hnumber : number < 16 ^ width) (hother : other < 16 ^ width)
    (hsame : paddedDigits width number = paddedDigits width other) : number = other := by
  have hmod := mod_eq_of_paddedDigits_eq hsame
  rwa [Nat.mod_eq_of_lt hnumber, Nat.mod_eq_of_lt hother] at hmod

/-- No digit is a letter in upper case. -/
theorem map_toLower_paddedDigits (width number : Nat) :
    (paddedDigits width number).map Char.toLower = paddedDigits width number := by
  induction width with
  | zero => rfl
  | succ width ih =>
      rw [paddedDigits, List.map_cons, ih, toLower_digit _ (Nat.mod_lt _ (by decide))]

end ClassCensus.Hex
