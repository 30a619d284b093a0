/-!
# Binary floating-point numbers

The bits of a number are a sign, an exponent and a fraction.  A finite number stands for all
reals that are rounded to it: those up to half way to its neighbours, and the half way points
themselves if its significand is even.
-/

namespace ClassCensus

/-- The widths of the parts of a floating-point number. -/
structure FloatFormat where
  exponentBits : Nat
  fractionBits : Nat
  deriving Repr, DecidableEq

namespace FloatFormat

def single : FloatFormat := ⟨8, 23⟩

def double : FloatFormat := ⟨11, 52⟩

end FloatFormat

/-- A positive number `significand * 2 ^ exponent` and whether the number below it is twice as near
as the one above. -/
structure BinaryNumber where
  significand : Nat
  exponent : Int
  narrowBelow : Bool
  deriving Repr, DecidableEq

/-- What bits stand for, the sign apart: an infinity or no number at all, zero, or a positive
number. -/
inductive Magnitude where
  | notFinite
  | zero
  | positive (number : BinaryNumber)
  deriving Repr, DecidableEq

namespace FloatFormat

def isNegative (format : FloatFormat) (bits : Nat) : Bool :=
  bits / Nat.pow 2 (format.exponentBits + format.fractionBits) % 2 == 1

/-- What the bits below the sign stand for. -/
def magnitude (format : FloatFormat) (bits : Nat) : Magnitude :=
  let fraction := bits % Nat.pow 2 format.fractionBits
  let exponent := bits / Nat.pow 2 format.fractionBits % Nat.pow 2 format.exponentBits
  let scale : Int := Int.pow 2 (format.exponentBits - 1) - 1 + format.fractionBits
  if exponent = Nat.pow 2 format.exponentBits - 1 then .notFinite
  else if exponent = 0 then
    if fraction = 0 then .zero else .positive ⟨fraction, 1 - scale, false⟩
  else
    .positive
      ⟨Nat.pow 2 format.fractionBits + fraction, exponent - scale, fraction = 0 ∧ 1 < exponent⟩

end FloatFormat

end ClassCensus
