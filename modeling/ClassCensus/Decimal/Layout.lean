import ClassCensus.Decimal.Shortest

/-!
# Writing decimals

Where a decimal is written with its point in place and where with an exponent is a layout of its
own.  Written in place, a decimal always has a point; with an exponent, only if it has more than
one digit.
-/

namespace ClassCensus

/-- The least and the greatest power of ten of a first digit that is written in place. -/
structure DecimalLayout where
  leastPlain : Int
  greatestPlain : Int
  deriving Repr, DecidableEq

namespace DecimalLayout

/-- The text of a decimal with its point in place. -/
def plain (digits : List Char) (exponent : Int) : List Char :=
  if exponent < 0 then
    '0' :: '.' :: (List.replicate ((-exponent).toNat - 1) '0' ++ digits)
  else
    let places := exponent.toNat + 1
    let whole := digits.take places ++ List.replicate (places - digits.length) '0'
    let fraction := digits.drop places
    whole ++ '.' :: (if fraction.isEmpty then ['0'] else fraction)

/-- The text of a decimal with its exponent. -/
def scientific (digits : List Char) (exponent : Int) : List Char :=
  let fraction := digits.drop 1
  digits.take 1 ++ (if fraction.isEmpty then [] else '.' :: fraction) ++
    'e' :: (if exponent < 0 then '-' else '+') :: Nat.toDigits 10 exponent.natAbs

def render (layout : DecimalLayout) (decimal : Decimal) : List Char :=
  let digits := Nat.toDigits 10 decimal.digits
  if layout.leastPlain ≤ decimal.exponent ∧ decimal.exponent ≤ layout.greatestPlain then
    plain digits decimal.exponent
  else scientific digits decimal.exponent

end DecimalLayout

/-- The text of a floating-point number, unless it is not finite. -/
def FloatFormat.render? (format : FloatFormat) (layout : DecimalLayout) (bits : Nat) :
    Option String :=
  let sign := if format.isNegative bits then ['-'] else []
  match format.magnitude bits with
  | .notFinite => none
  | .zero => some (String.ofList (sign ++ ['0', '.', '0']))
  | .positive number => some (String.ofList (sign ++ layout.render number.shortest))

end ClassCensus
