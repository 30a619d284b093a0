/-!
# Hexadecimal text

Numbers and octets in lower-case hexadecimal, padded to a width or as short as they come.
-/

namespace ClassCensus.Hex

/-- The lower-case digit of a number below sixteen. -/
def digit (value : Nat) : Char :=
  if value < 10 then Char.ofNat (0x30 + value) else Char.ofNat (0x57 + value)

/-- The last `width` hexadecimal digits of a number, with zeros in front. -/
def paddedDigits : (width : Nat) → (number : Nat) → List Char
  | 0, _ => []
  | width + 1, number => digit (number / Nat.pow 16 width % 16) :: paddedDigits width number

/-- The last `width` hexadecimal digits of a number as text. -/
def padded (width number : Nat) : String :=
  String.ofList (paddedDigits width number)

/-- The shortest hexadecimal text of a number. -/
def digits (number : Nat) : String :=
  String.ofList (Nat.toDigits 16 number)

/-- Two digits for each octet. -/
def ofOctets (octets : List UInt8) : String :=
  String.ofList (octets.flatMap fun octet => paddedDigits 2 octet.toNat)

@[simp]
theorem length_paddedDigits (width number : Nat) :
    (paddedDigits width number).length = width := by
  induction width with
  | zero => rfl
  | succ width ih => simp [paddedDigits, ih]

end ClassCensus.Hex
