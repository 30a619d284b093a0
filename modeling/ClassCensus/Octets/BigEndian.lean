/-!
# Big-endian numbers

A class file spells each of its numbers as a run of octets, the most significant one first.
`ofBigEndian` reads such a run and `bigEndian` writes it; each undoes the other as long as the
number fits the width.
-/

namespace ClassCensus

/-- The number spelled by a run of octets, the most significant one first. -/
def ofBigEndian (run : List UInt8) : Nat :=
  run.foldl (fun number octet => number * 256 + octet.toNat) 0

/-- How many numbers the runs of `width` octets spell. -/
def capacity : (width : Nat) → Nat
  | 0 => 1
  | width + 1 => capacity width * 256

/-- The run of `width` octets that spells `number`, the most significant one first. -/
def bigEndian : (width : Nat) → (number : Nat) → List UInt8
  | 0, _ => []
  | width + 1, number => UInt8.ofNat (number / capacity width) :: bigEndian width number

/-- The octets of a table: its length in two octets, and its entries. -/
def writtenTable (write : α → List UInt8) (entries : List α) : List UInt8 :=
  bigEndian 2 entries.length ++ entries.flatMap write

theorem capacity_pos (width : Nat) : 0 < capacity width := by
  induction width with
  | zero => decide
  | succ width ih => rw [capacity]; omega

@[simp]
theorem length_bigEndian (width number : Nat) : (bigEndian width number).length = width := by
  induction width with
  | zero => rfl
  | succ width ih => simp [bigEndian, ih]

theorem bigEndian_one (octet : UInt8) : bigEndian 1 octet.toNat = [octet] := by
  rw [bigEndian, bigEndian, capacity, Nat.div_one, UInt8.ofNat_toNat]

theorem ofBigEndian_foldl (run : List UInt8) (number : Nat) :
    run.foldl (fun number octet => number * 256 + octet.toNat) number =
      number * capacity run.length + ofBigEndian run := by
  induction run generalizing number with
  | nil => simp [ofBigEndian, capacity]
  | cons octet run ih =>
    rw [ofBigEndian, List.foldl_cons, List.foldl_cons, ih, ih (0 * 256 + _), List.length_cons,
      capacity]
    simp only [Nat.zero_mul, Nat.zero_add, Nat.add_mul]
    rw [Nat.mul_assoc, Nat.mul_comm 256, Nat.add_assoc]

theorem ofBigEndian_cons (octet : UInt8) (run : List UInt8) :
    ofBigEndian (octet :: run) = octet.toNat * capacity run.length + ofBigEndian run := by
  rw [ofBigEndian, List.foldl_cons, ofBigEndian_foldl]
  simp

theorem ofBigEndian_bigEndian (width number : Nat) :
    ofBigEndian (bigEndian width number) = number % capacity width := by
  induction width with
  | zero => simp [bigEndian, ofBigEndian, capacity, Nat.mod_one]
  | succ width ih =>
    rw [bigEndian, ofBigEndian_cons, ih, length_bigEndian, UInt8.toNat_ofNat', capacity,
      Nat.mod_mul, Nat.add_comm, Nat.mul_comm (capacity width)]

end ClassCensus
