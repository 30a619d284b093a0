/-!
# Bits of compressed data

Compressed data is read bit by bit, from the lowest bit of each octet to the highest.
-/

namespace ClassCensus.Zip

/-- Compressed data, and how many bits of it were taken. -/
structure BitCursor where
  octets : Array UInt8
  position : Nat

def BitCursor.size (cursor : BitCursor) : Nat := 8 * cursor.octets.size

/-- A step that takes bits.  It answers nothing where the data ends, and where it is not a
compressed form of anything. -/
abbrev BitDecoder := StateT BitCursor Option

namespace BitDecoder

def bit : BitDecoder Nat := fun cursor =>
  match cursor.octets[cursor.position / 8]? with
  | none => none
  | some octet =>
    let value := octet.toNat / Nat.pow 2 (cursor.position % 8) % 2
    some (value, { cursor with position := cursor.position + 1 })

/-- Takes a number of `width` bits, the lowest one first. -/
def bits : (width : Nat) → BitDecoder Nat
  | 0 => return 0
  | width + 1 => do
    let low ← bit
    return low + 2 * (← bits width)

/-- Skips the bits up to the next octet. -/
def align : BitDecoder Unit :=
  modify fun cursor => { cursor with position := (cursor.position + 7) / 8 * 8 }

/-- Takes whole octets, at a place where an octet starts. -/
def octets (length : Nat) : BitDecoder (Array UInt8) := fun cursor =>
  let start := cursor.position / 8
  if start + length ≤ cursor.octets.size then
    some (cursor.octets.extract start (start + length),
      { cursor with position := cursor.position + 8 * length })
  else none

end BitDecoder

end ClassCensus.Zip
