/-!
# Checksums of archived files

The cyclic redundancy check of 32 bits, with the reflected polynomial `edb88320`.
-/

namespace ClassCensus.Zip

/-- Shifts a remainder by `count` bits. -/
def shiftRemainder : (count : Nat) → UInt32 → UInt32
  | 0, remainder => remainder
  | count + 1, remainder =>
    let shifted := remainder >>> 1
    shiftRemainder count (if remainder &&& 1 = 1 then shifted ^^^ 0xEDB88320 else shifted)

/-- The remainders of single octets. -/
def remainders : Array UInt32 :=
  Array.ofFn fun octet : Fin 256 => shiftRemainder 8 (UInt32.ofNat octet)

/-- The remainder behind one more octet. -/
def remainderBehind (remainder : UInt32) (octet : UInt8) : UInt32 :=
  let place := (remainder &&& 0xFF) ^^^ octet.toUInt32
  (remainder >>> 8) ^^^ remainders.getD place.toNat 0

/-- The checksum of octets. -/
def checksum (octets : Array UInt8) : UInt32 :=
  octets.foldl remainderBehind 0xFFFFFFFF ^^^ 0xFFFFFFFF

end ClassCensus.Zip
