import ClassCensus.Octets.BigEndian

/-!
# Records of archives

An archive is put together from records.  A record starts with a signature of four octets, and its
numbers have their lowest octet first.  Records are found by their signatures, and decoded field
by field.
-/

namespace ClassCensus.Zip

/-- Why an archive cannot be read: it is none or uses a feature that is not supported, a record is
cut off, or the data of an entry is damaged. -/
inductive ArchiveFault where
  | malformed
  | cutShort
  | damagedData
  deriving Repr, DecidableEq

/-- The number of `width` octets at a place, the lowest octet first; octets past the end count as
zero. -/
def littleEndianAt (archive : Array UInt8) (place : Nat) : (width : Nat) → Nat
  | 0 => 0
  | width + 1 =>
    (archive.getD place 0).toNat + 256 * littleEndianAt archive (place + 1) width

/-- Whether a signature is at a place. -/
def isAt (archive : Array UInt8) (signature place : Nat) : Bool :=
  littleEndianAt archive place 4 == signature

/-- The places from `start` on, before `stop`, at which a signature is. -/
def placesOf (archive : Array UInt8) (signature start stop : Nat) : List Nat :=
  (List.range' start (stop - start)).filter (isAt archive signature)

/-- A step that takes octets from the front of others. -/
abbrev RecordDecoder := StateT (List UInt8) (Except ArchiveFault)

namespace RecordDecoder

def octets (count : Nat) : RecordDecoder (List UInt8) := fun rest =>
  let taken := rest.take count
  if taken.length = count then .ok (taken, rest.drop count) else .error .cutShort

/-- Takes the next `count` octets, which tell nothing of interest. -/
def skip (count : Nat) : RecordDecoder Unit := do
  let _ ← octets count

def number (width : Nat) : RecordDecoder Nat := do
  return ofBigEndian (← octets width).reverse

/-- Takes the signature of a record, of which `length` octets have to be there. -/
def start (signature length : Nat) : RecordDecoder Unit := do
  if ((← get).take length).length < length then throw .cutShort
  if (← number 4) ≠ signature then throw .malformed

/-- Decodes what is between two places of an archive. -/
def within (archive : Array UInt8) (place stop : Nat) (decoder : RecordDecoder α) :
    Except ArchiveFault α :=
  decoder.run' (archive.extract place stop).toList

end RecordDecoder

end ClassCensus.Zip
