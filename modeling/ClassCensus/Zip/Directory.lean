import ClassCensus.Zip.Entry

/-!
# The directory of an archive

An archive ends with a record that tells where the directory of its entries starts.  Anything may
lie before the archive, which moves all places in it; so the directory is looked for from the place
told forwards.  Numbers that are too great for the record are told by a wide one, which is looked
for in the same way from the place that a locator right before the record tells.
-/

namespace ClassCensus.Zip

/-- Where the directory of an archive lies.  What lies before the archive shifts all places in it; a
directory on several disks is not supported. -/
structure Directory where
  shift : Nat
  start : Nat
  count : Nat
  isSupported : Bool
  deriving Repr, DecidableEq

namespace Directory

/-- Takes `count` entries behind those taken before, the latest first. -/
def entriesOnto (shift : Nat) : (count : Nat) → (before : List Entry) → RecordDecoder (List Entry)
  | 0, before => return before.reverse
  | count + 1, before => do
    let entry ← Entry.decoder shift
    entriesOnto shift count (entry :: before)

def entries (archive : Array UInt8) (directory : Directory) : Except ArchiveFault (List Entry) :=
  if directory.isSupported then
    (entriesOnto directory.shift directory.count []).within archive directory.start archive.size
  else .error .malformed

end Directory

/-- What the record at the end of an archive tells. -/
structure EndRecord where
  disk : Nat
  directoryDisk : Nat
  entriesHere : Nat
  entriesInAll : Nat
  directoryStart : Nat
  deriving Repr, DecidableEq

/-- What a locator tells of the wide record. -/
structure Locator where
  disk : Nat
  recordStart : Nat
  disks : Nat
  deriving Repr, DecidableEq

/-- What the wide record at the end of an archive tells. -/
structure WideEndRecord extends EndRecord where
  length : Nat
  deriving Repr, DecidableEq

namespace Locator

def octets : Nat := 20

open RecordDecoder in
def decoder : RecordDecoder Locator := do
  start 0x07064B50 octets
  let disk ← number 4
  let recordStart ← number 8
  let disks ← number 4
  return { disk, recordStart, disks }

/-- The locator that ends at a place. -/
def before? (archive : Array UInt8) (place : Nat) : Option Locator :=
  if place < octets then none
  else (decoder.within archive (place - octets) place).toOption

end Locator

namespace WideEndRecord

def signature : Nat := 0x06064B50

open RecordDecoder in
def decoder : RecordDecoder WideEndRecord := do
  start signature 56
  let length ← number 8
  skip 4
  let disk ← number 4
  let directoryDisk ← number 4
  let entriesHere ← number 8
  let entriesInAll ← number 8
  skip 8
  let directoryStart ← number 8
  return {
    length, disk, directoryDisk, entriesHere, entriesInAll, directoryStart
  }

/-- The directory that a wide record at a place tells of, which a locator at `stop` leads to.  The
record has to reach up to the locator, and the entries have to fit before the record. -/
def directoryAt (archive : Array UInt8) (locator : Locator) (stop place : Nat) :
    Except ArchiveFault Directory := do
  let record ← decoder.within archive place (place + 56)
  if record.length < 44 ∨ place + 12 + record.length ≠ stop then throw .malformed
  if record.directoryDisk ≠ locator.disk then throw .malformed
  if place < 46 * record.entriesInAll + record.directoryStart then throw .malformed
  let shift := place - locator.recordStart
  return {
    shift
    start := record.directoryStart + shift
    count := record.entriesInAll
    isSupported :=
      record.disk == record.directoryDisk && decide (record.entriesHere ≤ record.entriesInAll)
  }

/-- The directory that the first of the wide records at some places tells of that tells of any, or
the fault of the last one. -/
def firstDirectory (archive : Array UInt8) (locator : Locator) (stop : Nat) :
    ArchiveFault → (places : List Nat) → Except ArchiveFault Directory
  | fault, [] => .error fault
  | _, place :: places =>
    match directoryAt archive locator stop place with
    | .ok directory => .ok directory
    | .error fault => firstDirectory archive locator stop fault places

/-- The directory that a locator at `stop` leads to. -/
def directory (archive : Array UInt8) (locator : Locator) (stop : Nat) :
    Except ArchiveFault Directory :=
  if 1 < locator.disks then .error .malformed
  else
    firstDirectory archive locator stop .malformed
      (placesOf archive signature locator.recordStart stop)

end WideEndRecord

namespace EndRecord

def signature : Nat := 0x06054B50

def octets : Nat := 22

open RecordDecoder in
/-- Takes the record at the end, and answers how many octets the comment behind it has, too. -/
def decoder : RecordDecoder (EndRecord × Nat) := do
  start signature octets
  let disk ← number 2
  let directoryDisk ← number 2
  let entriesHere ← number 2
  let entriesInAll ← number 2
  skip 4
  let directoryStart ← number 4
  let commentLength ← number 2
  return ({ disk, directoryDisk, entriesHere, entriesInAll, directoryStart }, commentLength)

/-- The record at a place, the comment behind which has to be there. -/
def readAt (archive : Array UInt8) (place : Nat) : Except ArchiveFault EndRecord := do
  let stop := place + octets
  let (record, commentLength) ← decoder.within archive place stop
  if stop + commentLength ≤ archive.size then return record else throw .malformed

/-- The locator of a wide record that tells what the record at a place cannot. -/
def locator? (archive : Array UInt8) (place : Nat) (record : EndRecord) : Option Locator :=
  if record.entriesInAll = 0xFFFF ∨ record.directoryStart = unknownNumber then
    Locator.before? archive place
  else none

/-- The directory that the record at a place tells of itself.  If it is empty, it ends where the
record starts. -/
def ownDirectory (archive : Array UInt8) (place : Nat) (record : EndRecord) :
    Except ArchiveFault Directory :=
  let told := record.directoryStart
  let directory := fun start =>
    { shift := start - told, start, count := record.entriesHere,
      isSupported := record.disk == record.directoryDisk : Directory }
  if record.entriesInAll = 0 then .ok (directory (max told place))
  else
    match placesOf archive Entry.signature told place with
    | start :: _ => .ok (directory start)
    | [] => .error .malformed

/-- The directory that the record at a place tells of. -/
def directory (archive : Array UInt8) (place : Nat) (record : EndRecord) :
    Except ArchiveFault Directory :=
  match record.locator? archive place with
  | some locator => WideEndRecord.directory archive locator (place - Locator.octets)
  | none => record.ownDirectory archive place

end EndRecord

end ClassCensus.Zip
