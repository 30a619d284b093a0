import ClassCensus.Text.CodePage437
import ClassCensus.Text.Utf8
import ClassCensus.Zip.Checksum
import ClassCensus.Zip.Record

/-!
# Entries of archives

The directory of an archive has a record for each entry, behind which the name of the entry, its
extra fields and a comment follow.  An extra field may change what the record tells: its name, and
those of its numbers that are too great for it.
-/

namespace ClassCensus.Zip

/-- An entry of the directory.  An encrypted entry is marked as such, and a sealed one has an extra
field that tells how. -/
structure Entry where
  name : String
  rawName : List UInt8
  comment : String
  method : Nat
  encrypted : Bool
  sealed : Bool
  checksum : UInt32
  size : Nat
  compressedSize : Nat
  headerStart : Nat
  deriving Repr, DecidableEq

/-- The number that stands for one told by an extra field. -/
def unknownNumber : Nat := 0xFFFFFFFF

/-- Where the reading of extra fields stands, and the entry with all changes so far. -/
structure ExtraCursor where
  rest : List UInt8
  entry : Entry

/-- A step that takes octets of extra fields and changes the entry.  Changes made before a fault
stay made. -/
abbrev ExtraDecoder := EStateM ArchiveFault ExtraCursor

instance : MonadLift RecordDecoder ExtraDecoder where
  monadLift decoder := fun cursor =>
    match decoder.run cursor.rest with
    | .ok (value, rest) => .ok value { cursor with rest }
    | .error fault => .error fault cursor

namespace ExtraDecoder

open RecordDecoder

def change (step : Entry → Entry) : ExtraDecoder Unit :=
  modify fun cursor => { cursor with entry := step cursor.entry }

/-- Takes a great number if it is told, hands it on, and answers how many octets it has. -/
def greatNumber (isTold : Bool) (step : Nat → Entry → Entry) : ExtraDecoder Nat := do
  if isTold then
    change (step (← number 8))
    return 8
  else return 0

/-- Takes the numbers that are too great for the record.  A field that is long enough for all of
them tells all of them. -/
def greatNumbers (length : Nat) : ExtraDecoder Unit := do
  let entry := (← get).entry
  let isTold := fun (found : Nat) => decide (24 ≤ length) || found == unknownNumber
  let first ← greatNumber (isTold entry.size) fun found entry => { entry with size := found }
  let second ← greatNumber (isTold entry.compressedSize) fun found entry =>
    { entry with compressedSize := found }
  let third ← greatNumber (isTold entry.headerStart) fun found entry =>
    { entry with headerStart := found }
  let taken := first + second + third
  if length < taken then throw .malformed
  skip (length - taken)

/-- Takes the times that a file system keeps, all of them. -/
def fileSystemTimes (length : Nat) : ExtraDecoder Unit := do
  if length ≠ 32 then throw .malformed
  skip 4
  if (← number 2) ≠ 1 then throw .malformed
  if (← number 2) ≠ 24 then throw .malformed
  skip 24

/-- Takes times of four octets each, as many as flags mark or just one. -/
def markedTimes (length : Nat) : ExtraDecoder Unit := do
  let flags ← number 1
  let marked := (List.range 8).countP fun place => flags / Nat.pow 2 place % 2 == 1
  if length ≠ 5 ∧ length ≠ 1 + 4 * marked then throw .malformed
  skip (length - 1)

def encryption (length : Nat) : ExtraDecoder Unit := do
  if length ≠ 7 then throw .malformed
  let version ← number 2
  let vendor ← number 2
  let strength ← number 1
  let _ ← number 2
  if vendor ≠ 0x4541 ∨ version ∉ [1, 2] ∨ strength ∉ [1, 2, 3] then throw .malformed
  change fun entry => { entry with sealed := true }

/-- Takes UTF-8 that is to stand in place of other octets, which it gives the checksum of. -/
def spelling (length : Nat) (others : List UInt8) : ExtraDecoder (List UInt8 × String) := do
  skip 1
  let found ← number 4
  if length < 5 then throw .malformed
  let octets ← octets (length - 5)
  if UInt32.ofNat found ≠ Zip.checksum others.toArray then throw .malformed
  match Utf8.decode? octets with
  | some text => return (octets, String.ofList text)
  | none => throw .malformed

def nameSpelling (length : Nat) : ExtraDecoder Unit := do
  let (octets, name) ← spelling length (← get).entry.rawName
  change fun entry => { entry with rawName := octets, name }

def commentSpelling (length : Nat) : ExtraDecoder Unit := do
  let (_, comment) ← spelling length (← get).entry.comment.toUTF8.toList
  change fun entry => { entry with comment }

def field : ExtraDecoder Unit := do
  let kind ← number 2
  let length ← number 2
  match kind with
  | 0x0001 => greatNumbers length
  | 0x000A => fileSystemTimes length
  | 0x5455 => markedTimes length
  | 0x6375 => commentSpelling length
  | 0x7075 => nameSpelling length
  | 0x9901 => encryption length
  | _ => skip length

/-- Takes all extra fields.  Every round takes an octet. -/
def fields : (rounds : Nat) → ExtraDecoder Unit
  | 0 => return
  | rounds + 1 => do
    if (← get).rest.isEmpty then return
    field
    fields rounds

end ExtraDecoder

namespace Entry

/-- The entry as extra fields change it.  Extra fields that are cut off tell what they can. -/
def withExtra (entry : Entry) (extra : List UInt8) : Except ArchiveFault Entry :=
  match ExtraDecoder.fields extra.length ⟨extra, entry⟩ with
  | .ok _ after => .ok after.entry
  | .error .cutShort after => .ok after.entry
  | .error fault _ => .error fault

/-- The text that octets spell: UTF-8 if it is marked so. -/
def text (isUtf8 : Bool) (octets : List UInt8) : String :=
  if isUtf8 then String.ofList (Utf8.decodeLossy octets) else CodePage437.read octets

def signature : Nat := 0x02014B50

/-- The compression method of data that is encrypted as an extra field tells. -/
def sealedMethod : Nat := 99

open RecordDecoder in
/-- Takes an entry of the directory.  What lies before the archive moves the data by `shift`. -/
def decoder (shift : Nat) : RecordDecoder Entry := do
  start signature 46
  skip 4
  let flags ← number 2
  let method ← number 2
  skip 4
  let checksum ← number 4
  let compressedSize ← number 4
  let size ← number 4
  let nameLength ← number 2
  let extraLength ← number 2
  let commentLength ← number 2
  skip 8
  let headerStart ← number 4
  let rawName ← octets nameLength
  let extra ← octets extraLength
  let comment ← octets commentLength
  let isUtf8 := flags / 2048 % 2 == 1
  let told : Entry := {
    name := text isUtf8 rawName
    rawName
    comment := text isUtf8 comment
    method
    encrypted := flags % 2 == 1
    sealed := false
    checksum := UInt32.ofNat checksum
    size
    compressedSize
    headerStart
  }
  let entry ← told.withExtra extra
  if entry.method = sealedMethod ∧ ¬ entry.sealed then throw .malformed
  if 18446744073709551616 ≤ entry.headerStart + shift then throw .malformed
  return { entry with headerStart := entry.headerStart + shift }

end Entry

end ClassCensus.Zip
