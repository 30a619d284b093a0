import ClassCensus.Zip.Directory
import ClassCensus.Zip.Inflate

/-!
# Archives

The record at the end of an archive is looked for from the end backwards, for a comment may follow
it, and what looks like such a record may lie in the comment or in front of the archive.  The data
of an entry lies behind a header of its own.
-/

namespace ClassCensus.Zip

/-- The entries that the last record before `stop` tells of, among the records that tell of any.
A record that is cut off, or whose comment is, counts as a fault unless one was met before it.  A
record that leads to no directory counts in any case, and a directory that cannot be read makes
the faults before it forgotten. -/
def entriesBefore (archive : Array UInt8) : (stop : Nat) → (met : Option ArchiveFault) →
    Except ArchiveFault (List Entry)
  | 0, met => .error (met.getD .malformed)
  | place + 1, met =>
    if isAt archive EndRecord.signature place then
      match EndRecord.readAt archive place with
      | .error fault => entriesBefore archive place (met.or (some fault))
      | .ok record =>
        match record.directory archive place with
        | .error fault => entriesBefore archive place (some fault)
        | .ok directory =>
          match directory.entries archive with
          | .ok entries => .ok entries
          | .error _ => entriesBefore archive place none
    else entriesBefore archive place met

/-- The entries of an archive in the order of the directory. -/
def entries (archive : Array UInt8) : Except ArchiveFault (List Entry) :=
  entriesBefore archive archive.size none

open RecordDecoder in
/-- Takes the header in front of the data of an entry, and answers how many octets lie between it
and the data. -/
def headerDecoder : RecordDecoder Nat := do
  start 0x04034B50 30
  skip 22
  return (← number 2) + (← number 2)

/-- What data of a compression method stands for. -/
def decompress (method : Nat) (data : Array UInt8) : Except ArchiveFault (Array UInt8) :=
  match method with
  | 0 => .ok data
  | 8 =>
    match inflate data with
    | some inflated => .ok inflated
    | none => .error .damagedData
  | _ => .error .malformed

/-- The data of an entry. -/
def content (archive : Array UInt8) (entry : Entry) : Except ArchiveFault (List UInt8) := do
  if entry.encrypted then throw .malformed
  let header := entry.headerStart
  let between ← headerDecoder.within archive header (header + 30)
  if entry.sealed then throw .malformed
  let start := header + 30 + between
  let data ← decompress entry.method (archive.extract start (start + entry.compressedSize))
  if checksum data = entry.checksum then return data.toList else throw .damagedData

end ClassCensus.Zip
