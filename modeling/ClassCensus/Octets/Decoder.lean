import ClassCensus.Fault
import ClassCensus.Octets.BigEndian

/-!
# Decoders of octets

A decoder takes octets from the front of a cursor.  It answers a value or a fault, and in either
case leaves a cursor: the octets it has not taken, how many were taken, and the descriptors it
has met on the way.  What was met before a fault stays met.

Every decoder of the library is put together from `run`, so each takes a front part of the octets
and never looks behind it.
-/

namespace ClassCensus

/-- Where a decoder stands: the octets that are still to be taken, how many were taken, and the
descriptors and signatures met so far, the latest first. -/
structure Cursor where
  rest : List UInt8
  position : Nat
  met : List String

def Cursor.start (octets : List UInt8) : Cursor := ⟨octets, 0, []⟩

/-- A step that takes octets from a cursor and answers a value or a fault. -/
abbrev Decoder := EStateM Fault Cursor

namespace Decoder

/-- Takes the next `length` octets.  If there are fewer, all that are left are taken and the
answer is `fault`. -/
def run (fault : Fault) (length : Nat) : Decoder (List UInt8) := fun cursor =>
  let taken := cursor.rest.take length
  let after : Cursor :=
    ⟨cursor.rest.drop length, cursor.position + taken.length, cursor.met⟩
  if taken.length = length then .ok taken after else .error fault after

def number (width : Nat) : Decoder Nat := do
  return ofBigEndian (← run .numberCutShort width)

def u1 : Decoder UInt8 := do return UInt8.ofNat (← number 1)

def u2 : Decoder UInt16 := do return UInt16.ofNat (← number 2)

def u4 : Decoder UInt32 := do return UInt32.ofNat (← number 4)

def u8 : Decoder UInt64 := do return UInt64.ofNat (← number 8)

/-- Takes a run of octets that the input itself declares to be `length` long. -/
def chunk (length : Nat) : Decoder (List UInt8) := run .runCutShort length

/-- Runs a decoder `count` times in front of what was decoded before, the latest first. -/
def timesOnto (decoder : Decoder α) : (count : Nat) → (before : List α) → Decoder (List α)
  | 0, before => pure before.reverse
  | count + 1, before => do
    let value ← decoder
    timesOnto decoder count (value :: before)

/-- Runs a decoder `count` times and lists the answers in order. -/
def times (count : Nat) (decoder : Decoder α) : Decoder (List α) :=
  timesOnto decoder count []

/-- Takes a table: a count of two octets and that many entries. -/
def table (entry : Decoder α) : Decoder (List α) := do
  let count ← u2
  times count.toNat entry

/-- Takes a short table: a count of one octet and that many entries. -/
def shortTable (entry : Decoder α) : Decoder (List α) := do
  let count ← u1
  times count.toNat entry

/-- Notes a descriptor or signature. -/
def meet (descriptor : String) : Decoder Unit :=
  modify fun cursor => { cursor with met := descriptor :: cursor.met }

/-- Hands a decoder that may nest one more unit of depth than there are octets left.  A step into
a nested value takes an octet, so that depth is never used up before the octets are. -/
def deep (decoder : Nat → Decoder α) : Decoder α := fun cursor =>
  decoder (cursor.rest.length + 1) cursor

/-- Names the place at which a decoder that reads the whole input found its end. -/
def located (decoder : Decoder α) : Decoder α := fun cursor =>
  match decoder cursor with
  | .ok value after => .ok value after
  | .error fault after => .error (fault.atOffset after.position) after

end Decoder

end ClassCensus
