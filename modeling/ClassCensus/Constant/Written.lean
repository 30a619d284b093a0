import ClassCensus.Constant.Decoder

/-!
# Written constant pools

Constants as they lie in a class file: a tag and fields of fixed or declared width.  What they mean
is up to a specification (`RawConstant.constant?`), and so is the slot that each goes to, because a
wide constant takes two (`RawConstant.constantsFrom?`).
-/

namespace ClassCensus

/-- A field of a constant as it lies in a class file.  A run is written behind its length. -/
inductive RawField where
  | byte (value : UInt8)
  | short (value : UInt16)
  | int (value : UInt32)
  | float (bits : UInt32)
  | long (value : UInt64)
  | double (bits : UInt64)
  | run (octets : List UInt8)
  deriving Repr, DecidableEq

namespace RawField

def width : RawField → FieldWidth
  | byte _ => .byte
  | short _ => .short
  | int _ => .int
  | float _ => .float
  | long _ => .long
  | double _ => .double
  | run _ => .utf8

def written : RawField → List UInt8
  | byte value => bigEndian 1 value.toNat
  | short value => bigEndian 2 value.toNat
  | int value => bigEndian 4 value.toNat
  | float bits => bigEndian 4 bits.toNat
  | long value => bigEndian 8 value.toNat
  | double bits => bigEndian 8 bits.toNat
  | run octets => bigEndian 2 octets.length ++ octets

/-- What a field means: numbers of one and two octets are not negative, those of four and eight
are signed, and texts are read as modified UTF-8. -/
def value : RawField → FieldValue
  | byte value => .int (Int32.ofNat value.toNat)
  | short value => .int (Int32.ofNat value.toNat)
  | int value => .int value.toInt32
  | float bits => .float bits
  | long value => .long value.toInt64
  | double bits => .double bits
  | run octets => .text (ModifiedUtf8.read octets)

def Fits : RawField → Prop
  | run octets => octets.length < 65536
  | _ => True

end RawField

/-- A constant as it lies in a class file. -/
structure RawConstant where
  tag : UInt8
  fields : List RawField
  deriving Repr, DecidableEq

namespace RawConstant

def written (raw : RawConstant) : List UInt8 := raw.tag :: raw.fields.flatMap RawField.written

/-- The constant that goes to a slot, if the tag has a layout and the fields match it. -/
def constant? (specification : Specification) (index : Nat) (raw : RawConstant) :
    Option Constant :=
  match specification.layout? raw.tag with
  | none => none
  | some layout =>
    if raw.fields.map RawField.width = layout.fields.map LayoutField.width then
      some ⟨raw.tag, UInt16.ofNat index, layout.kind,
        layout.fields.zipWith (fun field found => ⟨field.role, found.value⟩) raw.fields⟩
    else none

/-- The constants that go to the slots from `index` on, with the first slot behind them. -/
def constantsFrom? (specification : Specification) :
    (index : Nat) → List RawConstant → Option (List Constant × Nat)
  | index, [] => some ([], index)
  | index, raw :: raws => do
    let constant ← raw.constant? specification index
    let (constants, stop) ← constantsFrom? specification (index + constant.kind.slots) raws
    return (constant :: constants, stop)

end RawConstant

/-- The octets of a constant pool with a declared count. -/
def writtenPool (count : UInt16) (raws : List RawConstant) : List UInt8 :=
  bigEndian 2 count.toNat ++ raws.flatMap RawConstant.written

end ClassCensus
