import ClassCensus.Constant.Pool
import ClassCensus.Octets.Decoder
import ClassCensus.Specification.Basic
import ClassCensus.Text.ModifiedUtf8

/-!
# Decoding the constant pool

A pool is written as a count and its entries.  The index of the next entry is counted beside the
slots, from 1 on, until it reaches the count.  A wide entry in the last slot leaves an unusable slot
past the count.
-/

namespace ClassCensus

namespace Decoder

/-- Takes a text: a length of two octets and that many octets. -/
def text : Decoder String := do
  let length ← u2
  return ModifiedUtf8.read (← chunk length.toNat)

def fieldValue : FieldWidth → Decoder FieldValue
  | .byte => do return .int (Int32.ofNat (← u1).toNat)
  | .short => do return .int (Int32.ofNat (← u2).toNat)
  | .int => do return .int (← u4).toInt32
  | .float => do return .float (← u4)
  | .long => do return .long (← u8).toInt64
  | .double => do return .double (← u8)
  | .utf8 => do return .text (← text)

def constantFields : List LayoutField → Decoder (List ConstantField)
  | [] => return []
  | field :: fields => do
    let value ← fieldValue field.width
    return ⟨field.role, value⟩ :: (← constantFields fields)

/-- Takes the constant that goes to slot `index`. -/
def constant (specification : Specification) (index : UInt16) : Decoder Constant := do
  let tag ← u1
  match specification.layout? tag with
  | none => throw (.unknownConstantTag tag index)
  | some layout => return ⟨tag, index, layout.kind, ← constantFields layout.fields⟩

/-- Takes constants until the index of the next one reaches `count`.  Every constant moves the index
on, so `count` rounds suffice. -/
def constantsOnto (specification : Specification) (count : UInt16) :
    (rounds : Nat) → (index : UInt16) → ConstantPool → Decoder ConstantPool
  | 0, _, pool => return pool
  | rounds + 1, index, pool =>
    if index < count then do
      let found ← constant specification index
      constantsOnto specification count rounds (found.nextIndex index) (pool.push found)
    else return pool

/-- Takes a count and the constants that it announces. -/
def countedConstants (specification : Specification) : Decoder ConstantPool := do
  let count ← u2
  constantsOnto specification count count.toNat 1 .empty

def constantPool (specification : Specification) : Decoder ConstantPool :=
  located (countedConstants specification)

end Decoder

end ClassCensus
