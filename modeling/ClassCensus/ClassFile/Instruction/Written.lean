import ClassCensus.ClassFile.Instruction

/-!
# Written instructions

Which operands a layout admits at an offset, and which instructions follow each other in a code
array without gaps.
-/

namespace ClassCensus

/-- Whether octets behind the opcode at an offset are at most three and lead up to an offset that
four divides. -/
def Instruction.Aligns (offset : Nat) (padding : List UInt8) : Prop :=
  padding.length < 4 ∧ 4 ∣ offset + 1 + padding.length

/-- Operands that a layout admits behind the opcode at an offset.  A switch has padding, a default,
and a jump for each number between two bounds or for each of the counted pairs; a widened opcode has
an index and, for an increment, a constant. -/
inductive OperandLayout.Admits : OperandLayout → (offset : Nat) → (operands : List UInt8) → Prop
    where
  | fixed (length : UInt8) (offset : Nat) (operands : List UInt8) :
    operands.length = length.toNat → Admits (.fixed length) offset operands
  | tableSwitch (offset : Nat) (padding default jumps : List UInt8) (low high : Int32) :
    Instruction.Aligns offset padding → default.length = 4 → low ≤ high →
    (jumps.length : Int) = 4 * (high.toInt - low.toInt + 1) →
    Admits .tableSwitch offset
      (padding ++ (default ++ (bigEndian 4 low.toUInt32.toNat ++
        (bigEndian 4 high.toUInt32.toNat ++ jumps))))
  | lookupSwitch (offset : Nat) (padding default pairs : List UInt8) (count : Int32) :
    Instruction.Aligns offset padding → default.length = 4 → 0 ≤ count →
    (pairs.length : Int) = 8 * count.toInt →
    Admits .lookupSwitch offset
      (padding ++ (default ++ (bigEndian 4 count.toUInt32.toNat ++ pairs)))
  | wideIncrement (offset : Nat) (operands : List UInt8) : operands.length = 4 →
    Admits .wide offset (Instruction.increment :: operands)
  | wideIndex (offset : Nat) (opcode : UInt8) (operands : List UInt8) :
    opcode ≠ Instruction.increment → operands.length = 2 →
    Admits .wide offset (opcode :: operands)

namespace Instruction

def written (instruction : Instruction) : List UInt8 :=
  instruction.opcode :: instruction.operands

/-- Whether each instruction starts where the one before it ends, the first one at an offset. -/
def Adjoin : (offset : Nat) → List Instruction → Prop
  | _, [] => True
  | offset, first :: others =>
    first.offset = offset ∧ Adjoin (offset + first.written.length) others

/-- Whether an instruction is one of the table, with operands that its layout admits. -/
def Fits (specification : Specification) (instruction : Instruction) : Prop :=
  ∃ mnemonic, specification.mnemonic? instruction.opcode = some mnemonic ∧
    instruction.mnemonic = mnemonic.name ∧
    mnemonic.operands.Admits instruction.offset instruction.operands

end Instruction

end ClassCensus
