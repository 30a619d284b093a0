import ClassCensus.Octets.BigEndian
import ClassCensus.Specification.Basic
import ClassCensus.Text.Hex

/-!
# Instructions

A code array is taken apart by walking from opcode to opcode: the table names the opcode and says
how many octets of operands follow.  Operands never reach past the end of the code, and an opcode
that the table lacks has none, so the instructions always spell the whole array.  They come in the
order of their offsets, and an instruction is searched by its offset in halves.
-/

namespace ClassCensus

/-- An instruction of a code array.  The operands are the octets behind the opcode. -/
structure Instruction where
  offset : Nat
  opcode : UInt8
  mnemonic : String
  operands : List UInt8
  deriving Repr, DecidableEq

namespace Instruction

/-- The name of an opcode that the table lacks. -/
def unknownMnemonic : String := "not found"

/-- The instruction as a line: its offset, its name and its operands in hexadecimal. -/
def text (instruction : Instruction) : String :=
  toString instruction.offset ++ ": " ++ instruction.mnemonic ++
    String.join (instruction.operands.map fun octet => " " ++ Hex.padded 2 octet.toNat)

/-- How many octets lie between an opcode and the next offset that four divides. -/
def padding (offset : Nat) : Nat := (4 - (offset + 1) % 4) % 4

/-- The signed number of four octets that lies `place` octets on, if all four are there. -/
def signedAt? (octets : List UInt8) (place : Nat) : Option Int :=
  let run := (octets.drop place).take 4
  if run.length = 4 then some (UInt32.ofNat (ofBigEndian run)).toInt32.toInt else none

/-- The opcode whose widened form has a constant. -/
def increment : UInt8 := 0x84

/-- How many octets a layout claims behind the opcode at `offset`; `octets` is the code behind
that opcode.  A switch whose numbers are cut off or count to nothing has no jumps. -/
def operandLength (layout : OperandLayout) (offset : Nat) (octets : List UInt8) : Nat :=
  let padding := padding offset
  match layout with
  | .fixed length => length.toNat
  | .tableSwitch =>
    let jumps :=
      match signedAt? octets (padding + 4), signedAt? octets (padding + 8) with
      | some low, some high => (high - low + 1).toNat
      | _, _ => 0
    padding + 12 + jumps * 4
  | .lookupSwitch =>
    let pairs := ((signedAt? octets (padding + 4)).getD 0).toNat
    padding + 8 + pairs * 8
  | .wide => if octets.head? = some increment then 5 else 3

/-- The instruction whose opcode lies at `offset`, followed by `octets`. -/
def ofOpcode (specification : Specification) (offset : Nat) (opcode : UInt8)
    (octets : List UInt8) : Instruction :=
  match specification.mnemonic? opcode with
  | some mnemonic =>
    ⟨offset, opcode, mnemonic.name,
      octets.take (operandLength mnemonic.operands offset octets)⟩
  | none => ⟨offset, opcode, unknownMnemonic, []⟩

/-- The instructions of the code from `offset` on, behind those found before, the latest first.
Every instruction takes an octet, so as many rounds as there are octets suffice. -/
def disassembleOnto (specification : Specification) : (rounds : Nat) →
    (before : List Instruction) → (offset : Nat) → (octets : List UInt8) → List Instruction
  | 0, before, _, _ => before.reverse
  | _ + 1, before, _, [] => before.reverse
  | rounds + 1, before, offset, opcode :: octets =>
    let found := ofOpcode specification offset opcode octets
    let length := found.operands.length
    disassembleOnto specification rounds (found :: before) (offset + 1 + length)
      (octets.drop length)

/-- The instructions of a code array. -/
def disassemble (specification : Specification) (code : List UInt8) : List Instruction :=
  disassembleOnto specification code.length [] 0 code

/-- Searches the instruction at an offset among those from `low` to below `high`, which stand in the
order of their offsets.  The one in the middle says in which half to go on. -/
def searchBetween (instructions : Array Instruction) (offset low high : Nat)
    (hinside : high ≤ instructions.size) : Option Instruction :=
  if hsome : low < high then
    let middle := low + (high - low) / 2
    have hmiddle : middle < instructions.size := by omega
    let found := instructions[middle]
    if found.offset = offset then some found
    else if found.offset < offset then
      searchBetween instructions offset (middle + 1) high hinside
    else searchBetween instructions offset low middle (Nat.le_of_lt hmiddle)
  else none
termination_by high - low

def atOffset? (instructions : List Instruction) (offset : Nat) : Option Instruction :=
  searchBetween instructions.toArray offset 0 instructions.toArray.size (Nat.le_refl _)

end Instruction

end ClassCensus
