import ClassCensus.Proofs.ClassFile.Instructions
import ClassCensus.Proofs.Octets.Ensures

/-!
# Code arrays that were put together

Instructions of the table, each laid out behind the one before it with operands that its layout
admits there, are found again in the octets that they spell.  A layout claims just the operands
that it admits, whatever follows them; with that, the instructions part their octets, and octets are
parted in one way.

The number of octets that a switch claims depends on where it lies and on numbers among its own
operands, so the offset is carried along.
-/

namespace ClassCensus

namespace Instruction

variable {specification : Specification} {layout : OperandLayout} {offset : Nat}
variable {operands : List UInt8} {instructions : List Instruction}

/-! ## Numbers among operands -/

/-- A signed number is found behind the octets in front of it. -/
theorem signedAt?_append (front : List UInt8) (value : Int32) (rest : List UInt8) :
    signedAt? (front ++ (bigEndian 4 value.toUInt32.toNat ++ rest)) front.length =
      some value.toInt := by
  have hrun : ((front ++ (bigEndian 4 value.toUInt32.toNat ++ rest)).drop front.length).take 4 =
      bigEndian 4 value.toUInt32.toNat := by
    rw [List.drop_left, List.take_left' (length_bigEndian 4 _)]
  have hword : UInt32.ofNat (ofBigEndian (bigEndian 4 value.toUInt32.toNat)) = value.toUInt32 := by
    have hless : value.toUInt32.toNat < capacity 4 := value.toUInt32.toNat_lt
    rw [ofBigEndian_bigEndian, Nat.mod_eq_of_lt hless, UInt32.ofNat_toNat]
  rw [signedAt?, hrun, if_pos (length_bigEndian 4 _), hword, Int32.toInt32_toUInt32]

/-- There is one number of octets that align what follows an opcode. -/
theorem Aligns.length_eq {padding : List UInt8} (haligns : Aligns offset padding) :
    padding.length = Instruction.padding offset := by
  obtain ⟨hless, hdivides⟩ := haligns
  rw [Instruction.padding]
  omega

/-! ## Operands that are admitted -/

/-- A layout claims the operands that it admits and no octet behind them. -/
theorem operandLength_append (hadmits : layout.Admits offset operands) (rest : List UInt8) :
    operandLength layout offset (operands ++ rest) = operands.length := by
  cases hadmits with
  | fixed length offset operands hlength => exact hlength.symm
  | tableSwitch offset padding default jumps low high haligns hdefault hbounds hjumps =>
      have hpadding := haligns.length_eq
      have hlow := signedAt?_append (padding ++ default) low
        (bigEndian 4 high.toUInt32.toNat ++ (jumps ++ rest))
      have hhigh := signedAt?_append (padding ++ (default ++ bigEndian 4 low.toUInt32.toNat)) high
        (jumps ++ rest)
      simp only [List.append_assoc, List.length_append, length_bigEndian, hdefault, hpadding]
        at hlow hhigh
      have hcount : (high.toInt - low.toInt + 1).toNat * 4 = jumps.length := by omega
      simp only [operandLength, List.append_assoc, hlow, hhigh, hcount, List.length_append,
        length_bigEndian, hdefault, hpadding]
      omega
  | lookupSwitch offset padding default pairs count haligns hdefault hcount hpairs =>
      have hpadding := haligns.length_eq
      have hfound := signedAt?_append (padding ++ default) count (pairs ++ rest)
      simp only [List.append_assoc, List.length_append, hdefault, hpadding] at hfound
      have hlength : count.toInt.toNat * 8 = pairs.length := by omega
      simp only [operandLength, List.append_assoc, hfound, Option.getD_some, hlength,
        List.length_append, length_bigEndian, hdefault, hpadding]
      omega
  | wideIncrement offset operands hlength =>
      simp only [operandLength, List.cons_append, List.head?_cons, if_true, List.length_cons,
        hlength]
  | wideIndex offset opcode operands hopcode hlength =>
      have hhead : some opcode ≠ some increment := fun heq => hopcode (Option.some.inj heq)
      simp only [operandLength, List.cons_append, List.head?_cons, hhead, if_false,
        List.length_cons, hlength]

/-- An instruction that fits is the one found at its opcode, whatever follows its operands. -/
theorem Fits.eq_ofOpcode {instruction : Instruction} (hfits : instruction.Fits specification)
    (rest : List UInt8) :
    instruction = ofOpcode specification instruction.offset instruction.opcode
      (instruction.operands ++ rest) := by
  obtain ⟨mnemonic, hmnemonic, hname, hadmits⟩ := hfits
  rw [ofOpcode, hmnemonic]
  simp only [operandLength_append hadmits rest, List.take_left, ← hname]

/-! ## Instructions in a row -/

/-- Instructions that follow each other part the octets that they spell. -/
theorem Parts.of_adjoin (hadjoin : Adjoin offset instructions)
    (hfits : ∀ found ∈ instructions, found.Fits specification) :
    Parts specification offset (instructions.flatMap written) instructions := by
  induction instructions generalizing offset with
  | nil => exact .nil offset
  | cons first others ih =>
      obtain ⟨rfl, hothers⟩ := hadjoin
      have hfirst := hfits first List.mem_cons_self
      have hparts := ih hothers fun found hfound => hfits found (List.mem_cons_of_mem first hfound)
      rw [List.flatMap_cons, written, List.cons_append]
      refine .cons (hfirst.eq_ofOpcode _) ?_
      rw [List.drop_left]
      rwa [written, List.length_cons, Nat.add_comm _ 1, ← Nat.add_assoc] at hparts

/-- Disassembling finds the instructions that a code array was put together from: each of them is of
the table, starts where the one before it ends, and has operands that its layout admits there. -/
theorem disassemble_flatMap_written (specification : Specification)
    (instructions : List Instruction) (hadjoin : Adjoin 0 instructions)
    (hfits : ∀ found ∈ instructions, found.Fits specification) :
    disassemble specification (instructions.flatMap written) = instructions :=
  (parts_disassemble specification _).unique (.of_adjoin hadjoin hfits)

/-- A specification with an opcode of each layout. -/
def switchesAndWide : Specification :=
  .new [] [] [⟨0x10, "bipush", .fixed 1⟩, ⟨0xAA, "tableswitch", .tableSwitch⟩,
    ⟨0xAB, "lookupswitch", .lookupSwitch⟩, ⟨0xC4, "wide", .wide⟩]

/-- Instructions of each layout, with switches at offsets that ask for paddings of one octet and of
three. -/
def assembledSwitches : List Instruction :=
  [⟨0, 0x10, "bipush", [7]⟩,
    ⟨2, 0xAA, "tableswitch",
      [9, 0, 0, 0, 1, 0xFF, 0xFF, 0xFF, 0xFF, 0, 0, 0, 0, 0, 0, 0, 2, 0, 0, 0, 3]⟩,
    ⟨24, 0xAB, "lookupswitch", [8, 7, 6, 0, 0, 0, 1, 0, 0, 0, 1, 0, 0, 0, 5, 0, 0, 0, 2]⟩,
    ⟨44, 0xC4, "wide", [0x84, 0, 1, 0, 5]⟩, ⟨50, 0xC4, "wide", [0x15, 1, 0]⟩]

theorem adjoin_assembledSwitches : Adjoin 0 assembledSwitches :=
  ⟨rfl, rfl, rfl, rfl, rfl, trivial⟩

theorem fits_assembledSwitches :
    ∀ found ∈ assembledSwitches, found.Fits switchesAndWide := by
  have hbounds : (-1 : Int32) ≤ 0 := by decide
  have hcount : (0 : Int32) ≤ 1 := by decide
  simp only [assembledSwitches, List.forall_mem_cons]
  refine ⟨⟨_, rfl, rfl, .fixed 1 0 [7] rfl⟩, ⟨_, rfl, rfl, ?_⟩, ⟨_, rfl, rfl, ?_⟩,
    ⟨_, rfl, rfl, .wideIncrement 44 _ rfl⟩, ⟨_, rfl, rfl, .wideIndex 50 _ _ (by decide) rfl⟩,
    by simp⟩
  · exact .tableSwitch 2 [9] [0, 0, 0, 1] [0, 0, 0, 2, 0, 0, 0, 3] (-1) 0 ⟨by decide, by decide⟩ rfl
      hbounds rfl
  · exact .lookupSwitch 24 [8, 7, 6] [0, 0, 0, 1] [0, 0, 0, 5, 0, 0, 0, 2] 1
      ⟨by decide, by decide⟩ rfl hcount rfl

/-- The switches end where their own bounds and counts say. -/
theorem disassemble_flatMap_written_switches :
    Adjoin 0 assembledSwitches ∧ (∀ found ∈ assembledSwitches, found.Fits switchesAndWide) ∧
    disassemble switchesAndWide
      [0x10, 7, 0xAA, 9, 0, 0, 0, 1, 0xFF, 0xFF, 0xFF, 0xFF, 0, 0, 0, 0, 0, 0, 0, 2, 0, 0, 0, 3,
        0xAB, 8, 7, 6, 0, 0, 0, 1, 0, 0, 0, 1, 0, 0, 0, 5, 0, 0, 0, 2,
        0xC4, 0x84, 0, 1, 0, 5, 0xC4, 0x15, 1, 0] = assembledSwitches :=
  ⟨adjoin_assembledSwitches, fits_assembledSwitches,
    disassemble_flatMap_written switchesAndWide assembledSwitches adjoin_assembledSwitches
      fits_assembledSwitches⟩

end Instruction

end ClassCensus
