import ClassCensus.ClassFile.Attribute
import ClassCensus.ClassFile.Instruction.Written
import Mathlib.Data.List.Infix
import Mathlib.Data.List.Nodup

/-!
# Instructions of a code array

Disassembling parts a code array: every octet belongs to one instruction, instructions follow each
other without gaps, and each but the last one has as many operands as its layout claims when it is
read from the operands themselves.  Since offsets grow, searching an offset in halves finds the
instruction that starts there.
-/

namespace ClassCensus

namespace Instruction

variable {specification : Specification} {layout : OperandLayout} {opcode : UInt8}
variable {offset : Nat} {octets : List UInt8} {instructions : List Instruction}

/-! ## One instruction -/

@[simp]
theorem offset_ofOpcode (specification : Specification) (offset : Nat) (opcode : UInt8)
    (octets : List UInt8) : (ofOpcode specification offset opcode octets).offset = offset := by
  rw [ofOpcode]
  split <;> rfl

@[simp]
theorem opcode_ofOpcode (specification : Specification) (offset : Nat) (opcode : UInt8)
    (octets : List UInt8) : (ofOpcode specification offset opcode octets).opcode = opcode := by
  rw [ofOpcode]
  split <;> rfl

/-- The operands of an instruction are the first octets behind its opcode. -/
theorem operands_ofOpcode_append (specification : Specification) (offset : Nat) (opcode : UInt8)
    (octets : List UInt8) :
    (ofOpcode specification offset opcode octets).operands ++
      octets.drop (ofOpcode specification offset opcode octets).operands.length = octets := by
  refine List.prefix_iff_eq_append.mp ?_
  rw [ofOpcode]
  split
  · exact List.take_prefix _ _
  · exact List.nil_prefix

theorem signedAt?_take {place length : Nat} (hinside : place + 4 ≤ length) :
    signedAt? (octets.take length) place = signedAt? octets place := by
  have hrun : ((octets.take length).drop place).take 4 = (octets.drop place).take 4 := by
    rw [List.drop_take, List.take_take, Nat.min_eq_left (by omega)]
  rw [signedAt?, signedAt?, hrun]

/-- A layout claims as many octets when it sees no more than those. -/
theorem operandLength_take (layout : OperandLayout) (offset : Nat) (octets : List UInt8) :
    operandLength layout offset (octets.take (operandLength layout offset octets)) =
      operandLength layout offset octets := by
  cases layout with
  | fixed length => rfl
  | tableSwitch =>
      have hlow : padding offset + 4 + 4 ≤ operandLength .tableSwitch offset octets := by
        simp only [operandLength]
        omega
      have hhigh : padding offset + 8 + 4 ≤ operandLength .tableSwitch offset octets := by
        simp only [operandLength]
        omega
      simp only [operandLength] at hlow hhigh ⊢
      rw [signedAt?_take hlow, signedAt?_take hhigh]
  | lookupSwitch =>
      have hpairs : padding offset + 4 + 4 ≤ operandLength .lookupSwitch offset octets := by
        simp only [operandLength]
        omega
      simp only [operandLength] at hpairs ⊢
      rw [signedAt?_take hpairs]
  | wide =>
      have hsome : operandLength .wide offset octets ≠ 0 := by
        simp only [operandLength]
        split <;> decide
      have hhead : (octets.take (operandLength .wide offset octets)).head? = octets.head? := by
        rw [List.head?_take, if_neg hsome]
      simp only [operandLength] at hhead ⊢
      simp only [hhead]

theorem signedAt?_bounds {place : Nat} {value : Int}
    (hvalue : signedAt? octets place = some value) : -0x80000000 ≤ value ∧ value < 0x80000000 := by
  rw [signedAt?] at hvalue
  split at hvalue
  · obtain rfl := Option.some.inj hvalue
    exact ⟨Int32.le_toInt _, Int32.toInt_lt _⟩
  · cases hvalue

/-- No layout claims as much as a word of 64 bits could not count. -/
theorem operandLength_lt (layout : OperandLayout) (offset : Nat) (octets : List UInt8) :
    operandLength layout offset octets < 0x800000000 := by
  have hpadding : padding offset < 4 := Nat.mod_lt _ (by decide)
  cases layout with
  | fixed length =>
      have hlength := length.toNat_lt
      simp only [operandLength]
      omega
  | tableSwitch =>
      simp only [operandLength]
      split
      · rename_i low high hlow hhigh
        have hbelow := signedAt?_bounds hlow
        have habove := signedAt?_bounds hhigh
        have hjumps : (high - low + 1).toNat ≤ 0x100000000 := Int.toNat_le.mpr (by omega)
        generalize (high - low + 1).toNat = jumps at hjumps ⊢
        omega
      · omega
  | lookupSwitch =>
      simp only [operandLength]
      cases hpairs : signedAt? octets (padding offset + 4) with
      | none =>
          simp only [Option.getD_none]
          omega
      | some pairs =>
          have hbounds := signedAt?_bounds hpairs
          have hcount : pairs.toNat ≤ 0x80000000 := Int.toNat_le.mpr (by omega)
          simp only [Option.getD_some]
          omega
  | wide =>
      simp only [operandLength]
      split <;> decide

/-! ## The parts of a code array -/

/-- That instructions part the octets from an offset on: each of them is the one at the next opcode,
and takes its operands from what is behind the opcode. -/
inductive Parts (specification : Specification) : Nat → List UInt8 → List Instruction → Prop
  | nil (offset : Nat) : Parts specification offset [] []
  | cons {offset : Nat} {opcode : UInt8} {octets : List UInt8} {found : Instruction}
    {others : List Instruction} :
    found = ofOpcode specification offset opcode octets →
    Parts specification (offset + 1 + found.operands.length) (octets.drop found.operands.length)
      others →
    Parts specification offset (opcode :: octets) (found :: others)

theorem exists_parts_disassembleOnto {rounds : Nat} (hrounds : octets.length ≤ rounds)
    (offset : Nat) (before : List Instruction) :
    ∃ found, disassembleOnto specification rounds before offset octets = before.reverse ++ found ∧
      Parts specification offset octets found := by
  induction rounds generalizing before offset octets with
  | zero =>
      obtain rfl := List.eq_nil_of_length_eq_zero (Nat.le_zero.mp hrounds)
      exact ⟨[], by rw [disassembleOnto, List.append_nil], .nil offset⟩
  | succ rounds ih =>
      cases octets with
      | nil => exact ⟨[], by rw [disassembleOnto, List.append_nil], .nil offset⟩
      | cons opcode octets =>
          let found := ofOpcode specification offset opcode octets
          have hless : (octets.drop found.operands.length).length ≤ rounds := by
            rw [List.length_drop]
            rw [List.length_cons] at hrounds
            omega
          obtain ⟨others, hothers, hparts⟩ :=
            ih hless (offset + 1 + found.operands.length) (found :: before)
          refine ⟨found :: others, ?_, .cons rfl hparts⟩
          rw [disassembleOnto, hothers, List.reverse_cons, List.append_assoc, List.singleton_append]

/-- Disassembling parts the whole code. -/
theorem parts_disassemble (specification : Specification) (code : List UInt8) :
    Parts specification 0 code (disassemble specification code) := by
  obtain ⟨found, hfound, hparts⟩ :
      ∃ found, disassembleOnto specification code.length [] 0 code = [].reverse ++ found ∧
        Parts specification 0 code found :=
    exists_parts_disassembleOnto (Nat.le_refl code.length) 0 []
  rwa [disassemble, hfound, List.reverse_nil, List.nil_append]

namespace Parts

/-- Octets are parted in one way. -/
theorem unique {others : List Instruction} (hparts : Parts specification offset octets instructions)
    (hothers : Parts specification offset octets others) : instructions = others := by
  induction hparts generalizing others with
  | nil offset =>
      cases hothers
      rfl
  | cons hfound _ ih =>
      cases hothers with
      | cons hother hrest =>
          obtain rfl := hfound.trans hother.symm
          rw [ih hrest]

/-- The parts spell the octets. -/
theorem flatMap_written (hparts : Parts specification offset octets instructions) :
    instructions.flatMap written = octets := by
  induction hparts with
  | nil offset => rfl
  | cons hfound _ ih =>
      rw [List.flatMap_cons, ih, hfound, written, opcode_ofOpcode, List.cons_append,
        operands_ofOpcode_append]

/-- Every part takes an octet. -/
theorem length_le (hparts : Parts specification offset octets instructions) :
    instructions.length ≤ octets.length := by
  induction hparts with
  | nil offset => exact Nat.le_refl 0
  | cons _ _ ih =>
      rw [List.length_drop] at ih
      rw [List.length_cons, List.length_cons]
      omega

theorem adjoin (hparts : Parts specification offset octets instructions) :
    Adjoin offset instructions := by
  induction hparts with
  | nil offset => trivial
  | cons hfound _ ih =>
      refine ⟨by rw [hfound, offset_ofOpcode], ?_⟩
      rwa [written, List.length_cons, Nat.add_comm _ 1, ← Nat.add_assoc]

/-- Behind the opcode of an instruction are the octets that it takes its operands from, and the
instructions behind it part what it leaves. -/
theorem split {front back : List Instruction} {found : Instruction}
    (hparts : Parts specification offset octets (front ++ found :: back)) :
    ∃ behind, found = ofOpcode specification found.offset found.opcode behind ∧
      octets = front.flatMap written ++ found.opcode :: behind ∧
      Parts specification (found.offset + 1 + found.operands.length)
        (behind.drop found.operands.length) back := by
  induction front generalizing offset octets with
  | nil =>
      cases hparts with
      | @cons offset opcode behind _ _ hfound hback =>
          have hoffset : found.offset = offset := by rw [hfound, offset_ofOpcode]
          have hopcode : found.opcode = opcode := by rw [hfound, opcode_ofOpcode]
          subst hoffset hopcode
          exact ⟨behind, hfound, rfl, hback⟩
  | cons first front ih =>
      cases hparts with
      | @cons offset opcode others _ _ hfirst hrest =>
          obtain ⟨behind, hfound, hoctets, hback⟩ := ih hrest
          refine ⟨behind, hfound, ?_, hback⟩
          rw [List.flatMap_cons, List.append_assoc, ← hoctets, hfirst, written, opcode_ofOpcode,
            List.cons_append, operands_ofOpcode_append]

end Parts

/-! ## Offsets -/

namespace Adjoin

theorem bounds (hadjoin : Adjoin offset instructions) : ∀ found ∈ instructions,
    offset ≤ found.offset ∧
      found.offset + found.written.length ≤
        offset + (instructions.flatMap written).length := by
  induction instructions generalizing offset with
  | nil => simp
  | cons first others ih =>
      obtain ⟨rfl, hothers⟩ := hadjoin
      intro found hmem
      rw [List.flatMap_cons, List.length_append]
      rcases List.mem_cons.mp hmem with rfl | hmem
      · omega
      · obtain ⟨hafter, hbefore⟩ := ih hothers found hmem
        omega

/-- Offsets grow. -/
theorem pairwise (hadjoin : Adjoin offset instructions) :
    instructions.Pairwise fun first second => first.offset < second.offset := by
  induction instructions generalizing offset with
  | nil => exact List.Pairwise.nil
  | cons first others ih =>
      obtain ⟨rfl, hothers⟩ := hadjoin
      refine List.pairwise_cons.mpr ⟨fun second hmem => ?_, ih hothers⟩
      have hafter := (hothers.bounds second hmem).1
      rw [written, List.length_cons] at hafter
      omega

end Adjoin

/-! ## Searching an offset -/

theorem searchBetween_sound {rows : Array Instruction} {low high : Nat} {hinside : high ≤ rows.size}
    {found : Instruction} (hfound : searchBetween rows offset low high hinside = some found) :
    found ∈ rows ∧ found.offset = offset := by
  fun_induction searchBetween rows offset low high hinside with
  | case1 low high hinside hless middle hmiddle row hrow =>
      obtain rfl := Option.some.inj hfound
      exact ⟨Array.getElem_mem hmiddle, hrow⟩
  | case2 low high hinside hless middle hmiddle row hrow hbelow ih => exact ih hfound
  | case3 low high hinside hless middle hmiddle row hrow hbelow ih => exact ih hfound
  | case4 => cases hfound

/-- That the offsets of instructions grow from place to place. -/
def Grow (rows : Array Instruction) : Prop :=
  ∀ (first second : Nat) (_ : first < second) (_ : second < rows.size),
    rows[first].offset < rows[second].offset

theorem Grow.lt_of_offset_lt {rows : Array Instruction} (hgrow : Grow rows) {first second : Nat}
    {hfirst : first < rows.size} {hsecond : second < rows.size}
    (hless : rows[first].offset < rows[second].offset) : first < second := by
  by_contra hnot
  rcases Nat.lt_or_eq_of_le (Nat.le_of_not_lt hnot) with hlt | rfl
  · exact Nat.lt_asymm hless (hgrow second first hlt hfirst)
  · exact Nat.lt_irrefl _ hless

/-- Where offsets grow, the search goes on in the half in which the instruction lies. -/
theorem searchBetween_complete {rows : Array Instruction} (hgrow : Grow rows)
    {low high place : Nat} {hinside : high ≤ rows.size} (hlow : low ≤ place)
    (hhigh : place < high) (hplace : rows[place].offset = offset) :
    (searchBetween rows offset low high hinside).isSome := by
  fun_induction searchBetween rows offset low high hinside with
  | case1 => rfl
  | case2 low high hinside hless middle hmiddle row hrow hbelow ih =>
      rw [← hplace] at hbelow
      exact ih (hgrow.lt_of_offset_lt hbelow) hhigh hplace
  | case3 low high hinside hless middle hmiddle row hrow hbelow ih =>
      have habove : offset < row.offset :=
        Nat.lt_of_le_of_ne (Nat.le_of_not_lt hbelow) (Ne.symm hrow)
      rw [← hplace] at habove
      exact ih hlow (hgrow.lt_of_offset_lt habove) hplace
  | case4 => omega

/-- Among instructions whose offsets grow, the search finds exactly the one at an offset. -/
theorem atOffset?_eq_some_iff
    (hgrow : instructions.Pairwise fun first second => first.offset < second.offset)
    {found : Instruction} :
    atOffset? instructions offset = some found ↔ found ∈ instructions ∧ found.offset = offset := by
  constructor
  · intro hfound
    simpa using searchBetween_sound hfound
  · rintro ⟨hmem, hoffset⟩
    obtain ⟨place, hplace, rfl⟩ := List.mem_iff_getElem.mp hmem
    have hplaces : Grow instructions.toArray := by
      intro first second hless hsize
      exact List.pairwise_iff_getElem.mp hgrow first second _ _ hless
    have hsome : (atOffset? instructions offset).isSome :=
      searchBetween_complete hplaces (Nat.zero_le place) hplace hoffset
    obtain ⟨other, hother⟩ := Option.isSome_iff_exists.mp hsome
    obtain ⟨hlisted, hsame⟩ : other ∈ instructions ∧ other.offset = offset := by
      simpa using searchBetween_sound hother
    have hdistinct : (instructions.map Instruction.offset).Nodup :=
      List.pairwise_map.mpr (hgrow.imp Nat.ne_of_lt)
    rw [hother, List.inj_on_of_nodup_map hdistinct hlisted hmem (hsame.trans hoffset.symm)]

/-! ## The laws of disassembling -/

/-- That an instruction is called what the table calls its opcode.  An opcode that the table lacks
has a name of its own and no operands. -/
def IsNamed (specification : Specification) (instruction : Instruction) : Prop :=
  match specification.mnemonic? instruction.opcode with
  | some mnemonic => instruction.mnemonic = mnemonic.name
  | none => instruction.mnemonic = unknownMnemonic ∧ instruction.operands = []

/-- That an instruction has as many operands as the layout of its opcode claims, going by the
operands themselves. -/
def IsComplete (specification : Specification) (instruction : Instruction) : Prop :=
  ∀ mnemonic, specification.mnemonic? instruction.opcode = some mnemonic →
    instruction.operands.length =
      operandLength mnemonic.operands instruction.offset instruction.operands

theorem isNamed_ofOpcode (specification : Specification) (offset : Nat) (opcode : UInt8)
    (octets : List UInt8) :
    (ofOpcode specification offset opcode octets).IsNamed specification := by
  rw [IsNamed, opcode_ofOpcode, ofOpcode]
  cases specification.mnemonic? opcode with
  | none => exact ⟨rfl, rfl⟩
  | some mnemonic => rfl

/-- An instruction that leaves octets behind has all the operands that its layout claims. -/
theorem isComplete_ofOpcode
    (hleft : octets.drop (ofOpcode specification offset opcode octets).operands.length ≠ []) :
    (ofOpcode specification offset opcode octets).IsComplete specification := by
  intro mnemonic hmnemonic
  rw [opcode_ofOpcode] at hmnemonic
  have hoperands : (ofOpcode specification offset opcode octets).operands =
      octets.take (operandLength mnemonic.operands offset octets) := by
    rw [ofOpcode, hmnemonic]
  rw [offset_ofOpcode, hoperands, operandLength_take]
  rw [hoperands, ne_eq, List.drop_eq_nil_iff, List.length_take] at hleft
  rw [List.length_take]
  omega

theorem Parts.isNamed (hparts : Parts specification offset octets instructions) :
    ∀ found ∈ instructions, found.IsNamed specification := by
  intro found hmem
  obtain ⟨front, back, rfl⟩ := List.append_of_mem hmem
  obtain ⟨behind, hfound, -⟩ := hparts.split
  rw [hfound]
  exact isNamed_ofOpcode specification _ _ behind

theorem Parts.isComplete (hparts : Parts specification offset octets instructions) :
    ∀ found ∈ instructions.dropLast, found.IsComplete specification := by
  intro found hmem
  obtain ⟨front, back, hsplit⟩ := List.append_of_mem hmem
  have hne : instructions ≠ [] := by
    rintro rfl
    cases hmem
  have hlast : instructions = front ++ found :: (back ++ [instructions.getLast hne]) := by
    rw [← List.cons_append, ← List.append_assoc, ← hsplit, List.dropLast_append_getLast]
  rw [hlast] at hparts
  obtain ⟨behind, hfound, -, hback⟩ := hparts.split
  rw [hfound]
  refine isComplete_ofOpcode fun hnil => ?_
  rw [← hfound] at hnil
  have hspelled := hback.flatMap_written
  rw [hnil, List.flatMap_append, List.append_eq_nil_iff] at hspelled
  simp [written] at hspelled

/-- Disassembling parts a code array.  The instructions spell the code and follow each other without
gaps from its start, so their offsets grow; each is named by the table, and each but the last one is
complete.  No instruction ends behind the code, no offset passes a word of 32 bits, and no layout
claims operands up to where a word of 64 bits could not point.  The instruction at an offset is the
one that starts there, if there is one. -/
theorem disassemble_parts_code (specification : Specification) (code : List UInt8)
    (hlength : code.length < 0x100000000) :
    (disassemble specification code).flatMap written = code ∧
    Adjoin 0 (disassemble specification code) ∧
    (disassemble specification code).Pairwise (fun first second => first.offset < second.offset) ∧
    (∀ found ∈ disassemble specification code, found.IsNamed specification) ∧
    (∀ found ∈ (disassemble specification code).dropLast, found.IsComplete specification) ∧
    (∀ found ∈ disassemble specification code,
      found.offset + 1 + found.operands.length ≤ code.length ∧ found.offset < 0x100000000 ∧
      ∀ mnemonic, specification.mnemonic? found.opcode = some mnemonic →
        found.offset + 1 +
          operandLength mnemonic.operands found.offset (code.drop (found.offset + 1)) <
            0x10000000000000000) ∧
    ∀ (body : Code Attribute) (offset : Nat),
      body.instructions = disassemble specification code →
        (∀ found, body.instructionAt? offset = some found ↔
          found ∈ body.instructions ∧ found.offset = offset) ∧
        (body.instructionAt? offset = none ↔
          ∀ found ∈ body.instructions, found.offset ≠ offset) := by
  have hparts := parts_disassemble specification code
  have hgrow := hparts.adjoin.pairwise
  refine ⟨hparts.flatMap_written, hparts.adjoin, hgrow, hparts.isNamed, hparts.isComplete, ?_, ?_⟩
  · intro found hmem
    have hend := (hparts.adjoin.bounds found hmem).2
    rw [hparts.flatMap_written, written, List.length_cons] at hend
    refine ⟨by omega, by omega, fun mnemonic _ => ?_⟩
    have hclaimed := operandLength_lt mnemonic.operands found.offset (code.drop (found.offset + 1))
    omega
  · intro body offset hbody
    rw [← hbody] at hgrow
    refine ⟨fun found => atOffset?_eq_some_iff hgrow, ?_⟩
    rw [Option.eq_none_iff_forall_ne_some]
    simp only [ne_eq, Code.instructionAt?, atOffset?_eq_some_iff hgrow, not_and]

/-- A specification with a switch and an opcode without operands. -/
def switchAndNothing : Specification :=
  .new [] [] [⟨0, "nop", .fixed 0⟩, ⟨0xAA, "tableswitch", .tableSwitch⟩]

/-- A code array with an opcode that the table lacks, and a switch whose bounds are cut off. -/
def cutSwitch : List UInt8 := [0, 0xFF, 0xAA, 0, 0, 0, 0, 1]

/-- The switch takes what is left, and the search finds it. -/
theorem disassemble_parts_code_cutSwitch :
    disassemble switchAndNothing cutSwitch =
      [⟨0, 0, "nop", []⟩, ⟨1, 0xFF, unknownMnemonic, []⟩,
        ⟨2, 0xAA, "tableswitch", [0, 0, 0, 0, 1]⟩] ∧
    (⟨0, 0, disassemble switchAndNothing cutSwitch, [], []⟩ : Code Attribute).instructionAt? 2 =
      some ⟨2, 0xAA, "tableswitch", [0, 0, 0, 0, 1]⟩ := by
  have hcode : disassemble switchAndNothing cutSwitch =
      [⟨0, 0, "nop", []⟩, ⟨1, 0xFF, unknownMnemonic, []⟩,
        ⟨2, 0xAA, "tableswitch", [0, 0, 0, 0, 1]⟩] := by
    decide +kernel
  obtain ⟨-, -, -, -, -, -, hsearch⟩ :=
    disassemble_parts_code switchAndNothing cutSwitch (by decide)
  have hfound := (hsearch ⟨0, 0, disassemble switchAndNothing cutSwitch, [], []⟩ 2 rfl).1
    ⟨2, 0xAA, "tableswitch", [0, 0, 0, 0, 1]⟩
  exact ⟨hcode, hfound.mpr ⟨by simp [hcode], rfl⟩⟩

end Instruction

end ClassCensus
