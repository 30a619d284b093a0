import ClassCensus.Constant.Decoder
import ClassCensus.Proofs.ClassFile.Instructions
import ClassCensus.Proofs.Octets.Forward
import ClassCensus.Specification.Builtin
import ClassCensus.Specification.Extension
import Mathlib.Data.List.Pairwise

/-!
# Generations of tables

What decodes under some tables decodes in the same way under all tables that extend them: a constant
pool, because a tag without layout ends decoding, and a code array, as long as the smaller tables
know all of its opcodes.  Each built-in generation extends those before it, so falling back to the
newest tables does no harm to pools of an older generation.
-/

namespace ClassCensus

variable {older newer : Specification}

/-! ## Pools -/

namespace Decoder

variable {α β : Type}

/-- That a decoder answers all that another one answers, and takes the same octets for it. -/
def Covers (larger smaller : Decoder α) : Prop :=
  ∀ before value after, smaller before = .ok value after → larger before = .ok value after

theorem Covers.refl (decoder : Decoder α) : Covers decoder decoder := fun _ _ _ hok => hok

theorem covers_throw (decoder : Decoder α) (fault : Fault) : Covers decoder (throw fault) := by
  intro before value after hok
  cases hok

theorem Covers.bind {larger smaller : Decoder α} {next others : α → Decoder β}
    (hcovers : Covers larger smaller) (hnext : ∀ value, Covers (next value) (others value)) :
    Covers (larger >>= next) (smaller >>= others) := by
  intro before value after hok
  simp only [Bind.bind, EStateM.bind] at hok ⊢
  cases hfirst : smaller before with
  | error fault stop =>
      rw [hfirst] at hok
      cases hok
  | ok first behind =>
      rw [hfirst] at hok
      rw [hcovers before first behind hfirst]
      exact hnext first behind value after hok

theorem Covers.located {larger smaller : Decoder α} (hcovers : Covers larger smaller) :
    Covers (located larger) (located smaller) := by
  intro before value after hok
  rw [located_eq_ok_iff] at hok ⊢
  exact hcovers before value after hok

theorem covers_constant (hextended : older.ExtendedBy newer) (index : UInt16) :
    Covers (constant newer index) (constant older index) := by
  refine (Covers.refl u1).bind fun tag => ?_
  cases hlayout : older.layout? tag with
  | none => exact covers_throw _ _
  | some layout =>
      rw [hextended.1 tag layout hlayout]
      exact .refl _

theorem covers_constantsOnto (hextended : older.ExtendedBy newer) (count : UInt16) (rounds : Nat)
    (index : UInt16) (pool : ConstantPool) :
    Covers (constantsOnto newer count rounds index pool)
      (constantsOnto older count rounds index pool) := by
  induction rounds generalizing index pool with
  | zero => exact .refl _
  | succ rounds ih =>
      rw [constantsOnto, constantsOnto]
      split
      · exact (covers_constant hextended index).bind fun found => ih _ _
      · exact .refl _

/-- Larger tables read every pool that smaller ones read, as the same pool. -/
theorem covers_constantPool (hextended : older.ExtendedBy newer) :
    Covers (constantPool newer) (constantPool older) :=
  .located ((Covers.refl u2).bind fun count => covers_constantsOnto hextended count _ _ _)

end Decoder

/-! ## Code -/

namespace Instruction

variable {offset : Nat} {octets : List UInt8} {instructions : List Instruction}

/-- Larger tables part code as smaller ones do that know all of its opcodes. -/
theorem Parts.extended (hextended : older.ExtendedBy newer)
    (hparts : Parts older offset octets instructions)
    (hknown : ∀ found ∈ instructions, (older.mnemonic? found.opcode).isSome) :
    Parts newer offset octets instructions := by
  induction hparts with
  | nil offset => exact .nil offset
  | @cons offset opcode octets found others hfound _ ih =>
      obtain ⟨hfirst, hothers⟩ := List.forall_mem_cons.mp hknown
      rw [hfound, opcode_ofOpcode] at hfirst
      obtain ⟨mnemonic, hmnemonic⟩ := Option.isSome_iff_exists.mp hfirst
      refine .cons ?_ (ih hothers)
      rw [hfound, ofOpcode, ofOpcode, hmnemonic, hextended.2 opcode mnemonic hmnemonic]

theorem disassemble_extended (hextended : older.ExtendedBy newer) (code : List UInt8)
    (hknown : ∀ found ∈ disassemble older code, (older.mnemonic? found.opcode).isSome) :
    disassemble newer code = disassemble older code :=
  (parts_disassemble newer code).unique ((parts_disassemble older code).extended hextended hknown)

end Instruction

/-! ## The built-in generations -/

namespace Builtin

variable {α : Type} {rows : List (Nat × α)} {key : α → UInt8} {major : Nat}

theorem mem_knownAt_iff {row : α} :
    row ∈ knownAt major rows ↔ ∃ since, (since, row) ∈ rows ∧ since ≤ major := by
  simp [knownAt]

/-- Rows in the order of their keys have keys of their own. -/
theorem nodup_of_isChain (hchain : (rows.map fun row => key row.2).IsChain (· < ·)) :
    (rows.map fun row => key row.2).Nodup :=
  (List.isChain_iff_pairwise.mp hchain).imp UInt8.ne_of_lt

section

variable (hkeys : (rows.map fun row => key row.2).Nodup)

include hkeys

theorem eq_of_key_eq {first second : Nat × α} (hfirst : first ∈ rows) (hsecond : second ∈ rows)
    (hkey : key first.2 = key second.2) : first = second :=
  List.inj_on_of_nodup_map hkeys hfirst hsecond hkey

/-- Where every row has a key of its own, a row is found if it is known. -/
theorem lastWith?_knownAt_eq_some_iff {octet : UInt8} {row : α} :
    lastWith? (fun row => key row == octet) (knownAt major rows) = some row ↔
      key row = octet ∧ ∃ since, (since, row) ∈ rows ∧ since ≤ major := by
  rw [lastWith?_eq_find?_reverse]
  constructor
  · intro hfound
    have hmem := List.mem_reverse.mp (List.mem_of_find?_eq_some hfound)
    exact ⟨by simpa using List.find?_some hfound, mem_knownAt_iff.mp hmem⟩
  · rintro ⟨hkey, since, hrow, hsince⟩
    have hknown : row ∈ (knownAt major rows).reverse :=
      List.mem_reverse.mpr (mem_knownAt_iff.mpr ⟨since, hrow, hsince⟩)
    have hsome : ((knownAt major rows).reverse.find? fun row => key row == octet).isSome :=
      List.find?_isSome.mpr ⟨row, hknown, by simpa using hkey⟩
    obtain ⟨other, hother⟩ := Option.isSome_iff_exists.mp hsome
    have hmem := List.mem_reverse.mp (List.mem_of_find?_eq_some hother)
    obtain ⟨_, hlisted, -⟩ := mem_knownAt_iff.mp hmem
    have hsame : key other = octet := by simpa using List.find?_some hother
    obtain ⟨-, rfl⟩ := Prod.mk.inj (eq_of_key_eq hkeys hlisted hrow (hsame.trans hkey.symm))
    exact hother

end

theorem nodup_tags : (layouts.map fun row => row.2.tag).Nodup :=
  nodup_of_isChain (by decide +kernel)

theorem nodup_opcodes : (mnemonics.map fun row => row.2.opcode).Nodup :=
  nodup_of_isChain (by decide +kernel)

theorem layout?_specification_eq_some_iff {generation : Nat × List String} {tag : UInt8}
    {layout : ConstantLayout} : (specification generation).layout? tag = some layout ↔
      layout.tag = tag ∧ ∃ since, (since, layout) ∈ layouts ∧ since ≤ generation.1 := by
  rw [Specification.layout?_eq_lastWith?]
  exact lastWith?_knownAt_eq_some_iff nodup_tags

theorem mnemonic?_specification_eq_some_iff {generation : Nat × List String} {opcode : UInt8}
    {mnemonic : Mnemonic} : (specification generation).mnemonic? opcode = some mnemonic ↔
      mnemonic.opcode = opcode ∧ ∃ since, (since, mnemonic) ∈ mnemonics ∧ since ≤ generation.1 := by
  rw [Specification.mnemonic?_eq_lastWith?]
  exact lastWith?_knownAt_eq_some_iff nodup_opcodes

/-- A later generation explains all that an earlier one does. -/
theorem extendedBy_of_le {earlier later : Nat × List String} (hle : earlier.1 ≤ later.1) :
    (specification earlier).ExtendedBy (specification later) := by
  constructor
  · intro tag layout hlayout
    rw [layout?_specification_eq_some_iff] at hlayout ⊢
    obtain ⟨htag, since, hrow, hsince⟩ := hlayout
    exact ⟨htag, since, hrow, Nat.le_trans hsince hle⟩
  · intro opcode mnemonic hmnemonic
    rw [mnemonic?_specification_eq_some_iff] at hmnemonic ⊢
    obtain ⟨hopcode, since, hrow, hsince⟩ := hmnemonic
    exact ⟨hopcode, since, hrow, Nat.le_trans hsince hle⟩

/-- A layout that came between two generations is missing in the earlier one. -/
theorem not_extendedBy_of_lt {earlier later : Nat × List String} {row : Nat × ConstantLayout}
    (hrow : row ∈ layouts) (hearlier : earlier.1 < row.1) (hlater : row.1 ≤ later.1) :
    ¬ (specification later).ExtendedBy (specification earlier) := by
  intro hextended
  have hfound := hextended.1 row.2.tag row.2
    (layout?_specification_eq_some_iff.mpr ⟨rfl, row.1, hrow, hlater⟩)
  obtain ⟨-, since, hlisted, hsince⟩ := layout?_specification_eq_some_iff.mp hfound
  have hsame : (since, row.2) = row := eq_of_key_eq nodup_tags hlisted hrow rfl
  rw [← hsame] at hearlier
  exact Nat.not_lt_of_le hsince hearlier

/-- Between any two generations some layout came. -/
theorem exists_layout_between : generations.Pairwise fun earlier later =>
    earlier.1 ≤ later.1 ∧ ∃ row ∈ layouts, earlier.1 < row.1 ∧ row.1 ≤ later.1 := by
  decide +kernel

end Builtin

/-- Each built-in specification is extended by those behind it, and extends none of them. -/
theorem Specifications.pairwise_builtin : builtin.toList.Pairwise fun older newer =>
    older.ExtendedBy newer ∧ ¬ newer.ExtendedBy older := by
  refine List.pairwise_map.mpr (Builtin.exists_layout_between.imp ?_)
  rintro earlier later ⟨hle, row, hrow, hearlier, hlater⟩
  exact ⟨Builtin.extendedBy_of_le hle, Builtin.not_extendedBy_of_lt hrow hearlier hlater⟩

/-- The newest built-in specification extends all of them. -/
theorem Specifications.extendedBy_newest {older : Specification} (hmem : older ∈ builtin.toList) :
    older.ExtendedBy builtin.newest :=
  (pairwise_builtin.imp And.left).rel_getLast_of_rel_getLast_getLast hmem (.refl _)

/-- Extending tables changes nothing that decodes.  Larger tables read the same constant pool from
the same octets, and part a code array in the same way if the smaller tables know all of its
opcodes.  The built-in specifications grow from each to the next, so a compiler version that none of
them lists gets tables that read every pool of an older generation as that generation does. -/
theorem extension_keeps_decoding :
    (∀ older newer : Specification, older.ExtendedBy newer →
      (∀ before pool after, Decoder.constantPool older before = .ok pool after →
        Decoder.constantPool newer before = .ok pool after) ∧
      ∀ code, (∀ found ∈ Instruction.disassemble older code,
          (older.mnemonic? found.opcode).isSome) →
        Instruction.disassemble newer code = Instruction.disassemble older code) ∧
    Specifications.builtin.toList.Pairwise
      (fun older newer => older.ExtendedBy newer ∧ ¬ newer.ExtendedBy older) ∧
    ∀ version, (∀ specification ∈ Specifications.builtin.toList,
        specification.appliesTo version = false) →
      Specifications.builtin.forVersion version = Specifications.builtin.newest ∧
      ∀ older ∈ Specifications.builtin.toList, ∀ before pool after,
        Decoder.constantPool older before = .ok pool after →
          Decoder.constantPool (Specifications.builtin.forVersion version) before =
            .ok pool after := by
  refine ⟨?_, Specifications.pairwise_builtin, ?_⟩
  · intro older newer hextended
    exact ⟨Decoder.covers_constantPool hextended, Instruction.disassemble_extended hextended⟩
  · intro version hunlisted
    have hnewest : Specifications.builtin.forVersion version = Specifications.builtin.newest := by
      rw [Specifications.forVersion, List.find?_eq_none.mpr (by simpa using hunlisted),
        Option.getD_none]
    refine ⟨hnewest, fun older hmem => ?_⟩
    rw [hnewest]
    exact Decoder.covers_constantPool (Specifications.extendedBy_newest hmem)

/-- The oldest built-in specification. -/
def oldest : Specification :=
  Specifications.builtin.toList.head Specifications.builtin.nonempty

/-- A constant pool with one text. -/
def oneText : List UInt8 := [0, 2, 1, 0, 1, 65]

/-- A pool and a code array of the oldest generation, read with the newest tables. -/
theorem extension_keeps_decoding_oldest :
    (∃ pool after, Decoder.constantPool oldest (.start oneText) = .ok pool after ∧
      pool.entries = [⟨1, 1, .utf8, [⟨"string_value", .text "A"⟩]⟩] ∧
      Decoder.constantPool (Specifications.builtin.forVersion "26") (.start oneText) =
        .ok pool after) ∧
    Instruction.disassemble Specifications.builtin.newest [0x10, 7, 0xB1] =
      Instruction.disassemble oldest [0x10, 7, 0xB1] := by
  obtain ⟨hdecodes, -, hfallback⟩ := extension_keeps_decoding
  have hmem : oldest ∈ Specifications.builtin.toList := List.head_mem _
  constructor
  · have hentries : (match Decoder.constantPool oldest (.start oneText) with
        | .ok pool _ => pool.entries
        | .error _ _ => []) = [⟨1, 1, .utf8, [⟨"string_value", .text "A"⟩]⟩] := by
      decide +kernel
    split at hentries
    next pool after hpool =>
      have hunlisted : ∀ specification ∈ Specifications.builtin.toList,
          specification.appliesTo "26" = false := by
        decide +kernel
      exact ⟨pool, after, hpool, hentries,
        (hfallback "26" hunlisted).2 oldest hmem (.start oneText) pool after hpool⟩
    next => cases hentries
  · exact (hdecodes oldest Specifications.builtin.newest
      (Specifications.extendedBy_newest hmem)).2 [0x10, 7, 0xB1] (by decide +kernel)

/-- An opcode that came later is taken apart by the oldest tables. -/
example : (Instruction.disassemble oldest [0xBA, 0, 1, 0, 0]).length = 5 ∧
    (Instruction.disassemble Specifications.builtin.newest [0xBA, 0, 1, 0, 0]).length = 1 := by
  decide +kernel

end ClassCensus
