import ClassCensus.Constant.Written
import ClassCensus.Octets.Decoder.Reads
import ClassCensus.Proofs.Constant.Indices
import ClassCensus.Proofs.Octets.Forward
import Mathlib.Data.List.Forall2

/-!
# The layout of constant pools

Decoding a constant pool undoes its layout, whatever tags the tables explain and however they lay
them out.  Octets that spell constants lead the decoder from one constant to the next as long as
slots are declared; where they end, the pool is read, and where a tag has no layout, the decoder
stops behind it.  The slots that the tables give to the constants settle which constants are taken
and which index each of them gets.
-/

namespace ClassCensus

/-! ## What raw constants mean -/

/-- That a value is the one of a raw field: numbers of one and two octets are not negative, those of
four and eight are signed, floating-point numbers keep their bits, and a run of octets is read as
text. -/
def RawField.Means : RawField → FieldValue → Prop
  | byte value, .int found => found.toInt = value.toNat
  | short value, .int found => found.toInt = value.toNat
  | int value, .int found => found.toInt = value.toBitVec.toInt
  | float bits, .float found => found = bits
  | long value, .long found => found.toInt = value.toBitVec.toInt
  | double bits, .double found => found = bits
  | run octets, .text found => found = ModifiedUtf8.read octets
  | _, _ => False

theorem RawField.means_value (field : RawField) : field.Means field.value := by
  have hsmall : ∀ number < 65536, (Int32.ofNat number).toInt = number := by
    intro number hless
    exact Int32.toInt_ofNat_of_lt (Nat.lt_trans hless (by decide))
  cases field with
  | byte value => exact hsmall value.toNat (Nat.lt_trans value.toNat_lt (by decide))
  | short value => exact hsmall value.toNat value.toNat_lt
  | int value | long value | float bits | double bits | run octets => rfl

namespace RawConstant

variable {specification : Specification}

/-- That a specification has a layout for the tag of a raw constant, that the fields have the widths
of the layout in order, and that each of them can be written. -/
def LaidOut (specification : Specification) (raw : RawConstant) : Prop :=
  (∃ layout, specification.layout? raw.tag = some layout ∧
    raw.fields.map RawField.width = layout.fields.map LayoutField.width) ∧
  ∀ field ∈ raw.fields, field.Fits

/-- That a constant is what a raw one says: it has the same tag, the kind and the roles that the
layout of the tag gives, and the values of the raw fields. -/
structure Means (specification : Specification) (raw : RawConstant) (constant : Constant) :
    Prop where
  tag : constant.tag = raw.tag
  layout : ∃ layout, specification.layout? raw.tag = some layout ∧ constant.kind = layout.kind ∧
    constant.fields.map ConstantField.role = layout.fields.map LayoutField.role
  values : List.Forall₂ (fun field found => field.Means found.value) raw.fields constant.fields

/-- How many slots a specification gives to the constants under the tag of a raw one. -/
def slots (specification : Specification) (raw : RawConstant) : Nat :=
  ((specification.layout? raw.tag).map fun layout => layout.kind.slots).getD 0

/-- How many slots a specification gives to raw constants. -/
def slotsOf (specification : Specification) : List RawConstant → Nat
  | [] => 0
  | raw :: raws => raw.slots specification + slotsOf specification raws

/-- That the slots of raw constants reach a declared count, and do not without the last of them.  A
wide one may reach one slot beyond. -/
structure Reach (specification : Specification) (count : UInt16) (raws : List RawConstant) :
    Prop where
  reached : count.toNat ≤ 1 + slotsOf specification raws
  needed : ∀ front last, raws = front ++ [last] → 1 + slotsOf specification front < count.toNat

theorem slotsOf_append (first second : List RawConstant) :
    slotsOf specification (first ++ second) =
      slotsOf specification first + slotsOf specification second := by
  induction first with
  | nil => rw [List.nil_append, slotsOf, Nat.zero_add]
  | cons raw first ih => rw [List.cons_append, slotsOf, slotsOf, ih, Nat.add_assoc]

/-! ## The constants of raw ones -/

theorem constant?_eq_some {index : Nat} {raw : RawConstant} {constant : Constant}
    (hconstant : raw.constant? specification index = some constant) :
    ∃ layout, specification.layout? raw.tag = some layout ∧
      raw.fields.map RawField.width = layout.fields.map LayoutField.width ∧
      constant = ⟨raw.tag, UInt16.ofNat index, layout.kind,
        layout.fields.zipWith (fun field found => ⟨field.role, found.value⟩) raw.fields⟩ := by
  rw [constant?] at hconstant
  split at hconstant
  next => cases hconstant
  next layout hlayout =>
    split at hconstant
    next hwidths => exact ⟨layout, hlayout, hwidths, (Option.some.inj hconstant).symm⟩
    next => cases hconstant

theorem exists_constant? {raw : RawConstant} (hlaid : raw.LaidOut specification) (index : Nat) :
    ∃ constant, raw.constant? specification index = some constant := by
  obtain ⟨⟨layout, hlayout, hwidths⟩, -⟩ := hlaid
  exact ⟨_, by rw [constant?, hlayout]; exact if_pos hwidths⟩

theorem slots_eq {index : Nat} {raw : RawConstant} {constant : Constant}
    (hconstant : raw.constant? specification index = some constant) :
    constant.kind.slots = raw.slots specification := by
  obtain ⟨layout, hlayout, -, rfl⟩ := constant?_eq_some hconstant
  rw [slots, hlayout]
  rfl

/-- The roles of a layout and the values of raw fields go together. -/
theorem zipWith_fields {fields : List LayoutField} {raws : List RawField}
    (hwidths : raws.map RawField.width = fields.map LayoutField.width) :
    let found := fields.zipWith (fun field raw => (⟨field.role, raw.value⟩ : ConstantField)) raws
    found.map ConstantField.role = fields.map LayoutField.role ∧
      List.Forall₂ (fun raw field => raw.Means field.value) raws found := by
  induction fields generalizing raws with
  | nil =>
      rw [List.map_nil, List.map_eq_nil_iff] at hwidths
      subst hwidths
      exact ⟨rfl, .nil⟩
  | cons field fields ih =>
      cases raws with
      | nil => cases hwidths
      | cons raw raws =>
          obtain ⟨hroles, hvalues⟩ := ih (List.cons.inj hwidths).2
          exact ⟨congrArg (field.role :: ·) hroles, .cons raw.means_value hvalues⟩

theorem means_constant? {index : Nat} {raw : RawConstant} {constant : Constant}
    (hconstant : raw.constant? specification index = some constant) :
    raw.Means specification constant := by
  obtain ⟨layout, hlayout, hwidths, rfl⟩ := constant?_eq_some hconstant
  obtain ⟨hroles, hvalues⟩ := zipWith_fields hwidths
  exact ⟨rfl, ⟨layout, hlayout, rfl, hroles⟩, hvalues⟩

theorem constantsFrom?_cons_eq_some {index stop : Nat} {raw : RawConstant}
    {raws : List RawConstant} {constants : List Constant} :
    constantsFrom? specification index (raw :: raws) = some (constants, stop) ↔
      ∃ constant others, raw.constant? specification index = some constant ∧
        constantsFrom? specification (index + constant.kind.slots) raws = some (others, stop) ∧
        constants = constant :: others := by
  simp only [constantsFrom?, Option.bind_eq_bind, Option.bind_eq_some_iff, Option.pure_def,
    Option.some.injEq, Prod.mk.injEq, Prod.exists]
  constructor
  · rintro ⟨constant, hconstant, others, _, hothers, rfl, rfl⟩
    exact ⟨constant, others, hconstant, hothers, rfl⟩
  · rintro ⟨constant, others, hconstant, hothers, rfl⟩
    exact ⟨constant, hconstant, others, stop, hothers, rfl, rfl⟩

theorem le_of_constantsFrom? {index stop : Nat} {raws : List RawConstant}
    {constants : List Constant}
    (hconstants : constantsFrom? specification index raws = some (constants, stop)) :
    index ≤ stop := by
  induction raws generalizing index constants with
  | nil =>
      cases hconstants
      exact Nat.le_refl _
  | cons raw raws ih =>
      obtain ⟨constant, others, -, hothers, -⟩ := constantsFrom?_cons_eq_some.mp hconstants
      exact Nat.le_trans (Nat.le_add_right index _) (ih hothers)

/-- Raw constants that are laid out mean constants, of which each has the slots that its tag is
given. -/
theorem exists_constantsFrom? {raws : List RawConstant}
    (hlaid : ∀ raw ∈ raws, raw.LaidOut specification) (index : Nat) :
    ∃ constants, constantsFrom? specification index raws =
        some (constants, index + slotsOf specification raws) ∧
      List.Forall₂ (Means specification) raws constants := by
  induction raws generalizing index with
  | nil => exact ⟨[], rfl, .nil⟩
  | cons raw raws ih =>
      obtain ⟨hraw, hraws⟩ := List.forall_mem_cons.mp hlaid
      obtain ⟨constant, hconstant⟩ := exists_constant? hraw index
      obtain ⟨constants, hconstants, hmeans⟩ := ih hraws (index + constant.kind.slots)
      refine ⟨constant :: constants, ?_, .cons (means_constant? hconstant) hmeans⟩
      rw [constantsFrom?_cons_eq_some]
      refine ⟨constant, constants, hconstant, ?_, rfl⟩
      rw [hconstants, slots_eq hconstant, slotsOf, Nat.add_assoc]

theorem constantsFrom?_append {index middle stop : Nat} {first second : List RawConstant}
    {constants others : List Constant}
    (hfirst : constantsFrom? specification index first = some (constants, middle))
    (hsecond : constantsFrom? specification middle second = some (others, stop)) :
    constantsFrom? specification index (first ++ second) = some (constants ++ others, stop) := by
  induction first generalizing index constants with
  | nil =>
      cases hfirst
      exact hsecond
  | cons raw first ih =>
      obtain ⟨constant, found, hconstant, hfound, rfl⟩ := constantsFrom?_cons_eq_some.mp hfirst
      exact constantsFrom?_cons_eq_some.mpr ⟨constant, _, hconstant, ih hfound, rfl⟩

end RawConstant

/-! ## Decoding raw constants -/

namespace Decoder

variable {specification : Specification}

/-- A run of octets behind its length is read as one text. -/
theorem reads_text {octets : List UInt8} (hfits : octets.length < 65536) :
    Reads text (bigEndian 2 octets.length ++ octets) (ModifiedUtf8.read octets) := by
  have hlength : (UInt16.ofNat octets.length).toNat = octets.length := by
    rw [UInt16.toNat_ofNat', Nat.mod_eq_of_lt hfits]
  have hcount := reads_u2 (UInt16.ofNat octets.length)
  rw [hlength] at hcount
  refine hcount.bind _ ?_
  rw [hlength]
  exact (reads_chunk octets).map ModifiedUtf8.read

theorem reads_fieldValue {field : RawField} (hfits : field.Fits) :
    Reads (fieldValue field.width) field.written field.value := by
  cases field with
  | byte value => exact (reads_u1 value).map fun word => FieldValue.int (Int32.ofNat word.toNat)
  | short value => exact (reads_u2 value).map fun word => FieldValue.int (Int32.ofNat word.toNat)
  | int value => exact (reads_u4 value).map fun word => FieldValue.int word.toInt32
  | float bits => exact (reads_u4 bits).map FieldValue.float
  | long value => exact (reads_u8 value).map fun word => FieldValue.long word.toInt64
  | double bits => exact (reads_u8 bits).map FieldValue.double
  | run octets => exact (reads_text hfits).map FieldValue.text

theorem reads_constantFields {fields : List LayoutField} {raws : List RawField}
    (hwidths : raws.map RawField.width = fields.map LayoutField.width)
    (hfits : ∀ raw ∈ raws, raw.Fits) :
    Reads (constantFields fields) (raws.flatMap RawField.written)
      (fields.zipWith (fun field raw => ⟨field.role, raw.value⟩) raws) := by
  induction fields generalizing raws with
  | nil =>
      rw [List.map_nil, List.map_eq_nil_iff] at hwidths
      subst hwidths
      exact reads_pure []
  | cons field fields ih =>
      cases raws with
      | nil => cases hwidths
      | cons raw raws =>
          obtain ⟨hwidth, hwidths⟩ := List.cons.inj hwidths
          obtain ⟨hraw, hraws⟩ := List.forall_mem_cons.mp hfits
          have hvalue := reads_fieldValue hraw
          rw [hwidth] at hvalue
          exact hvalue.bind _ ((ih hwidths hraws).map _)

theorem reads_constant {raw : RawConstant} {index : UInt16} {constant : Constant}
    (hconstant : raw.constant? specification index.toNat = some constant)
    (hfits : ∀ field ∈ raw.fields, field.Fits) :
    Reads (Decoder.constant specification index) raw.written constant := by
  obtain ⟨layout, hlayout, hwidths, rfl⟩ := RawConstant.constant?_eq_some hconstant
  have hfields := reads_constantFields hwidths hfits
  have htag := reads_u1 raw.tag
  rw [bigEndian_one] at htag
  refine htag.bind _ ?_
  rw [hlayout, UInt16.ofNat_toNat]
  exact hfields.map (Constant.mk raw.tag index layout.kind)

/-- Where a tag has no layout, the decoder stops behind it. -/
theorem leads_constant_throw {tag : UInt8} (hlayout : specification.layout? tag = none)
    (index : UInt16) :
    Leads (Decoder.constant specification index) [tag]
      (throw (.unknownConstantTag tag index)) := by
  have htag := reads_u1 tag
  rw [bigEndian_one] at htag
  intro rest position met
  obtain ⟨more, hmore⟩ := htag rest position met
  exact ⟨more, by simp only [Decoder.constant, Bind.bind, EStateM.bind, hmore, hlayout]⟩

/-- As long as slots are declared, raw constants lead from one constant to the next. -/
theorem leads_constantsOnto {count index : UInt16} {stop : Nat} (rounds : Nat)
    (pool : ConstantPool) {raws : List RawConstant} {constants : List Constant}
    (hfits : ∀ raw ∈ raws, ∀ field ∈ raw.fields, field.Fits)
    (hconstants : RawConstant.constantsFrom? specification index.toNat raws =
      some (constants, stop))
    (hstop : stop < count.toNat) (hrounds : count.toNat ≤ index.toNat + rounds) :
    ∃ left, count.toNat ≤ stop + left ∧
      Leads (constantsOnto specification count rounds index pool)
        (raws.flatMap RawConstant.written)
        (constantsOnto specification count left (UInt16.ofNat stop)
          (constants.foldl ConstantPool.push pool)) := by
  induction raws generalizing index rounds pool constants with
  | nil =>
      cases hconstants
      rw [UInt16.ofNat_toNat]
      exact ⟨rounds, hrounds, .refl _⟩
  | cons raw raws ih =>
      obtain ⟨hraw, hraws⟩ := List.forall_mem_cons.mp hfits
      obtain ⟨constant, others, hconstant, hothers, rfl⟩ :=
        RawConstant.constantsFrom?_cons_eq_some.mp hconstants
      have hbefore := RawConstant.le_of_constantsFrom? hothers
      have hpos := constant.slots_pos
      have hcount := count.toNat_lt
      have hless : index.toNat < count.toNat := by omega
      have hbelow : index < count := UInt16.lt_iff_toNat_lt.mpr hless
      -- The next index is not cut down, since there are slots declared behind it.
      have hnext : (constant.nextIndex index).toNat = index.toNat + constant.kind.slots := by
        rw [Constant.toNat_nextIndex]
        omega
      obtain ⟨rounds, rfl⟩ := Nat.exists_eq_add_one_of_ne_zero (show rounds ≠ 0 by omega)
      rw [← hnext] at hothers
      obtain ⟨left, hleft, hleads⟩ :=
        ih rounds (pool.push constant) hraws hothers (by omega)
      refine ⟨left, hleft, ?_⟩
      rw [constantsOnto, if_pos hbelow]
      exact ((reads_constant hconstant hraw).leads _).trans hleads

theorem reads_constantsOnto_nil {count index : UInt16} (hstop : ¬ index < count) (rounds : Nat)
    (pool : ConstantPool) :
    Reads (constantsOnto specification count rounds index pool) [] pool := by
  cases rounds with
  | zero => exact reads_pure pool
  | succ rounds =>
      rw [constantsOnto, if_neg hstop]
      exact reads_pure pool

/-- The last constant is taken where there is a slot left for it, and it fills what is declared. -/
theorem reads_constantsOnto_last {count index : UInt16} {rounds : Nat} {pool : ConstantPool}
    {raw : RawConstant} {constant : Constant} (hfits : ∀ field ∈ raw.fields, field.Fits)
    (hconstant : raw.constant? specification index.toNat = some constant)
    (hbelow : index < count) (hfilled : count.toNat ≤ index.toNat + constant.kind.slots)
    (hrounds : count.toNat ≤ index.toNat + rounds) :
    Reads (constantsOnto specification count rounds index pool) raw.written
      (pool.push constant) := by
  have hless := UInt16.lt_iff_toNat_lt.mp hbelow
  have hcount := count.toNat_lt
  obtain ⟨rounds, rfl⟩ := Nat.exists_eq_add_one_of_ne_zero (show rounds ≠ 0 by omega)
  have hnext : ¬ constant.nextIndex index < count := by
    rw [UInt16.lt_iff_toNat_lt, Constant.toNat_nextIndex]
    omega
  rw [constantsOnto, if_pos hbelow, ← List.append_nil raw.written]
  exact (reads_constant hconstant hfits).bind _ (reads_constantsOnto_nil hnext rounds _)

theorem holds_foldl_push {pool : ConstantPool} {before : List Constant}
    (hholds : pool.Holds before) (constants : List Constant) :
    (constants.foldl ConstantPool.push pool).Holds (before ++ constants) := by
  induction constants generalizing pool before with
  | nil => rwa [List.append_nil]
  | cons constant constants ih =>
      have hpushed := ih (hholds.push constant)
      rwa [List.append_assoc, List.singleton_append] at hpushed

theorem toNat_ofNat_of_lt {number : Nat} {count : UInt16} (hless : number < count.toNat) :
    (UInt16.ofNat number).toNat = number := by
  have hcount := count.toNat_lt
  rw [UInt16.toNat_ofNat', Nat.mod_eq_of_lt (by omega)]

/-- Raw constants that leave a declared slot lead from the count to the decoder of the next one. -/
theorem leads_countedConstants {count : UInt16} {raws : List RawConstant}
    {constants : List Constant} {stop : Nat}
    (hlaid : ∀ raw ∈ raws, raw.LaidOut specification)
    (hconstants : RawConstant.constantsFrom? specification 1 raws = some (constants, stop))
    (hstop : stop < count.toNat) :
    ∃ left, count.toNat ≤ stop + left ∧
      Leads (countedConstants specification) (writtenPool count raws)
        (constantsOnto specification count left (UInt16.ofNat stop)
          (constants.foldl ConstantPool.push .empty)) := by
  have hfits : ∀ raw ∈ raws, ∀ field ∈ raw.fields, field.Fits := by
    intro raw hraw
    exact (hlaid raw hraw).2
  have hrounds : count.toNat ≤ (1 : UInt16).toNat + count.toNat := by omega
  obtain ⟨left, hleft, hleads⟩ :=
    leads_constantsOnto count.toNat .empty hfits hconstants hstop hrounds
  exact ⟨left, hleft, ((reads_u2 count).leads _).trans hleads⟩

/-- Raw constants that reach the declared count are read, whatever follows them. -/
theorem reads_countedConstants {count : UInt16} {raws : List RawConstant}
    {constants : List Constant} {stop : Nat}
    (hlaid : ∀ raw ∈ raws, raw.LaidOut specification)
    (hconstants : RawConstant.constantsFrom? specification 1 raws = some (constants, stop))
    (hreach : RawConstant.Reach specification count raws) :
    Reads (countedConstants specification) (writtenPool count raws)
      (constants.foldl ConstantPool.push .empty) := by
  rcases raws.eq_nil_or_concat with rfl | ⟨front, last, rfl⟩
  · cases hconstants
    have hreached : count.toNat ≤ 1 := hreach.reached
    have hstop : ¬ (1 : UInt16) < count := by
      intro hless
      have hmore : 1 < count.toNat := UInt16.lt_iff_toNat_lt.mp hless
      omega
    exact (reads_u2 count).bind _ (reads_constantsOnto_nil hstop _ _)
  · rw [List.concat_eq_append] at hlaid hconstants hreach ⊢
    have hfront : ∀ raw ∈ front, raw.LaidOut specification := by
      intro raw hraw
      exact hlaid raw (List.mem_append_left _ hraw)
    have hlast : last.LaidOut specification := hlaid last (by simp)
    obtain ⟨found, hfound, -⟩ := RawConstant.exists_constantsFrom? hfront 1
    obtain ⟨constant, hconstant⟩ :=
      RawConstant.exists_constant? hlast (1 + RawConstant.slotsOf specification front)
    have hsingle : RawConstant.constantsFrom? specification
        (1 + RawConstant.slotsOf specification front) [last] = some ([constant], _) :=
      RawConstant.constantsFrom?_cons_eq_some.mpr ⟨constant, [], hconstant, rfl, rfl⟩
    have hboth := RawConstant.constantsFrom?_append hfound hsingle
    obtain ⟨rfl, -⟩ := Prod.mk.inj (Option.some.inj (hconstants.symm.trans hboth))
    have hroom := hreach.needed front last rfl
    have hreached := hreach.reached
    rw [RawConstant.slotsOf_append, RawConstant.slotsOf, RawConstant.slotsOf, Nat.add_zero,
      ← RawConstant.slots_eq hconstant] at hreached
    obtain ⟨left, hleft, hleads⟩ := leads_countedConstants hfront hfound hroom
    have hindex := toNat_ofNat_of_lt hroom
    have hbelow : UInt16.ofNat (1 + RawConstant.slotsOf specification front) < count :=
      UInt16.lt_iff_toNat_lt.mpr (by omega)
    rw [← hindex] at hconstant
    have hread := hleads.reads
      (reads_constantsOnto_last hlast.2 hconstant hbelow (by omega) (by omega))
    have hwritten : writtenPool count (front ++ [last]) =
        writtenPool count front ++ last.written := by simp [writtenPool]
    rw [hwritten, List.foldl_append]
    exact hread

/-- Behind raw constants that leave a declared slot, a tag without layout is refused at the index of
that slot. -/
theorem leads_countedConstants_throw {count : UInt16} {raws : List RawConstant} {tag : UInt8}
    (hlaid : ∀ raw ∈ raws, raw.LaidOut specification)
    (hlayout : specification.layout? tag = none)
    (hroom : 1 + RawConstant.slotsOf specification raws < count.toNat) :
    Leads (countedConstants specification) (writtenPool count raws ++ [tag])
      (throw (.unknownConstantTag tag
        (UInt16.ofNat (1 + RawConstant.slotsOf specification raws)))) := by
  obtain ⟨constants, hconstants, -⟩ := RawConstant.exists_constantsFrom? hlaid 1
  obtain ⟨left, hleft, hleads⟩ := leads_countedConstants hlaid hconstants hroom
  refine hleads.trans ?_
  have hindex := toNat_ofNat_of_lt hroom
  obtain ⟨left, rfl⟩ := Nat.exists_eq_add_one_of_ne_zero (show left ≠ 0 by omega)
  rw [constantsOnto, if_pos (UInt16.lt_iff_toNat_lt.mpr (by omega))]
  exact (leads_constant_throw hlayout _).bind _

end Decoder

/-- A constant pool that is laid out by a specification reads back, whatever follows it, as the
constants that the raw ones mean: in order, each with the kind and the roles of its layout and with
the values of its fields, at the index behind the slots of those before it.  If a tag has no layout
and there is a declared slot for it, it is refused, with that index, and nothing behind it is
taken. -/
theorem constantPool_inverts_layout (specification : Specification) (count : UInt16) :
    (∀ raws : List RawConstant, (∀ raw ∈ raws, raw.LaidOut specification) →
      RawConstant.Reach specification count raws →
      ∃ constants pool,
        Decoder.Reads (Decoder.constantPool specification) (writtenPool count raws) pool ∧
        pool.entries = constants ∧ pool.Holds constants ∧
        RawConstant.constantsFrom? specification 1 raws =
          some (constants, 1 + RawConstant.slotsOf specification raws) ∧
        List.Forall₂ (RawConstant.Means specification) raws constants ∧
        Constant.Numbered 1 constants) ∧
    ∀ (front : List RawConstant) (unknown : RawConstant) (others : List RawConstant),
      (∀ raw ∈ front, raw.LaidOut specification) → specification.layout? unknown.tag = none →
      1 + RawConstant.slotsOf specification front < count.toNat →
      ∀ rest position met, ∃ more,
        Decoder.constantPool specification
            ⟨writtenPool count (front ++ unknown :: others) ++ rest, position, met⟩ =
          .error
            (.unknownConstantTag unknown.tag
              (UInt16.ofNat (1 + RawConstant.slotsOf specification front)))
            ⟨unknown.fields.flatMap RawField.written ++
                (others.flatMap RawConstant.written ++ rest),
              position + (writtenPool count front).length + 1, more ++ met⟩ := by
  constructor
  · intro raws hlaid hreach
    obtain ⟨constants, hconstants, hmeans⟩ := RawConstant.exists_constantsFrom? hlaid 1
    have hholds := Decoder.holds_foldl_push .empty constants
    have hreads := (Decoder.reads_countedConstants hlaid hconstants hreach).located
    obtain ⟨_, hdecoded⟩ := hreads [] 0 []
    obtain ⟨_, hindexed⟩ := Decoder.exists_indexed hdecoded
    have hnumbered := hindexed.numbered
    rw [hholds.entries_eq] at hnumbered
    exact ⟨constants, _, hreads, hholds.entries_eq, hholds, hconstants, hmeans, hnumbered⟩
  · intro front unknown others hlaid hlayout hroom rest position met
    obtain ⟨more, hmore⟩ := Decoder.leads_countedConstants_throw hlaid hlayout hroom
      (unknown.fields.flatMap RawField.written ++ (others.flatMap RawConstant.written ++ rest))
      position met
    have hwritten : writtenPool count (front ++ unknown :: others) ++ rest =
        writtenPool count front ++ [unknown.tag] ++
          (unknown.fields.flatMap RawField.written ++
            (others.flatMap RawConstant.written ++ rest)) := by
      simp [writtenPool, RawConstant.written]
    refine ⟨more, ?_⟩
    rw [hwritten, Decoder.constantPool, Decoder.located_of_error hmore, List.length_append]
    rfl

/-- A raw integer and a raw long number. -/
def integerAndLong : List RawConstant := [⟨3, [.int 0xFFFFFFFF]⟩, ⟨5, [.long 42]⟩]

theorem integerAndLong_laidOut : ∀ raw ∈ integerAndLong, raw.LaidOut narrowAndWide := by
  simp only [integerAndLong, List.forall_mem_cons]
  refine ⟨⟨⟨_, rfl, rfl⟩, ?_⟩, ⟨⟨_, rfl, rfl⟩, ?_⟩, ?_⟩ <;> simp [RawField.Fits]

/-- The long number overhangs three declared slots; behind both, an unknown tag is refused at
index 4. -/
theorem constantPool_inverts_layout_overhanging :
    (∃ pool,
      Decoder.Reads (Decoder.constantPool narrowAndWide) (writtenPool 3 integerAndLong) pool ∧
      pool.entries = [⟨3, 1, .integer, [⟨"int_value", .int (-1)⟩]⟩,
        ⟨5, 2, .long, [⟨"long_value", .long 42⟩]⟩]) ∧
    ∀ rest position met, ∃ more,
      Decoder.constantPool narrowAndWide
          ⟨writtenPool 65535 (integerAndLong ++ [⟨9, [.byte 1]⟩]) ++ rest, position, met⟩ =
        .error (.unknownConstantTag 9 4) ⟨[1] ++ ([] ++ rest), position + 16 + 1, more ++ met⟩ := by
  constructor
  · have hreach : RawConstant.Reach narrowAndWide 3 integerAndLong := by
      refine ⟨by decide, fun front last hsplit => ?_⟩
      obtain ⟨rfl, -⟩ : front = [⟨3, [.int 0xFFFFFFFF]⟩] ∧ _ := List.append_inj' hsplit.symm rfl
      decide
    obtain ⟨constants, pool, hreads, hentries, -, hconstants, -⟩ :=
      (constantPool_inverts_layout narrowAndWide 3).1 integerAndLong integerAndLong_laidOut hreach
    refine ⟨pool, hreads, ?_⟩
    rw [hentries]
    exact (Prod.mk.inj (Option.some.inj hconstants)).1.symm
  · exact (constantPool_inverts_layout narrowAndWide 65535).2 integerAndLong ⟨9, [.byte 1]⟩ []
      integerAndLong_laidOut rfl (by decide)

end ClassCensus
