import ClassCensus.Constant.Decoder
import ClassCensus.Proofs.Octets.Ensures

/-!
# Indices of constants

While a pool is decoded, the index of the next constant is counted beside the row of slots, and an
index never passes 65535.  The two stay in step: a constant is only taken while its index is less
than the declared count, and up to there the index is the number of slots.  So every constant stands
in the slot that its index names, and which indices have an entry is settled by the declared count
and the wide entries.
-/

namespace ClassCensus

namespace Constant

/-! ## Numbered constants -/

/-- The slots that a constant fills: its own, and an unusable one if it is wide. -/
def row (constant : Constant) : List (Option Constant) :=
  some constant :: if constant.kind.isWide then [none] else []

/-- How many slots constants fill. -/
def slotsOf : List Constant → Nat
  | [] => 0
  | constant :: constants => constant.kind.slots + slotsOf constants

/-- Whether the index of every constant is `start` and the slots of all constants before it. -/
def Numbered (start : Nat) (constants : List Constant) : Prop :=
  ∀ before constant behind, constants = before ++ constant :: behind →
    constant.index.toNat = start + slotsOf before

@[simp]
theorem slotsOf_nil : slotsOf [] = 0 := rfl

@[simp]
theorem slotsOf_cons (constant : Constant) (constants : List Constant) :
    slotsOf (constant :: constants) = constant.kind.slots + slotsOf constants := rfl

@[simp]
theorem slotsOf_append (first second : List Constant) :
    slotsOf (first ++ second) = slotsOf first + slotsOf second := by
  induction first with
  | nil => simp
  | cons constant first ih => simp [ih, Nat.add_assoc]

theorem length_row (constant : Constant) : constant.row.length = constant.kind.slots := by
  cases hwide : constant.kind.isWide <;> simp [row, ConstantKind.slots, hwide]

/-- Only the first slot of a constant holds it. -/
theorem getElem?_row {constant other : Constant} {offset : Nat} :
    constant.row[offset]? = some (some other) ↔ offset = 0 ∧ constant = other := by
  rcases offset with _ | _ | offset <;> cases hwide : constant.kind.isWide <;> simp [row, hwide]

theorem length_rows (constants : List Constant) :
    (constants.flatMap row).length = slotsOf constants := by
  induction constants with
  | nil => rfl
  | cons constant constants ih => simp [length_row, ih]

theorem filterMap_rows (constants : List Constant) :
    (constants.flatMap row).filterMap id = constants := by
  induction constants with
  | nil => rfl
  | cons constant constants ih =>
      have hrow : constant.row.filterMap id = [constant] := by
        cases hwide : constant.kind.isWide <;> simp [row, hwide]
      rw [List.flatMap_cons, List.filterMap_append, hrow, ih, List.singleton_append]

/-- Wide constants fill one slot more than they are constants. -/
theorem slotsOf_eq (constants : List Constant) :
    slotsOf constants =
      constants.length + (constants.filter fun constant => constant.kind.isWide).length := by
  induction constants with
  | nil => rfl
  | cons constant constants ih =>
      rw [slotsOf_cons, ih, List.length_cons, List.filter_cons, ConstantKind.slots]
      split
      · rw [List.length_cons]
        omega
      · omega

theorem toNat_nextIndex (constant : Constant) (index : UInt16) :
    (constant.nextIndex index).toNat = min (index.toNat + constant.kind.slots) 65535 := by
  rw [nextIndex, UInt16.toNat_ofNat', Nat.mod_eq_of_lt (by omega)]

theorem slots_pos (constant : Constant) : 0 < constant.kind.slots := by
  rw [ConstantKind.slots]
  split <;> omega

namespace Numbered

variable {start : Nat} {constant : Constant} {constants : List Constant}

theorem nil : Numbered start [] := by
  intro before constant behind hsplit
  simp at hsplit

theorem concat (hnumbered : Numbered start constants)
    (hindex : constant.index.toNat = start + slotsOf constants) :
    Numbered start (constants ++ [constant]) := by
  intro before found behind hsplit
  rcases List.eq_nil_or_concat behind with rfl | ⟨behind, last, rfl⟩
  · obtain ⟨rfl, hlast⟩ := List.append_inj' hsplit rfl
    cases hlast
    exact hindex
  · rw [List.concat_eq_append, ← List.cons_append, ← List.append_assoc] at hsplit
    obtain ⟨hsame, -⟩ := List.append_inj' hsplit rfl
    exact hnumbered before found behind hsame

theorem head (hnumbered : Numbered start (constant :: constants)) :
    constant.index.toNat = start := by
  simpa using hnumbered [] constant constants rfl

theorem tail (hnumbered : Numbered start (constant :: constants)) :
    Numbered (start + constant.kind.slots) constants := by
  intro before found behind hsplit
  have hindex := hnumbered (constant :: before) found behind (by rw [hsplit]; rfl)
  rw [slotsOf_cons] at hindex
  omega

/-- A constant lies between the start and the end of the slots that are filled. -/
theorem bounds (hnumbered : Numbered start constants) (hmem : constant ∈ constants) :
    start ≤ constant.index.toNat ∧
      constant.index.toNat + constant.kind.slots ≤ start + slotsOf constants := by
  obtain ⟨before, behind, rfl⟩ := List.append_of_mem hmem
  have hindex := hnumbered before constant behind rfl
  rw [slotsOf_append, slotsOf_cons]
  omega

/-- The slots of a constant end before the next constant. -/
theorem pairwise (hnumbered : Numbered start constants) :
    constants.Pairwise fun first second =>
      first.index.toNat + first.kind.slots ≤ second.index.toNat := by
  induction constants generalizing start with
  | nil => exact .nil
  | cons constant constants ih =>
      refine List.pairwise_cons.mpr ⟨fun other hother => ?_, ih hnumbered.tail⟩
      rw [hnumbered.head]
      exact (hnumbered.tail.bounds hother).1

/-- A constant with a greater index lies behind all slots of another. -/
theorem slots_le (hnumbered : Numbered start constants) {first second : Constant}
    (hfirst : first ∈ constants) (hsecond : second ∈ constants)
    (hless : first.index.toNat < second.index.toNat) :
    first.index.toNat + first.kind.slots ≤ second.index.toNat := by
  obtain ⟨before, behind, rfl⟩ := List.append_of_mem hfirst
  obtain ⟨-, hpairwise, hbefore⟩ := List.pairwise_append.mp hnumbered.pairwise
  rcases List.mem_append.mp hsecond with hsecond | hsecond
  · have hends := hbefore second hsecond first List.mem_cons_self
    omega
  · rcases List.mem_cons.mp hsecond with rfl | hsecond
    · omega
    · exact (List.pairwise_cons.mp hpairwise).1 second hsecond

/-- A slot that is filled belongs to a constant, or stands behind a wide one. -/
theorem exists_of_lt (hnumbered : Numbered start constants) {slot : Nat} (hstart : start ≤ slot)
    (hstop : slot < start + slotsOf constants) :
    ∃ constant ∈ constants, constant.index.toNat = slot ∨
      (constant.kind.isWide ∧ constant.index.toNat + 1 = slot) := by
  induction constants generalizing start with
  | nil => simp at hstop; omega
  | cons constant constants ih =>
      by_cases hnext : start + constant.kind.slots ≤ slot
      · rw [slotsOf_cons] at hstop
        obtain ⟨found, hmem, hfound⟩ := ih hnumbered.tail hnext (by omega)
        exact ⟨found, List.mem_cons_of_mem constant hmem, hfound⟩
      · have hhead := hnumbered.head
        refine ⟨constant, List.mem_cons_self, ?_⟩
        rw [ConstantKind.slots] at hnext
        split at hnext
        next hwide =>
          by_cases hown : slot = start
          · exact .inl (hhead.trans hown.symm)
          · exact .inr ⟨hwide, by omega⟩
        next => exact .inl (by omega)

/-- The slots hold every constant where its index says. -/
theorem getElem?_rows (hnumbered : Numbered start constants) {offset : Nat} :
    (constants.flatMap row)[offset]? = some (some constant) ↔
      constant ∈ constants ∧ constant.index.toNat = start + offset := by
  induction constants generalizing start offset with
  | nil => simp
  | cons first constants ih =>
      have hhead := hnumbered.head
      have hlength := first.length_row
      rw [List.flatMap_cons, List.mem_cons]
      by_cases hoffset : offset < first.kind.slots
      · have hbehind : constant ∈ constants → constant.index.toNat ≠ start + offset := by
          intro hmem
          have hbounds := hnumbered.tail.bounds hmem
          omega
        rw [List.getElem?_append_left (hlength ▸ hoffset), getElem?_row]
        constructor
        · rintro ⟨rfl, rfl⟩
          exact ⟨.inl rfl, hhead⟩
        · rintro ⟨rfl | hmem, hindex⟩
          · exact ⟨by omega, rfl⟩
          · exact absurd hindex (hbehind hmem)
      · have hfirst : constant.index.toNat = start + offset → constant ≠ first := by
          rintro hindex rfl
          have hpos := constant.slots_pos
          omega
        rw [List.getElem?_append_right (by omega), hlength, ih hnumbered.tail]
        constructor
        · rintro ⟨hmem, hindex⟩
          exact ⟨.inr hmem, by omega⟩
        · rintro ⟨hmem, hindex⟩
          exact ⟨hmem.resolve_left (hfirst (by omega)), by omega⟩

end Numbered

end Constant

/-! ## Pools of numbered constants -/

namespace ConstantPool

/-- Whether a pool holds constants in order, each in the slots that it fills. -/
def Holds (pool : ConstantPool) (constants : List Constant) : Prop :=
  pool.slots.toList = none :: constants.flatMap Constant.row

namespace Holds

variable {pool : ConstantPool} {constants : List Constant}

theorem empty : ConstantPool.empty.Holds [] := rfl

theorem push (hholds : pool.Holds constants) (constant : Constant) :
    (pool.push constant).Holds (constants ++ [constant]) := by
  rw [Holds] at hholds ⊢
  cases hwide : constant.kind.isWide <;>
    simp [ConstantPool.push, hwide, hholds, Constant.row]

theorem size_slots (hholds : pool.Holds constants) :
    pool.slots.size = 1 + Constant.slotsOf constants := by
  rw [← Array.length_toList, hholds, List.length_cons, Constant.length_rows, Nat.add_comm]

theorem entries_eq (hholds : pool.Holds constants) : pool.entries = constants := by
  rw [entries, hholds, List.filterMap_cons, id, Constant.filterMap_rows]

/-- An index leads to the constant that has it. -/
theorem entry_eq_ok_iff (hholds : pool.Holds constants) (hnumbered : Constant.Numbered 1 constants)
    {index : UInt16} {constant : Constant} :
    pool.entry index = .ok constant ↔ constant ∈ constants ∧ constant.index = index := by
  have hslot : pool.entry index = .ok constant ↔
      pool.slots[index.toNat]? = some (some constant) := by
    rw [entry]
    split
    next found hfound => simp [hfound]
    next hnone => simpa using hnone constant
  rw [hslot, ← Array.getElem?_toList, hholds, ← UInt16.toNat_inj]
  cases hindex : index.toNat with
  | zero =>
      have hpositive : constant ∈ constants → constant.index.toNat ≠ 0 := by
        intro hmem hzero
        have hbounds := hnumbered.bounds hmem
        omega
      simpa using hpositive
  | succ offset =>
      rw [List.getElem?_cons_succ, hnumbered.getElem?_rows, Nat.add_comm]

/-- The size of the pool is the number of indices that lead to a constant. -/
theorem size_eq (hholds : pool.Holds constants) (hnumbered : Constant.Numbered 1 constants) :
    pool.size =
      ((List.range 65536).filter fun place => (pool.entry (UInt16.ofNat place)).isOk).length := by
  have hdistinct : (constants.map fun constant => constant.index.toNat).Nodup := by
    refine List.pairwise_map.mpr (hnumbered.pairwise.imp fun {first second} hends hsame => ?_)
    have hpos := first.slots_pos
    omega
  have hfound : ∀ {index : UInt16}, (pool.entry index).isOk ↔
      ∃ constant ∈ constants, constant.index = index := by
    intro index
    simp only [← hholds.entry_eq_ok_iff hnumbered]
    cases pool.entry index <;> simp [Except.isOk, Except.toBool]
  have hsame : (constants.map fun constant => constant.index.toNat).Perm
      ((List.range 65536).filter fun place => (pool.entry (UInt16.ofNat place)).isOk) := by
    refine (List.perm_ext_iff_of_nodup hdistinct (List.nodup_range.filter _)).mpr fun place => ?_
    rw [List.mem_map, List.mem_filter, hfound, List.mem_range]
    constructor
    · rintro ⟨constant, hmem, rfl⟩
      exact ⟨constant.index.toNat_lt, constant, hmem, UInt16.ofNat_toNat.symm⟩
    · rintro ⟨hless, constant, hmem, hindex⟩
      exact ⟨constant, hmem, by rw [hindex, UInt16.toNat_ofNat', Nat.mod_eq_of_lt hless]⟩
  rw [size, hholds.entries_eq, ← hsame.length_eq, List.length_map]

end Holds

/-- Whether a `Long` or `Double` entry stands at an index. -/
def HasWide (pool : ConstantPool) (index : UInt16) : Prop :=
  ∃ constant, pool.entry index = .ok constant ∧ constant.kind.isWide

/-- The laws of indices in a pool that was declared with `count`.  An entry stands at each index
from 1 up to the count that does not follow a wide entry, and the entries are listed by increasing
index.  The count of the pool is the declared one, unless a wide entry leaves a slot behind the
declared ones, and is at most 65535. -/
structure Indexed (pool : ConstantPool) (count : UInt16) : Prop where
  exists_entry_iff : ∀ index, (∃ constant, pool.entry index = .ok constant) ↔
    1 ≤ index ∧ index < count ∧ ¬ pool.HasWide (index - 1)
  index_of_entry : ∀ index constant, pool.entry index = .ok constant → constant.index = index
  mem_entries_iff : ∀ constant, constant ∈ pool.entries ↔
    ∃ index, pool.entry index = .ok constant
  increasing : (pool.entries.map Constant.index).Pairwise (· < ·)
  size_eq : pool.size =
    ((List.range 65536).filter fun place => (pool.entry (UInt16.ofNat place)).isOk).length
  size_slots : pool.size + (pool.entries.filter fun constant => constant.kind.isWide).length + 1 =
    pool.slots.size
  count_eq : (pool.HasWide (count - 1) → pool.count.toNat = min (max count.toNat 1 + 1) 65535) ∧
    (¬ pool.HasWide (count - 1) → pool.count.toNat = max count.toNat 1)
  numbered : Constant.Numbered 1 pool.entries

theorem eq_sub_one_iff {index next : UInt16} (hpos : 1 ≤ next.toNat) :
    index = next - 1 ↔ index.toNat + 1 = next.toNat := by
  have hone : (1 : UInt16) ≤ next := UInt16.le_iff_toNat_le.mpr hpos
  rw [← UInt16.toNat_inj, UInt16.toNat_sub_of_le _ _ hone]
  change index.toNat = next.toNat - 1 ↔ _
  omega

/-- The state of decoding a pool with a declared count: the pool holds numbered constants below the
count, and the index of the next one is the number of slots unless that is greater than 65535. -/
structure InStep (pool : ConstantPool) (count index : UInt16) (constants : List Constant) :
    Prop where
  holds : pool.Holds constants
  numbered : Constant.Numbered 1 constants
  below : ∀ constant ∈ constants, constant.index < count
  next : index.toNat = min (1 + Constant.slotsOf constants) 65535

namespace InStep

variable {count index : UInt16} {pool : ConstantPool} {constants : List Constant}

theorem start (count : UInt16) : InStep .empty count 1 [] where
  holds := .empty
  numbered := .nil
  below := by simp
  next := rfl

theorem entry_eq_ok_iff (hstep : InStep pool count index constants) {place : UInt16}
    {constant : Constant} :
    pool.entry place = .ok constant ↔ constant ∈ constants ∧ constant.index = place :=
  hstep.holds.entry_eq_ok_iff hstep.numbered

/-- A constant that gets an index below the count gets exactly the number of slots. -/
theorem index_eq (hstep : InStep pool count index constants) (hbelow : index < count) :
    index.toNat = 1 + Constant.slotsOf constants := by
  have hnext := hstep.next
  have hless := UInt16.lt_iff_toNat_lt.mp hbelow
  have hcount := count.toNat_lt
  omega

theorem push (hstep : InStep pool count index constants) (hbelow : index < count)
    {constant : Constant} (hindex : constant.index = index) :
    InStep (pool.push constant) count (constant.nextIndex index) (constants ++ [constant]) where
  holds := hstep.holds.push constant
  numbered := hstep.numbered.concat (hindex ▸ hstep.index_eq hbelow)
  below := by
    intro found hfound
    rcases List.mem_append.mp hfound with hfound | hfound
    · exact hstep.below found hfound
    · rw [List.mem_singleton.mp hfound, hindex]
      exact hbelow
  next := by
    have hsum := hstep.index_eq hbelow
    rw [Constant.toNat_nextIndex, Constant.slotsOf_append, hsum]
    simp [Nat.add_assoc]

theorem le_slots (hstep : InStep pool count index constants) (hstop : count ≤ index) :
    count.toNat ≤ 1 + Constant.slotsOf constants := by
  have hnext := hstep.next
  have hstop := UInt16.le_iff_toNat_le.mp hstop
  omega

/-- Behind the last constant there is no declared slot left, and one slot more than declared if the
last of these holds a wide constant. -/
theorem size_slots_cases (hstep : InStep pool count index constants) (hstop : count ≤ index) :
    (pool.HasWide (count - 1) → pool.slots.size = max count.toNat 1 + 1) ∧
      (¬ pool.HasWide (count - 1) → pool.slots.size = max count.toNat 1) := by
  have hbelow : ∀ constant ∈ constants, constant.index.toNat < count.toNat := fun constant hmem =>
    UInt16.lt_iff_toNat_lt.mp (hstep.below constant hmem)
  -- A slot behind the declared ones is the second one of a wide constant in the last of them.
  have hbeyond : ∀ slot, max count.toNat 1 ≤ slot → slot < 1 + Constant.slotsOf constants →
      slot = count.toNat ∧ pool.HasWide (count - 1) := by
    intro slot hcount hslot
    obtain ⟨constant, hmem, hown | ⟨hwide, hown⟩⟩ :=
      hstep.numbered.exists_of_lt (by omega) hslot
    · have hless := hbelow constant hmem
      omega
    · have hless := hbelow constant hmem
      have hlast : constant.index = count - 1 := (eq_sub_one_iff (by omega)).mpr (by omega)
      exact ⟨by omega, constant, hstep.entry_eq_ok_iff.mpr ⟨hmem, hlast⟩, hwide⟩
  have hreached := hstep.le_slots hstop
  rw [hstep.holds.size_slots]
  constructor
  · rintro ⟨constant, hfound, hwide⟩
    obtain ⟨hmem, hlast⟩ := hstep.entry_eq_ok_iff.mp hfound
    have hless := hbelow constant hmem
    have hindex := (eq_sub_one_iff (by omega)).mp hlast
    have hbounds := hstep.numbered.bounds hmem
    rw [ConstantKind.slots, if_pos hwide] at hbounds
    have hsize : ¬ count.toNat + 1 < 1 + Constant.slotsOf constants := fun hmore => by
      have hslot := (hbeyond (count.toNat + 1) (by omega) hmore).1
      omega
    omega
  · intro hnone
    have hsize : ¬ max count.toNat 1 < 1 + Constant.slotsOf constants := fun hmore =>
      hnone (hbeyond (max count.toNat 1) (by omega) hmore).2
    omega

/-- The indices with an entry are settled by the count and the wide entries. -/
theorem exists_entry_iff (hstep : InStep pool count index constants) (hstop : count ≤ index)
    {place : UInt16} : (∃ constant, pool.entry place = .ok constant) ↔
      1 ≤ place ∧ place < count ∧ ¬ pool.HasWide (place - 1) := by
  constructor
  · rintro ⟨constant, hfound⟩
    obtain ⟨hmem, rfl⟩ := hstep.entry_eq_ok_iff.mp hfound
    have hpos := (hstep.numbered.bounds hmem).1
    refine ⟨UInt16.le_iff_toNat_le.mpr hpos, hstep.below constant hmem, ?_⟩
    rintro ⟨wide, hwideFound, hwide⟩
    obtain ⟨hwideMem, hbefore⟩ := hstep.entry_eq_ok_iff.mp hwideFound
    have hindex := (eq_sub_one_iff hpos).mp hbefore
    have hbehind := hstep.numbered.slots_le hwideMem hmem (by omega)
    rw [ConstantKind.slots, if_pos hwide] at hbehind
    omega
  · rintro ⟨hpos, hless, hnone⟩
    have hpos := UInt16.le_iff_toNat_le.mp hpos
    have hless := UInt16.lt_iff_toNat_lt.mp hless
    have hreached := hstep.le_slots hstop
    obtain ⟨constant, hmem, hown | ⟨hwide, hown⟩⟩ :=
      hstep.numbered.exists_of_lt hpos (Nat.lt_of_lt_of_le hless hreached)
    · exact ⟨constant, hstep.entry_eq_ok_iff.mpr ⟨hmem, UInt16.toNat_inj.mp hown⟩⟩
    · have hbefore : constant.index = place - 1 := (eq_sub_one_iff (by omega)).mpr hown
      exact absurd ⟨constant, hstep.entry_eq_ok_iff.mpr ⟨hmem, hbefore⟩, hwide⟩ hnone

/-- A pool that is in step up to its count obeys the laws of indices. -/
theorem indexed (hstep : InStep pool count index constants) (hstop : count ≤ index) :
    pool.Indexed count := by
  have hentries := hstep.holds.entries_eq
  have hcount : pool.count.toNat = min pool.slots.size 65535 := by
    rw [ConstantPool.count, UInt16.toNat_ofNat', Nat.mod_eq_of_lt (by omega)]
  have hless := count.toNat_lt
  refine ⟨fun place => hstep.exists_entry_iff hstop,
    fun place constant hfound => (hstep.entry_eq_ok_iff.mp hfound).2, ?_, ?_,
    hstep.holds.size_eq hstep.numbered, ?_, ⟨?_, ?_⟩, ?_⟩
  · intro constant
    rw [hentries]
    constructor
    · exact fun hmem => ⟨constant.index, hstep.entry_eq_ok_iff.mpr ⟨hmem, rfl⟩⟩
    · rintro ⟨place, hfound⟩
      exact (hstep.entry_eq_ok_iff.mp hfound).1
  · rw [hentries, List.pairwise_map]
    refine hstep.numbered.pairwise.imp fun {first second} hends => ?_
    have hpos := first.slots_pos
    exact UInt16.lt_iff_toNat_lt.mpr (by omega)
  · rw [hstep.holds.size_slots, size, hentries, Constant.slotsOf_eq]
    omega
  · intro hwide
    rw [hcount, (hstep.size_slots_cases hstop).1 hwide]
  · intro hnone
    rw [hcount, (hstep.size_slots_cases hstop).2 hnone]
    omega
  · rw [hentries]
    exact hstep.numbered

end InStep

end ConstantPool

/-! ## Decoding numbers the constants -/

namespace Decoder

theorem silent_u8 : Silent u8 :=
  ((Silent.run .numberCutShort 8).bind fun _ => .pure _).bind fun _ => .pure _

theorem silent_text : Silent text :=
  Silent.u2.bind fun length => (Silent.run .runCutShort length.toNat).bind fun _ => .pure _

theorem silent_fieldValue (width : FieldWidth) : Silent (fieldValue width) := by
  cases width with
  | byte => exact Silent.u1.bind fun _ => .pure _
  | short => exact Silent.u2.bind fun _ => .pure _
  | int => exact Silent.u4.bind fun _ => .pure _
  | float => exact Silent.u4.bind fun _ => .pure _
  | long => exact silent_u8.bind fun _ => .pure _
  | double => exact silent_u8.bind fun _ => .pure _
  | utf8 => exact silent_text.bind fun _ => .pure _

theorem silent_constantFields (fields : List LayoutField) : Silent (constantFields fields) := by
  induction fields with
  | nil => exact .pure _
  | cons field fields ih =>
      exact (silent_fieldValue field.width).bind fun _ => ih.bind fun _ => .pure _

variable {known : String → Prop} {specification : Specification}

theorem ensures_constant (index : UInt16) :
    Ensures known (constant specification index) fun _ _ found => found.index = index := by
  refine Silent.u1.then_ensures fun tag => ?_
  split
  · exact ensures_throw _
  · exact (silent_constantFields _).then_ensures fun fields => ensures_pure rfl

/-- Every round takes a constant with the next index, until there is no declared index left. -/
theorem ensures_constantsOnto {count index : UInt16} {pool : ConstantPool}
    {constants : List Constant} {rounds : Nat} (hstep : pool.InStep count index constants)
    (hrounds : count.toNat ≤ index.toNat + rounds) :
    Ensures known (constantsOnto specification count rounds index pool) fun _ _ pool =>
      pool.Indexed count := by
  induction rounds generalizing index pool constants with
  | zero => exact ensures_pure (hstep.indexed (UInt16.le_iff_toNat_le.mpr hrounds))
  | succ rounds ih =>
      unfold constantsOnto
      split
      next hbelow =>
        refine (ensures_constant index).bind fun _ _ found hindex => ?_
        refine ih (hstep.push hbelow hindex) ?_
        have hpos := found.slots_pos
        have hcount := count.toNat_lt
        rw [Constant.toNat_nextIndex]
        omega
      next hstop => exact ensures_pure (hstep.indexed (UInt16.not_lt.mp hstop))

/-- What decodes as a constant pool starts with a count, and the entries are numbered up to it. -/
theorem ensures_constantPool :
    Ensures known (constantPool specification) fun taken _ pool =>
      ∃ (count : UInt16) (others : List UInt8), taken = bigEndian 2 count.toNat ++ others ∧
        pool.Indexed count := by
  apply ensures_located
  refine ensures_u2.bind ?_
  rintro _ _ count ⟨rfl, rfl⟩
  refine (ensures_constantsOnto (.start count) (by omega)).mono fun others _ pool hindexed => ?_
  exact ⟨count, others, rfl, hindexed⟩

/-- A pool that was decoded obeys the laws of indices for some declared count. -/
theorem exists_indexed {before after : Cursor} {pool : ConstantPool}
    (hdecoded : constantPool specification before = .ok pool after) :
    ∃ count, pool.Indexed count := by
  have hensures : Ensures (fun _ => True) (constantPool specification) _ := ensures_constantPool
  obtain ⟨_, _, _, _, count, _, _, hindexed⟩ := hensures.ok hdecoded
  exact ⟨count, hindexed⟩

end Decoder

/-- The octets of a constant pool that decodes start with its declared count, and the entries obey
the laws of indices for that count. -/
theorem constantPool_indexed (specification : Specification) {before after : Cursor}
    {pool : ConstantPool} (hdecoded : Decoder.constantPool specification before = .ok pool after) :
    ∃ (count : UInt16) (others : List UInt8),
      before.rest = bigEndian 2 count.toNat ++ others ∧ pool.Indexed count := by
  have hensures : Decoder.Ensures (fun _ => True) (Decoder.constantPool specification) _ :=
    Decoder.ensures_constantPool
  obtain ⟨_, _, _, hpasses, count, others, rfl, hindexed⟩ := hensures.ok hdecoded
  exact ⟨count, others ++ after.rest, by rw [hpasses.rest, List.append_assoc], hindexed⟩

/-- A specification with constants of one slot and of two. -/
def narrowAndWide : Specification :=
  .new [] [⟨3, .integer, [⟨"int_value", .int⟩]⟩, ⟨5, .long, [⟨"long_value", .long⟩]⟩] []

/-- A pool of three declared slots, with an integer and a long number. -/
def overhangingOctets : List UInt8 := [0, 3, 3, 0, 0, 0, 7, 5, 0, 0, 0, 0, 0, 0, 0, 42]

/-- The pool, in which the second slot of the long number overhangs. -/
def overhangingPool : ConstantPool :=
  ⟨#[none, some ⟨3, 1, .integer, [⟨"int_value", .int 7⟩]⟩,
    some ⟨5, 2, .long, [⟨"long_value", .long 42⟩]⟩, none]⟩

theorem constantPool_indexed_overhanging :
    Decoder.constantPool narrowAndWide (.start overhangingOctets) =
      .ok overhangingPool ⟨[], 16, []⟩ ∧
    ∃ (count : UInt16) (others : List UInt8),
      overhangingOctets = bigEndian 2 count.toNat ++ others ∧ overhangingPool.Indexed count :=
  ⟨rfl, @constantPool_indexed narrowAndWide (.start overhangingOctets) _ overhangingPool rfl⟩

example : overhangingPool.count = 4 ∧ overhangingPool.size = 2 := ⟨rfl, rfl⟩

end ClassCensus
