import ClassCensus.Proofs.Text.Utf8
import ClassCensus.Text.ModifiedUtf8

/-!
# Reading modified UTF-8 that was written

The octets of a text are read as that text, unit by unit and then character by character, and
nothing else is read as a text.  Modified UTF-8 differs from plain UTF-8 in the characters that are
not plain: the one with code zero and those outside the first plane.  Each of these is damaged when
it is read as plain UTF-8, so a text in modified UTF-8 is never mistaken for another one in plain
UTF-8 (`encode_cases`), and a text is read back whichever of the two forms it is in.
-/

namespace ClassCensus.ModifiedUtf8

/-! ## Code units -/

section Units

variable {before : List Nat} {first second third : UInt8} {rest : List UInt8}

theorem isTail_iff {octet : UInt8} :
    isTail octet = true ↔ 0x80 ≤ octet.toNat ∧ octet.toNat < 0xC0 := by
  simp [isTail, UInt8.le_iff_toNat_le, UInt8.lt_iff_toNat_lt]

theorem unitsOnto_one (hfirst : 0 < first.toNat ∧ first.toNat < 0x80) :
    unitsOnto before (first :: rest) = unitsOnto (first.toNat :: before) rest := by
  rw [unitsOnto.eq_def]
  exact if_pos (by simpa [UInt8.lt_iff_toNat_lt] using hfirst)

theorem unitsOnto_zero :
    unitsOnto before (0xC0 :: 0x80 :: rest) = unitsOnto (0 :: before) rest := by
  rw [unitsOnto.eq_def]
  rfl

theorem unitsOnto_two (hfirst : 0xC2 ≤ first.toNat ∧ first.toNat < 0xE0)
    (hsecond : 0x80 ≤ second.toNat ∧ second.toNat < 0xC0) :
    unitsOnto before (first :: second :: rest) =
      unitsOnto (((first.toNat - 0xC0) * 64 + (second.toNat - 0x80)) :: before) rest := by
  have hlead : ¬ (0x00 < first ∧ first < 0x80) := by
    simp [UInt8.lt_iff_toNat_lt]
    omega
  have hzero : ¬ (first = 0xC0 ∧ second = 0x80) := by
    rintro ⟨rfl, -⟩
    exact absurd hfirst.1 (by decide)
  have htwo : 0xC2 ≤ first ∧ first < 0xE0 := by
    simpa [UInt8.lt_iff_toNat_lt, UInt8.le_iff_toNat_le] using hfirst
  rw [unitsOnto.eq_def]
  simp only
  rw [if_neg hlead, if_neg (fun hnot => hnot (isTail_iff.mpr hsecond)), if_neg hzero, if_pos htwo]

theorem unitsOnto_three (hfirst : 0xE0 ≤ first.toNat ∧ first.toNat < 0xF0)
    (hsecond : 0x80 ≤ second.toNat ∧ second.toNat < 0xC0)
    (hthird : 0x80 ≤ third.toNat ∧ third.toNat < 0xC0)
    (hoverlong : first.toNat = 0xE0 → 0xA0 ≤ second.toNat) :
    unitsOnto before (first :: second :: third :: rest) =
      unitsOnto (((first.toNat - 0xE0) * 4096 + (second.toNat - 0x80) * 64 +
        (third.toNat - 0x80)) :: before) rest := by
  have hlead : ¬ (0x00 < first ∧ first < 0x80) := by
    simp [UInt8.lt_iff_toNat_lt]
    omega
  have hzero : ¬ (first = 0xC0 ∧ second = 0x80) := by
    rintro ⟨rfl, -⟩
    exact absurd hfirst.1 (by decide)
  have htwo : ¬ (0xC2 ≤ first ∧ first < 0xE0) := by
    simp [UInt8.lt_iff_toNat_lt, UInt8.le_iff_toNat_le]
    omega
  have hthree : 0xE0 ≤ first ∧ first < 0xF0 := by
    simpa [UInt8.lt_iff_toNat_lt, UInt8.le_iff_toNat_le] using hfirst
  rw [unitsOnto.eq_def]
  simp only
  rw [if_neg hlead, if_neg (fun hnot => hnot (isTail_iff.mpr hsecond)), if_neg hzero, if_neg htwo,
    if_pos hthree, if_pos ⟨isTail_iff.mpr hthird, by omega⟩]

/-- The octets of a code unit are read as that unit. -/
theorem unitsOnto_encodeUnit {unit : Nat} (hunit : unit < 0x10000) :
    unitsOnto before (encodeUnit unit ++ rest) = unitsOnto (unit :: before) rest := by
  have hoctet (octet : Nat) (hbound : octet < 256) : (UInt8.ofNat octet).toNat = octet :=
    Utf8.toNat_octet octet hbound
  unfold encodeUnit
  split
  · rename_i hzero
    rw [hzero]
    exact unitsOnto_zero
  split
  · have hfirst := hoctet unit (by omega)
    rw [List.cons_append, List.nil_append, unitsOnto_one (by omega), hfirst]
  split
  · have hfirst := hoctet (0xC0 + unit / 64) (by omega)
    have hsecond := hoctet (0x80 + unit % 64) (by omega)
    have hcode : (0xC0 + unit / 64 - 0xC0) * 64 + (0x80 + unit % 64 - 0x80) = unit := by omega
    rw [List.cons_append, List.cons_append, List.nil_append, unitsOnto_two (by omega) (by omega),
      hfirst, hsecond, hcode]
  · have hfirst := hoctet (0xE0 + unit / 4096) (by omega)
    have hsecond := hoctet (0x80 + unit / 64 % 64) (by omega)
    have hthird := hoctet (0x80 + unit % 64) (by omega)
    have hcode : (0xE0 + unit / 4096 - 0xE0) * 4096 + (0x80 + unit / 64 % 64 - 0x80) * 64 +
        (0x80 + unit % 64 - 0x80) = unit := by omega
    rw [List.cons_append, List.cons_append, List.cons_append, List.nil_append,
      unitsOnto_three (by omega) (by omega) (by omega) (by omega), hfirst, hsecond, hthird, hcode]

theorem unitsOnto_flatMap {codes : List Nat} (hcodes : ∀ unit ∈ codes, unit < 0x10000) :
    unitsOnto before (codes.flatMap encodeUnit) = some (before.reverse ++ codes) := by
  induction codes generalizing before with
  | nil => simp [unitsOnto]
  | cons unit codes ih =>
      obtain ⟨hunit, hcodes⟩ := List.forall_mem_cons.mp hcodes
      rw [List.flatMap_cons, unitsOnto_encodeUnit hunit, ih hcodes]
      simp

theorem encodeUnit_one (hfirst : 0 < first.toNat ∧ first.toNat < 0x80) :
    encodeUnit first.toNat = [first] := by
  rw [encodeUnit, if_neg (by omega), if_pos (by omega), UInt8.ofNat_toNat]

theorem encodeUnit_two (hfirst : 0xC2 ≤ first.toNat ∧ first.toNat < 0xE0)
    (hsecond : 0x80 ≤ second.toNat ∧ second.toNat < 0xC0) :
    encodeUnit ((first.toNat - 0xC0) * 64 + (second.toNat - 0x80)) = [first, second] := by
  generalize hunit : (first.toNat - 0xC0) * 64 + (second.toNat - 0x80) = unit
  have h₁ : 0xC0 + unit / 64 = first.toNat := by omega
  have h₂ : 0x80 + unit % 64 = second.toNat := by omega
  rw [encodeUnit, if_neg (by omega), if_neg (by omega), if_pos (by omega), h₁, h₂,
    UInt8.ofNat_toNat, UInt8.ofNat_toNat]

theorem encodeUnit_three (hfirst : 0xE0 ≤ first.toNat ∧ first.toNat < 0xF0)
    (hsecond : 0x80 ≤ second.toNat ∧ second.toNat < 0xC0)
    (hthird : 0x80 ≤ third.toNat ∧ third.toNat < 0xC0)
    (hoverlong : 0x800 ≤ (first.toNat - 0xE0) * 4096 + (second.toNat - 0x80) * 64 +
      (third.toNat - 0x80)) :
    encodeUnit ((first.toNat - 0xE0) * 4096 + (second.toNat - 0x80) * 64 +
      (third.toNat - 0x80)) = [first, second, third] := by
  generalize hunit : (first.toNat - 0xE0) * 4096 + (second.toNat - 0x80) * 64 +
    (third.toNat - 0x80) = unit at hoverlong
  have h₁ : 0xE0 + unit / 4096 = first.toNat := by omega
  have h₂ : 0x80 + unit / 64 % 64 = second.toNat := by omega
  have h₃ : 0x80 + unit % 64 = third.toNat := by omega
  rw [encodeUnit, if_neg (by omega), if_neg (by omega), if_neg (by omega), h₁, h₂, h₃,
    UInt8.ofNat_toNat, UInt8.ofNat_toNat, UInt8.ofNat_toNat]

/-- That code units put behind others are all units found, and that octets are theirs. -/
def IsRead (before : List Nat) (octets : List UInt8) (codes : List Nat) : Prop :=
  ∃ found, codes = before.reverse ++ found ∧ octets = found.flatMap encodeUnit ∧
    ∀ unit ∈ found, unit < 0x10000

theorem IsRead.cons {unit : Nat} {octets : List UInt8} {codes : List Nat}
    (hread : IsRead (unit :: before) rest codes) (hoctets : encodeUnit unit = octets)
    (hunit : unit < 0x10000) : IsRead before (octets ++ rest) codes := by
  obtain ⟨found, hcodes, hrest, hfound⟩ := hread
  refine ⟨unit :: found, ?_, ?_, List.forall_mem_cons.mpr ⟨hunit, hfound⟩⟩
  · simpa using hcodes
  · rw [List.flatMap_cons, hoctets, hrest]

/-- Octets are read as code units only if they are those of the units. -/
theorem isRead_of_unitsOnto {octets : List UInt8} {codes : List Nat}
    (hcodes : unitsOnto before octets = some codes) : IsRead before octets codes := by
  fun_induction unitsOnto before octets with
  | case1 before => exact ⟨[], by simpa using hcodes.symm, rfl, by simp⟩
  | case2 before first rest hfirst ih =>
      have hfirst : 0 < first.toNat ∧ first.toNat < 0x80 := by
        simpa [UInt8.lt_iff_toNat_lt] using hfirst
      exact (ih hcodes).cons (encodeUnit_one hfirst) (by omega)
  | case5 before first hfirst second rest htail hzero ih =>
      obtain ⟨rfl, rfl⟩ := hzero
      have hoctets : encodeUnit 0 = [0xC0, 0x80] := rfl
      exact (ih hcodes).cons hoctets (by omega)
  | case6 before first hfirst second rest htail hzero htwo ih =>
      have hsecond := isTail_iff.mp (Decidable.not_not.mp htail)
      have hfirst : 0xC2 ≤ first.toNat ∧ first.toNat < 0xE0 := by
        simpa [UInt8.lt_iff_toNat_lt, UInt8.le_iff_toNat_le] using htwo
      exact (ih hcodes).cons (encodeUnit_two hfirst hsecond) (by omega)
  | case8 before first hfirst second htail hzero htwo hthree third rest unit hthird ih =>
      have hsecond := isTail_iff.mp (Decidable.not_not.mp htail)
      have hlast := isTail_iff.mp hthird.1
      have hunit : unit = (first.toNat - 0xE0) * 4096 + (second.toNat - 0x80) * 64 +
        (third.toNat - 0x80) := rfl
      have hfirst : 0xE0 ≤ first.toNat ∧ first.toNat < 0xF0 := by
        simpa [UInt8.lt_iff_toNat_lt, UInt8.le_iff_toNat_le] using hthree
      exact (ih hcodes).cons (encodeUnit_three hfirst hsecond hlast hthird.2) (by omega)
  | _ => cases hcodes

end Units

/-! ## Characters -/

theorem units_of_lt {c : Char} (hc : c.toNat < 0x10000) : units c = [c.toNat] :=
  if_pos hc

theorem units_of_le {c : Char} (hc : 0x10000 ≤ c.toNat) :
    units c = [0xD800 + (c.toNat - 0x10000) / 0x400, 0xDC00 + (c.toNat - 0x10000) % 0x400] :=
  if_neg (by omega)

theorem toNat_valid (c : Char) : c.toNat < 0xD800 ∨ 0xDFFF < c.toNat ∧ c.toNat < 0x110000 :=
  c.valid

theorem units_lt (c : Char) : ∀ unit ∈ units c, unit < 0x10000 := by
  have hvalid := toNat_valid c
  by_cases hc : c.toNat < 0x10000
  · simpa [units_of_lt hc] using hc
  · simp [units_of_le (Nat.le_of_not_lt hc)]
    omega

section Characters

variable {before : List Char} {rest : List Nat}

/-- The code units of a character are joined to that character. -/
theorem joinOnto_units (c : Char) :
    joinOnto before (units c ++ rest) = joinOnto (c :: before) rest := by
  have hvalid := toNat_valid c
  have hchar : Char.ofNat c.toNat = c := Char.ofNat_toNat c
  by_cases hc : c.toNat < 0x10000
  · rw [units_of_lt hc, List.cons_append, List.nil_append, joinOnto.eq_def]
    simp only
    rw [if_pos (by omega), hchar]
  · have hcode : 0x10000 + (0xD800 + (c.toNat - 0x10000) / 0x400 - 0xD800) * 0x400 +
        (0xDC00 + (c.toNat - 0x10000) % 0x400 - 0xDC00) = c.toNat := by omega
    rw [units_of_le (Nat.le_of_not_lt hc), List.cons_append, List.cons_append, List.nil_append,
      joinOnto.eq_def]
    simp only
    rw [if_neg (by omega), if_neg (by omega), if_pos (by omega), hcode, hchar]

theorem joinOnto_flatMap (text : List Char) :
    joinOnto before (text.flatMap units) = some (before.reverse ++ text) := by
  induction text generalizing before with
  | nil => simp [joinOnto]
  | cons c text ih =>
      rw [List.flatMap_cons, joinOnto_units, ih]
      simp

/-- Code units are joined to characters only if they are those of the characters. -/
theorem exists_flatMap_of_joinOnto {codes : List Nat} {text : List Char}
    (hcodes : ∀ unit ∈ codes, unit < 0x10000) (htext : joinOnto before codes = some text) :
    ∃ found : List Char, text = before.reverse ++ found ∧ codes = found.flatMap units := by
  fun_induction joinOnto before codes with
  | case1 before => exact ⟨[], by simpa using htext.symm, rfl⟩
  | case2 before unit rest hplain ih =>
      obtain ⟨hunit, hrest⟩ := List.forall_mem_cons.mp hcodes
      obtain ⟨found, rfl, rfl⟩ := ih hrest htext
      have hcode : (Char.ofNat unit).toNat = unit :=
        Utf8.toNat_ofNat_of_valid _ (by unfold Nat.isValidChar; omega)
      refine ⟨Char.ofNat unit :: found, by simp, ?_⟩
      rw [List.flatMap_cons, units_of_lt (by omega), hcode]
      rfl
  | case5 before unit hplain hhigh low rest hlow code ih =>
      obtain ⟨-, hrest⟩ := List.forall_mem_cons.mp hcodes
      obtain ⟨-, hrest⟩ := List.forall_mem_cons.mp hrest
      obtain ⟨found, rfl, rfl⟩ := ih hrest htext
      have hcode : (Char.ofNat code).toNat = code :=
        Utf8.toNat_ofNat_of_valid _ (by unfold Nat.isValidChar; omega)
      refine ⟨Char.ofNat code :: found, by simp, ?_⟩
      rw [List.flatMap_cons, units_of_le (by omega), hcode]
      have hfirst : 0xD800 + (code - 0x10000) / 0x400 = unit := by omega
      have hsecond : 0xDC00 + (code - 0x10000) % 0x400 = low := by omega
      rw [hfirst, hsecond]
      rfl
  | _ => cases htext

end Characters

theorem encode_eq_flatMap (text : List Char) :
    encode text = (text.flatMap units).flatMap encodeUnit :=
  List.flatMap_assoc.symm

/-- The octets that are read as a text in modified UTF-8 are those of the text. -/
theorem decode?_eq_some_iff {octets : List UInt8} {text : List Char} :
    decode? octets = some text ↔ octets = encode text := by
  have hunits : ∀ unit ∈ text.flatMap units, unit < 0x10000 := by
    intro unit hunit
    obtain ⟨c, -, hunit⟩ := List.mem_flatMap.mp hunit
    exact units_lt c unit hunit
  rw [encode_eq_flatMap]
  constructor
  · intro hdecode
    obtain ⟨codes, hcodes, htext⟩ := Option.bind_eq_some_iff.mp hdecode
    obtain ⟨found, rfl, rfl, hfound⟩ := isRead_of_unitsOnto hcodes
    obtain ⟨characters, rfl, hjoined⟩ := exists_flatMap_of_joinOnto hfound htext
    rw [hjoined]
  · rintro rfl
    rw [decode?, unitsOnto_flatMap hunits]
    exact joinOnto_flatMap text

/-! ## Modified UTF-8 that is read as plain UTF-8 -/

/-- That both forms spell a character alike. -/
def IsPlain (c : Char) : Prop := c.toNat ≠ 0 ∧ c.toNat < 0x10000

/-- Both forms spell a plain character alike. -/
theorem flatMap_units_of_isPlain {c : Char} (hc : IsPlain c) :
    (units c).flatMap encodeUnit = String.utf8EncodeChar c := by
  obtain ⟨hzero, hplane⟩ := hc
  rw [units_of_lt hplane, List.flatMap_cons, List.flatMap_nil, List.append_nil,
    String.utf8EncodeChar.eq_1, encodeUnit, if_neg hzero]
  have hcode : c.val.toNat = c.toNat := rfl
  rw [hcode]
  generalize c.toNat = code at hplane
  by_cases hone : code < 0x80
  · rw [if_pos hone, if_pos (by omega)]
  by_cases htwo : code < 0x800
  · rw [if_neg hone, if_pos htwo, if_neg (by omega), if_pos (by omega),
      show 0xC0 + code / 64 = code / 64 % 32 + 192 by omega, Nat.add_comm 0x80]
  · rw [if_neg hone, if_neg htwo, if_neg (by omega), if_neg (by omega), if_pos (by omega),
      show 0xE0 + code / 4096 = code / 4096 % 16 + 224 by omega, Nat.add_comm 0x80,
      Nat.add_comm 0x80]

/-- The second octet of a surrogate is out of the range that plain UTF-8 leaves for it. -/
theorem none_mem_of_surrogate {unit : Nat} (hunit : 0xD800 ≤ unit ∧ unit < 0xE000)
    (before : List (Option Char)) :
    none ∈ ((encodeUnit unit).foldl Utf8.Reading.next ⟨before, none⟩).characters := by
  have hfirst : 0xE0 + unit / 4096 = 0xED := by omega
  have hsecond : (UInt8.ofNat (0x80 + unit / 64 % 64)).toNat = 0x80 + unit / 64 % 64 :=
    Utf8.toNat_octet _ (by omega)
  rw [encodeUnit, if_neg (by omega), if_neg (by omega), if_neg (by omega), hfirst, List.foldl_cons,
    List.foldl_cons]
  apply Utf8.none_mem_foldl_next
  rw [Utf8.next_first]
  change none ∈ (Utf8.Reading.next ⟨before, some ⟨2, 0x80, 0x9F, 0xD⟩⟩ _).characters
  simp only [Utf8.Reading.next, hsecond]
  rw [if_neg (by omega)]
  exact Utf8.none_mem_begin List.mem_cons_self _

/-- A character that is not plain is read as damaged UTF-8. -/
theorem none_mem_of_not_isPlain {c : Char} (hc : ¬ IsPlain c) (before : List (Option Char)) :
    none ∈ (((units c).flatMap encodeUnit).foldl Utf8.Reading.next ⟨before, none⟩).characters := by
  have hvalid := toNat_valid c
  by_cases hzero : c.toNat = 0
  · rw [units_of_lt (by omega), hzero]
    have hdamaged : none ∈ (Utf8.begin before 0xC0).characters := List.mem_cons_self
    exact Utf8.none_mem_foldl_next hdamaged [0x80]
  · have hplane : 0x10000 ≤ c.toNat := Nat.le_of_not_lt fun hlt => hc ⟨hzero, hlt⟩
    rw [units_of_le hplane, List.flatMap_cons, List.foldl_append]
    exact Utf8.none_mem_foldl_next (none_mem_of_surrogate (by omega) before) _

/-- Modified UTF-8 is the same in plain UTF-8, or damaged there. -/
theorem encode_cases (text : List Char) (before : List (Option Char)) :
    encode text = Utf8.encode text ∨
      none ∈ ((encode text).foldl Utf8.Reading.next ⟨before, none⟩).characters := by
  -- Damage is met behind plain characters, so the induction carries what was read before.
  induction text generalizing before with
  | nil => exact .inl rfl
  | cons c text ih =>
      rw [encode, Utf8.encode, List.flatMap_cons, List.flatMap_cons, List.foldl_append]
      by_cases hc : IsPlain c
      · rw [flatMap_units_of_isPlain hc, Utf8.foldl_next_encodeChar]
        exact (ih (some c :: before)).imp_left fun hsame => congrArg (_ ++ ·) hsame
      · exact .inr (Utf8.none_mem_foldl_next (none_mem_of_not_isPlain hc before) _)

/-! ## Either form -/

theorem read_utf8 (text : String) : read (Utf8.encode text.toList) = text := by
  rw [read, Utf8.decode?_encode, String.ofList_toList]

theorem read_encode (text : String) : read (encode text.toList) = text := by
  rcases encode_cases text.toList [] with hsame | hdamaged
  · rw [hsame, read_utf8]
  · have hplain := Utf8.decode?_eq_none_of_mem (Utf8.mem_finish hdamaged)
    have hmodified := decode?_eq_some_iff.mpr (rfl : encode text.toList = encode text.toList)
    rw [read, hplain]
    simp only
    rw [hmodified, Option.getD_some, String.ofList_toList]

theorem read_of_ne {octets : List UInt8}
    (hother : ∀ text : List Char, octets ≠ encode text ∧ octets ≠ Utf8.encode text) :
    read octets = String.ofList (Utf8.decodeLossy octets) := by
  have hplain : Utf8.decode? octets = none :=
    Option.eq_none_iff_forall_ne_some.mpr fun text htext =>
      (hother text).2 (Utf8.decode?_eq_some_iff.mp htext)
  have hmodified : decode? octets = none :=
    Option.eq_none_iff_forall_ne_some.mpr fun text htext =>
      (hother text).1 (decode?_eq_some_iff.mp htext)
  rw [read, hplain]
  simp only
  rw [hmodified, Option.getD_none]

end ClassCensus.ModifiedUtf8
