import ClassCensus.Text.Utf8

/-!
# Reading UTF-8 that was written

The octets of a character bring the reader from the end of one character to the end of the next,
whatever stands before, so the octets of a text are read as that text.  Conversely, as long as the
reader has met no damage the octets are those of a text and of the beginning of one more character
(`Undamaged`); and damage, once met, stays.  So nothing else is read as a text.
-/

namespace ClassCensus.Utf8

variable {before : List (Option Char)} {lead bits code low high : Nat}

theorem toNat_octet (octet : Nat) (hoctet : octet < 256) : (UInt8.ofNat octet).toNat = octet :=
  UInt8.toNat_ofNat_of_lt' hoctet

theorem next_first (octet : UInt8) : Reading.next ⟨before, none⟩ octet = begin before octet := rfl

/-! ## Further octets -/

theorem next_tail {owed : Nat} (hlow : low ≤ bits + 128) (hhigh : bits + 128 ≤ high)
    (hbits : bits < 64) :
    Reading.next ⟨before, some ⟨owed + 2, low, high, code⟩⟩ (UInt8.ofNat (bits + 128)) =
      ⟨before, some ⟨owed + 1, 0x80, 0xBF, code * 64 + bits⟩⟩ := by
  have howed : owed + 2 ≠ 1 := by omega
  simp only [Reading.next, toNat_octet (bits + 128) (by omega)]
  rw [if_pos ⟨hlow, hhigh⟩, if_neg howed, Nat.add_sub_cancel]
  rfl

theorem next_last (hlow : low ≤ bits + 128) (hhigh : bits + 128 ≤ high) (hbits : bits < 64) :
    Reading.next ⟨before, some ⟨1, low, high, code⟩⟩ (UInt8.ofNat (bits + 128)) =
      ⟨some (Char.ofNat (code * 64 + bits)) :: before, none⟩ := by
  simp only [Reading.next, toNat_octet (bits + 128) (by omega)]
  rw [if_pos ⟨hlow, hhigh⟩, if_pos trivial, Nat.add_sub_cancel]

/-! ## First octets -/

theorem begin_one (hlead : lead < 0x80) :
    begin before (UInt8.ofNat lead) = ⟨some (Char.ofNat lead) :: before, none⟩ := by
  simp only [begin, toNat_octet lead (by omega), if_pos hlead]

theorem begin_two (hlow : 2 ≤ lead) (hhigh : lead < 32) :
    begin before (UInt8.ofNat (lead + 192)) = ⟨before, some ⟨1, 0x80, 0xBF, lead⟩⟩ := by
  simp only [begin, toNat_octet (lead + 192) (by omega)]
  rw [if_neg (by omega), if_neg (by omega), if_pos (by omega), Nat.add_sub_cancel]

/-- The first two of three octets.  The second keeps out overlong forms and surrogates. -/
theorem begin_three (hlead : lead < 16) (hbits : bits < 64) (hoverlong : lead = 0 → 32 ≤ bits)
    (hsurrogate : lead = 13 → bits < 32) :
    (begin before (UInt8.ofNat (lead + 224))).next (UInt8.ofNat (bits + 128)) =
      ⟨before, some ⟨1, 0x80, 0xBF, lead * 64 + bits⟩⟩ := by
  simp only [begin, toNat_octet (lead + 224) (by omega)]
  rw [if_neg (by omega), if_neg (by omega), if_neg (by omega)]
  by_cases hzero : lead = 0
  · subst hzero
    rw [if_pos rfl, next_tail (by omega) (by omega) hbits]
  rw [if_neg (by omega)]
  by_cases hthirteen : lead = 13
  · subst hthirteen
    rw [if_pos rfl, next_tail (by omega) (by omega) hbits]
  rw [if_neg (by omega), if_pos (by omega), next_tail (by omega) (by omega) hbits,
    Nat.add_sub_cancel]

/-- The first two of four octets.  The second keeps out overlong forms and codes past the last. -/
theorem begin_four (hlead : lead ≤ 4) (hbits : bits < 64) (hoverlong : lead = 0 → 16 ≤ bits)
    (hlast : lead = 4 → bits < 16) :
    (begin before (UInt8.ofNat (lead + 240))).next (UInt8.ofNat (bits + 128)) =
      ⟨before, some ⟨2, 0x80, 0xBF, lead * 64 + bits⟩⟩ := by
  simp only [begin, toNat_octet (lead + 240) (by omega)]
  rw [if_neg (by omega), if_neg (by omega), if_neg (by omega), if_neg (by omega),
    if_neg (by omega), if_neg (by omega)]
  by_cases hzero : lead = 0
  · subst hzero
    rw [if_pos rfl, next_tail (by omega) (by omega) hbits]
  rw [if_neg (by omega)]
  by_cases hfour : lead = 4
  · subst hfour
    rw [if_neg (by omega), if_pos rfl, next_tail (by omega) (by omega) hbits]
  rw [if_pos (by omega), next_tail (by omega) (by omega) hbits, Nat.add_sub_cancel]

/-! ## Characters and texts -/

/-- The octets of a character are read as that character. -/
theorem foldl_next_encodeChar (c : Char) :
    (String.utf8EncodeChar c).foldl Reading.next ⟨before, none⟩ = ⟨some c :: before, none⟩ := by
  have hvalid : c.val.toNat < 0xD800 ∨ 0xDFFF < c.val.toNat ∧ c.val.toNat < 0x110000 := c.valid
  have hchar : Char.ofNat c.val.toNat = c := Char.ofNat_toNat c
  rw [String.utf8EncodeChar.eq_1]
  generalize c.val.toNat = code at hvalid hchar
  split
  · simp only [List.foldl_cons, List.foldl_nil]
    rw [next_first, begin_one (by omega), hchar]
  split
  · have hcode : code / 64 % 32 * 64 + code % 64 = code := by omega
    simp only [List.foldl_cons, List.foldl_nil]
    rw [next_first, begin_two (by omega) (by omega), next_last (by omega) (by omega) (by omega),
      hcode, hchar]
  split
  · have hcode : (code / 4096 % 16 * 64 + code / 64 % 64) * 64 + code % 64 = code := by omega
    simp only [List.foldl_cons, List.foldl_nil]
    rw [next_first, begin_three (by omega) (by omega) (by omega) (by omega),
      next_last (by omega) (by omega) (by omega), hcode, hchar]
  · have hcode : ((code / 262144 % 8 * 64 + code / 4096 % 64) * 64 + code / 64 % 64) * 64 +
        code % 64 = code := by omega
    simp only [List.foldl_cons, List.foldl_nil]
    rw [next_first, begin_four (by omega) (by omega) (by omega) (by omega),
      next_tail (by omega) (by omega) (by omega), next_last (by omega) (by omega) (by omega),
      hcode, hchar]

theorem foldl_next_encode (text : List Char) :
    (encode text).foldl Reading.next ⟨before, none⟩ =
      ⟨(text.map some).reverse ++ before, none⟩ := by
  induction text generalizing before with
  | nil => rfl
  | cons c others ih =>
      rw [encode, List.flatMap_cons, List.foldl_append, foldl_next_encodeChar]
      exact ih.trans (by simp)

/-- The octets of a text are read as its characters. -/
theorem characters_encode (text : List Char) : characters (encode text) = text.map some := by
  simp [characters, foldl_next_encode, Reading.finish]

/-- The octets of a text are read as that text. -/
theorem decode?_encode (text : List Char) : decode? (encode text) = some text := by
  simp [decode?, characters_encode]

/-! ## Octets that are read without damage -/

theorem toNat_ofNat_of_valid (code : Nat) (hvalid : code.isValidChar) :
    (Char.ofNat code).val.toNat = code := by
  rw [Char.ofNat, dif_pos hvalid]
  rfl

theorem ofNat_eq_of_toNat {number : Nat} {octet : UInt8} (hnumber : number = octet.toNat) :
    UInt8.ofNat number = octet := by
  rw [hnumber, UInt8.ofNat_toNat]

section Characters

variable {first second third fourth : UInt8}

theorem encodeChar_one (hfirst : first.toNat < 0x80) :
    String.utf8EncodeChar (Char.ofNat first.toNat) = [first] := by
  have hcode := toNat_ofNat_of_valid first.toNat (.inl (by omega))
  rw [String.utf8EncodeChar.eq_1, hcode, if_pos (by omega), UInt8.ofNat_toNat]

theorem encodeChar_two (hfirst : 0xC2 ≤ first.toNat ∧ first.toNat < 0xE0)
    (hsecond : 0x80 ≤ second.toNat ∧ second.toNat ≤ 0xBF) :
    String.utf8EncodeChar (Char.ofNat ((first.toNat - 0xC0) * 64 + (second.toNat - 0x80))) =
      [first, second] := by
  generalize hnumber : (first.toNat - 0xC0) * 64 + (second.toNat - 0x80) = code
  have hcode := toNat_ofNat_of_valid code (.inl (by omega))
  rw [String.utf8EncodeChar.eq_1, hcode, if_neg (by omega), if_pos (by omega)]
  have h₁ : UInt8.ofNat (code / 64 % 32 + 192) = first := ofNat_eq_of_toNat (by omega)
  have h₂ : UInt8.ofNat (code % 64 + 128) = second := ofNat_eq_of_toNat (by omega)
  rw [h₁, h₂]

theorem encodeChar_three (hfirst : 0xE0 ≤ first.toNat ∧ first.toNat < 0xF0)
    (hsecond : 0x80 ≤ second.toNat ∧ second.toNat ≤ 0xBF)
    (hthird : 0x80 ≤ third.toNat ∧ third.toNat ≤ 0xBF)
    (hoverlong : first.toNat = 0xE0 → 0xA0 ≤ second.toNat)
    (hsurrogate : first.toNat = 0xED → second.toNat ≤ 0x9F) :
    String.utf8EncodeChar (Char.ofNat
        (((first.toNat - 0xE0) * 64 + (second.toNat - 0x80)) * 64 + (third.toNat - 0x80))) =
      [first, second, third] := by
  generalize hnumber :
    ((first.toNat - 0xE0) * 64 + (second.toNat - 0x80)) * 64 + (third.toNat - 0x80) = code
  have hcode := toNat_ofNat_of_valid code (by unfold Nat.isValidChar; omega)
  rw [String.utf8EncodeChar.eq_1, hcode, if_neg (by omega), if_neg (by omega), if_pos (by omega)]
  have h₁ : UInt8.ofNat (code / 4096 % 16 + 224) = first := ofNat_eq_of_toNat (by omega)
  have h₂ : UInt8.ofNat (code / 64 % 64 + 128) = second := ofNat_eq_of_toNat (by omega)
  have h₃ : UInt8.ofNat (code % 64 + 128) = third := ofNat_eq_of_toNat (by omega)
  rw [h₁, h₂, h₃]

theorem encodeChar_four (hfirst : 0xF0 ≤ first.toNat ∧ first.toNat ≤ 0xF4)
    (hsecond : 0x80 ≤ second.toNat ∧ second.toNat ≤ 0xBF)
    (hthird : 0x80 ≤ third.toNat ∧ third.toNat ≤ 0xBF)
    (hfourth : 0x80 ≤ fourth.toNat ∧ fourth.toNat ≤ 0xBF)
    (hoverlong : first.toNat = 0xF0 → 0x90 ≤ second.toNat)
    (hlast : first.toNat = 0xF4 → second.toNat ≤ 0x8F) :
    String.utf8EncodeChar (Char.ofNat
        ((((first.toNat - 0xF0) * 64 + (second.toNat - 0x80)) * 64 + (third.toNat - 0x80)) * 64 +
          (fourth.toNat - 0x80))) =
      [first, second, third, fourth] := by
  generalize hnumber :
    (((first.toNat - 0xF0) * 64 + (second.toNat - 0x80)) * 64 + (third.toNat - 0x80)) * 64 +
      (fourth.toNat - 0x80) = code
  have hcode := toNat_ofNat_of_valid code (by unfold Nat.isValidChar; omega)
  rw [String.utf8EncodeChar.eq_1, hcode, if_neg (by omega), if_neg (by omega), if_neg (by omega)]
  have h₁ : UInt8.ofNat (code / 262144 % 8 + 240) = first := ofNat_eq_of_toNat (by omega)
  have h₂ : UInt8.ofNat (code / 4096 % 64 + 128) = second := ofNat_eq_of_toNat (by omega)
  have h₃ : UInt8.ofNat (code / 64 % 64 + 128) = third := ofNat_eq_of_toNat (by omega)
  have h₄ : UInt8.ofNat (code % 64 + 128) = fourth := ofNat_eq_of_toNat (by omega)
  rw [h₁, h₂, h₃, h₄]

end Characters

/-- That octets begin a character whose code is known so far, and become all octets of that
character by each way of paying what is owed: one octet in a range and further ones in the range of
all tails. -/
def Begins : (owed low high code : Nat) → List UInt8 → Prop
  | 0, _, _, code, taken => String.utf8EncodeChar (Char.ofNat code) = taken
  | owed + 1, low, high, code, taken => ∀ octet : UInt8, low ≤ octet.toNat → octet.toNat ≤ high →
    Begins owed 0x80 0xBF (code * 64 + (octet.toNat - 0x80)) (taken ++ [octet])

/-- That octets are read without damage so far: they spell characters, and begin one more if that
is in progress. -/
inductive Undamaged : List UInt8 → Reading → Prop
  | between (text : List Char) : Undamaged (encode text) ⟨(text.map some).reverse, none⟩
  | within (text : List Char) {taken : List UInt8} {owed low high code : Nat}
    (hbegins : Begins (owed + 1) low high code taken) :
    Undamaged (encode text ++ taken)
      ⟨(text.map some).reverse, some ⟨owed + 1, low, high, code⟩⟩

theorem none_mem_begin (hbefore : none ∈ before) (octet : UInt8) :
    none ∈ (begin before octet).characters := by
  unfold begin
  grind

/-- Damage stays. -/
theorem none_mem_next {reading : Reading} (hdamaged : none ∈ reading.characters) (octet : UInt8) :
    none ∈ (reading.next octet).characters := by
  obtain ⟨characters, _ | pending⟩ := reading
  · exact none_mem_begin hdamaged octet
  · simp only [Reading.next]
    split
    · split
      · exact List.mem_cons_of_mem _ hdamaged
      · exact hdamaged
    · exact none_mem_begin List.mem_cons_self octet

theorem none_mem_foldl_next {reading : Reading} (hdamaged : none ∈ reading.characters)
    (octets : List UInt8) : none ∈ (octets.foldl Reading.next reading).characters := by
  induction octets generalizing reading with
  | nil => exact hdamaged
  | cons octet octets ih => exact ih (none_mem_next hdamaged octet)

theorem Undamaged.append_char {text : List Char} {taken : List UInt8} {c : Char}
    (htaken : String.utf8EncodeChar c = taken) :
    Undamaged (encode text ++ taken) ⟨some c :: (text.map some).reverse, none⟩ := by
  have hall := between (text ++ [c])
  simpa [encode, htaken] using hall

theorem begins_two {first : UInt8} (hfirst : 0xC2 ≤ first.toNat ∧ first.toNat < 0xE0) :
    Begins 1 0x80 0xBF (first.toNat - 0xC0) [first] :=
  fun _ hlow hhigh => encodeChar_two hfirst ⟨hlow, hhigh⟩

theorem begins_three {first : UInt8} {low high code : Nat} (hfirst : first.toNat = code + 0xE0)
    (hcode : code < 16) (hrange : 0x80 ≤ low ∧ high ≤ 0xBF)
    (hoverlong : code = 0 → 0xA0 ≤ low) (hsurrogate : code = 0xD → high ≤ 0x9F) :
    Begins 2 low high code [first] := by
  intro second hlow hhigh third hlow' hhigh'
  rw [show code = first.toNat - 0xE0 by omega]
  exact encodeChar_three (by omega) (by omega) ⟨hlow', hhigh'⟩ (by omega) (by omega)

theorem begins_four {first : UInt8} {low high code : Nat} (hfirst : first.toNat = code + 0xF0)
    (hcode : code ≤ 4) (hrange : 0x80 ≤ low ∧ high ≤ 0xBF)
    (hoverlong : code = 0 → 0x90 ≤ low) (hlast : code = 4 → high ≤ 0x8F) :
    Begins 3 low high code [first] := by
  intro second hlow hhigh third hlow' hhigh' fourth hlow'' hhigh''
  rw [show code = first.toNat - 0xF0 by omega]
  exact encodeChar_four (by omega) (by omega) ⟨hlow', hhigh'⟩ ⟨hlow'', hhigh''⟩ (by omega)
    (by omega)

/-- An octet at which a character may begin is damaged, or is a character or begins one. -/
theorem undamaged_begin (text : List Char) (octet : UInt8) :
    Undamaged (encode text ++ [octet]) (begin (text.map some).reverse octet) ∨
      none ∈ (begin (text.map some).reverse octet).characters := by
  simp only [begin]
  -- The ranges come in the order in which they are told apart; three of them begin a character of
  -- three octets, and three one of four.
  split
  · exact .inl (.append_char (encodeChar_one ‹_›))
  split
  · exact .inr List.mem_cons_self
  split
  · exact .inl (.within text (begins_two (by omega)))
  iterate 3
    split
    · exact .inl (.within text
        (begins_three (by omega) (by omega) (by omega) (by omega) (by omega)))
  iterate 3
    split
    · exact .inl (.within text
        (begins_four (by omega) (by omega) (by omega) (by omega) (by omega)))
  · exact .inr List.mem_cons_self

theorem Undamaged.next {octets : List UInt8} {reading : Reading}
    (hundamaged : Undamaged octets reading) (octet : UInt8) :
    Undamaged (octets ++ [octet]) (reading.next octet) ∨
      none ∈ (reading.next octet).characters := by
  cases hundamaged with
  | between text => exact undamaged_begin text octet
  | @within text taken owed low high code hbegins =>
      simp only [Reading.next]
      split
      · rename_i hrange
        have hgoes := hbegins octet hrange.1 hrange.2
        rw [List.append_assoc]
        cases owed with
        | zero => exact .inl (.append_char hgoes)
        | succ owed => exact .inl (.within text hgoes)
      · exact .inr (none_mem_begin List.mem_cons_self octet)

theorem Undamaged.foldl_next {octets : List UInt8} {reading : Reading}
    (hundamaged : Undamaged octets reading) (others : List UInt8) :
    Undamaged (octets ++ others) (others.foldl Reading.next reading) ∨
      none ∈ (others.foldl Reading.next reading).characters := by
  induction others generalizing octets reading with
  | nil => exact .inl (by rwa [List.append_nil])
  | cons octet others ih =>
      rcases hundamaged.next octet with hundamaged | hdamaged
      · rw [List.append_cons]
        exact ih hundamaged
      · exact .inr (none_mem_foldl_next hdamaged others)

theorem mem_finish {reading : Reading} {character : Option Char}
    (hmem : character ∈ reading.characters) : character ∈ reading.finish := by
  unfold Reading.finish
  split
  · exact List.mem_reverse.mpr hmem
  · exact List.mem_reverse.mpr (List.mem_cons_of_mem _ hmem)

theorem decode?_eq_none_of_mem {octets : List UInt8} (hmem : none ∈ characters octets) :
    decode? octets = none := by
  simp [decode?, hmem]

/-- The octets that are read as a text are those of the text. -/
theorem decode?_eq_some_iff {octets : List UInt8} {text : List Char} :
    decode? octets = some text ↔ octets = encode text := by
  constructor
  · intro hdecode
    have hwhole : none ∉ characters octets := fun hmem => by
      cases (decode?_eq_none_of_mem hmem).symm.trans hdecode
    rcases (Undamaged.between []).foldl_next octets with hundamaged | hdamaged
    · have hread : Undamaged octets (octets.foldl Reading.next ⟨[], none⟩) := hundamaged
      generalize hreading : octets.foldl Reading.next ⟨[], none⟩ = reading at hread
      cases hread with
      | between found =>
          rw [decode?_encode] at hdecode
          rw [Option.some.inj hdecode]
      | within found hbegins =>
          exact absurd (by simp [characters, hreading, Reading.finish]) hwhole
    · exact absurd (mem_finish hdamaged) hwhole
  · rintro rfl
    exact decode?_encode text

end ClassCensus.Utf8
