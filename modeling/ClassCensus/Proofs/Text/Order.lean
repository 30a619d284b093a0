import ClassCensus.Text.Utf8
import Mathlib.Tactic.SplitIfs

/-!
# The order of octets

Texts in the order of their code points are in the order of their octets in UTF-8, too: a greater
character has a greater octet where the octets of two characters first differ.
-/

namespace ClassCensus.Utf8

theorem ofNat_lt_ofNat_iff {first second : Nat} (hfirst : first < 256) (hsecond : second < 256) :
    UInt8.ofNat first < UInt8.ofNat second ↔ first < second := by
  rw [UInt8.lt_iff_toNat_lt, UInt8.toNat_ofNat_of_lt' hfirst, UInt8.toNat_ofNat_of_lt' hsecond]

theorem ofNat_eq_ofNat_iff {first second : Nat} (hfirst : first < 256) (hsecond : second < 256) :
    UInt8.ofNat first = UInt8.ofNat second ↔ first = second := by
  rw [← UInt8.toNat_inj, UInt8.toNat_ofNat_of_lt' hfirst, UInt8.toNat_ofNat_of_lt' hsecond]

/-- Numbers of four digits are compared digit by digit. -/
theorem digits_lt {first₀ first₁ first₂ first₃ second₀ second₁ second₂ second₃ : Nat}
    (hfirst : first₁ < 64 ∧ first₂ < 64 ∧ first₃ < 64)
    (hsecond : second₁ < 64 ∧ second₂ < 64 ∧ second₃ < 64)
    (hless : ((first₀ * 64 + first₁) * 64 + first₂) * 64 + first₃ <
      ((second₀ * 64 + second₁) * 64 + second₂) * 64 + second₃) (behind : Prop) :
    first₀ < second₀ ∨ first₀ = second₀ ∧ (first₁ < second₁ ∨ first₁ = second₁ ∧
      (first₂ < second₂ ∨ first₂ = second₂ ∧ (first₃ < second₃ ∨ first₃ = second₃ ∧ behind))) := by
  omega

/-- The octets of a greater character are greater, whatever follows. -/
theorem encodeChar_append_lt {first second : Char} (hless : first < second)
    (others more : List UInt8) :
    String.utf8EncodeChar first ++ others < String.utf8EncodeChar second ++ more := by
  have hfirst : first.val.toNat < 0x110000 := by have := first.valid; omega
  have hsecond : second.val.toNat < 0x110000 := by have := second.valid; omega
  have hcode : first.val.toNat < second.val.toNat := hless
  rw [String.utf8EncodeChar.eq_1, String.utf8EncodeChar.eq_1]
  generalize first.val.toNat = code at *
  generalize second.val.toNat = greater at *
  -- Two characters of four octets differ in one of four digits; all other pairs are told apart by
  -- their lengths and at most three digits.
  by_cases hplane : code ≤ 0xFFFF
  · split_ifs <;>
      simp (disch := omega) only [List.cons_append, List.nil_append, List.cons_lt_cons_iff,
        ofNat_lt_ofNat_iff, ofNat_eq_ofNat_iff] <;> omega
  · have hdigits : code = ((code / 262144 % 8 * 64 + code / 4096 % 64) * 64 + code / 64 % 64) * 64 +
        code % 64 := by omega
    have hothers : greater = ((greater / 262144 % 8 * 64 + greater / 4096 % 64) * 64 +
        greater / 64 % 64) * 64 + greater % 64 := by omega
    rw [if_neg (by omega), if_neg (by omega), if_neg (by omega), if_neg (by omega),
      if_neg (by omega), if_neg (by omega)]
    simp (disch := omega) only [List.cons_append, List.nil_append, List.cons_lt_cons_iff,
      ofNat_lt_ofNat_iff, ofNat_eq_ofNat_iff, Nat.add_lt_add_iff_right, Nat.add_right_cancel_iff]
    exact digits_lt (by omega) (by omega) (by omega) _

theorem utf8EncodeChar_ne_nil (c : Char) : String.utf8EncodeChar c ≠ [] := by
  rw [String.utf8EncodeChar.eq_1]
  split_ifs <;> exact List.cons_ne_nil _ _

theorem encode_lt_encode {first second : List Char} (hless : first < second) :
    encode first < encode second := by
  induction first generalizing second with
  | nil =>
      cases second with
      | nil => exact absurd hless (List.lt_irrefl [])
      | cons c second =>
          obtain ⟨octet, octets, hoctets⟩ := List.exists_cons_of_ne_nil (utf8EncodeChar_ne_nil c)
          rw [encode, encode, List.flatMap_cons, hoctets]
          exact List.nil_lt_cons _ _
  | cons c first ih =>
      cases second with
      | nil => cases hless
      | cons d second =>
          rw [encode, encode, List.flatMap_cons, List.flatMap_cons]
          rcases List.cons_lt_cons_iff.mp hless with hchar | ⟨rfl, htail⟩
          · exact encodeChar_append_lt hchar _ _
          · exact List.append_left_lt (ih htail)

/-- Rows of texts in order have octets in order. -/
theorem map_encode_lt {first second : List String} (hless : first < second) :
    first.map (fun text => encode text.toList) < second.map (fun text => encode text.toList) :=
  List.map_lt (fun text other hlt => encode_lt_encode (show text.toList < other.toList from hlt))
    hless

end ClassCensus.Utf8

namespace ClassCensus

/-- Texts in order have code points in order. -/
theorem codePoints_lt {first second : String} (hless : first < second) :
    first.toList.map Char.toNat < second.toList.map Char.toNat :=
  List.map_lt (fun _ _ hchar => hchar) (show first.toList < second.toList from hless)

/-- Rows that are sorted by texts of their own are in strict order. -/
theorem pairwise_mergeSort_lt {α : Type} {key : α → String} {rows : List α}
    (hkeys : (rows.map key).Nodup) :
    (rows.mergeSort fun first second => decide (key first ≤ key second)).Pairwise
      fun first second => key first < key second := by
  have hsorted : (rows.mergeSort fun first second => decide (key first ≤ key second)).Pairwise
      fun first second => decide (key first ≤ key second) = true := by
    apply List.pairwise_mergeSort
    · intro first second third hfirst hsecond
      exact decide_eq_true (String.le_trans (of_decide_eq_true hfirst) (of_decide_eq_true hsecond))
    · intro first second
      simp [String.le_total (key first) (key second)]
  have hdistinct : ((rows.mergeSort fun first second => decide (key first ≤ key second)).map
      key).Nodup := ((List.mergeSort_perm rows _).map key).nodup_iff.mpr hkeys
  refine (hsorted.and (List.pairwise_map.mp hdistinct)).imp ?_
  rintro first second ⟨hle, hne⟩
  exact String.not_le.mp fun hge => hne (String.le_antisymm (of_decide_eq_true hle) hge)

end ClassCensus
