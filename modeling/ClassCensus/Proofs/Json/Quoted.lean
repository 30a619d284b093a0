import ClassCensus.Json.Grammar
import ClassCensus.Proofs.Text.Utf8
import Mathlib.Tactic.SplitIfs

/-!
# Quoting texts

A text that is written between quotes is well-formed there and is resolved to the same text, for
every text.  Each character is written in one of three ways: as it is, as an escape of one letter or
as an escape of four digits.
-/

namespace ClassCensus.Json

/-- Octets that quote a character. -/
inductive Quotes : List UInt8 → Char → Prop
  | plain {octets : List UInt8} {c : Char} : octets = String.utf8EncodeChar c →
    (∀ octet ∈ octets, octet ≠ 0x22 ∧ octet ≠ 0x5C ∧ ¬ octet < 0x20) → Quotes octets c
  | letter (letter : UInt8) {octet : UInt8} {c : Char} : letterEscape? letter = some octet →
    [octet] = String.utf8EncodeChar c → Quotes [0x5C, letter] c
  | unit {a b c d : UInt8} {character : Char} :
    ([a, b, c, d].all fun digit => (hexValue? digit).isSome) = true →
    (∀ rest, unitEscape? (a :: b :: c :: d :: rest) = some (character, rest)) →
    Quotes [0x5C, 0x75, a, b, c, d] character

/-! ## Hexadecimal digits -/

/-- The octet of a hexadecimal digit. -/
def hexOctet (digit : Nat) : UInt8 := UInt8.ofNat (Hex.digit digit).toNat

theorem hexValue?_hexOctet {digit : Nat} (hdigit : digit < 16) :
    hexValue? (hexOctet digit) = some digit := by
  revert digit
  decide

theorem utf8EncodeChar_digit {digit : Nat} (hdigit : digit < 16) :
    String.utf8EncodeChar (Hex.digit digit) = [hexOctet digit] := by
  revert digit
  decide

theorem encode_paddedDigits_four (number : Nat) : Utf8.encode (Hex.paddedDigits 4 number) =
    [hexOctet (number / 4096 % 16), hexOctet (number / 256 % 16), hexOctet (number / 16 % 16),
      hexOctet (number % 16)] := by
  have hsmall (n : Nat) : n % 16 < 16 := Nat.mod_lt _ (by decide)
  simp [Hex.paddedDigits, Utf8.encode, utf8EncodeChar_digit, hsmall]

theorem hexUnit?_digits {number : Nat} (hnumber : number < 65536) (rest : List UInt8) :
    hexUnit? (hexOctet (number / 4096 % 16) :: hexOctet (number / 256 % 16) ::
      hexOctet (number / 16 % 16) :: hexOctet (number % 16) :: rest) = some (number, rest) := by
  have hsmall (n : Nat) : n % 16 < 16 := Nat.mod_lt _ (by decide)
  have hsum : ((number / 4096 % 16 * 16 + number / 256 % 16) * 16 + number / 16 % 16) * 16 +
      number % 16 = number := by omega
  simp [hexUnit?, hexValue?_hexOctet, hsmall, hsum]

/-! ## Characters -/

theorem utf8EncodeChar_of_lt {c : Char} (hascii : c.toNat < 0x80) :
    String.utf8EncodeChar c = [UInt8.ofNat c.toNat] := by
  rw [String.utf8EncodeChar.eq_1]
  exact if_pos (Nat.le_of_lt_succ hascii)

/-- The octets of a character that is not ASCII are not ASCII either. -/
theorem le_of_mem_utf8EncodeChar {c : Char} (hwide : 0x80 ≤ c.toNat) {octet : UInt8}
    (hoctet : octet ∈ String.utf8EncodeChar c) : 0x80 ≤ octet.toNat := by
  have hmember {part : Nat} (hlow : 0x80 ≤ part) (hhigh : part < 256)
      (hpart : octet = UInt8.ofNat part) : 0x80 ≤ octet.toNat := by
    rw [hpart, Utf8.toNat_octet _ hhigh]
    exact hlow
  have hsize : ¬ c.val.toNat ≤ 127 := by
    have hval : c.val.toNat = c.toNat := rfl
    omega
  rw [String.utf8EncodeChar.eq_1, if_neg hsize] at hoctet
  split at hoctet
  · simp only [List.mem_cons, List.not_mem_nil, or_false] at hoctet
    rcases hoctet with hoctet | hoctet <;> exact hmember (by omega) (by omega) hoctet
  split at hoctet
  · simp only [List.mem_cons, List.not_mem_nil, or_false] at hoctet
    rcases hoctet with hoctet | hoctet | hoctet <;> exact hmember (by omega) (by omega) hoctet
  · simp only [List.mem_cons, List.not_mem_nil, or_false] at hoctet
    rcases hoctet with hoctet | hoctet | hoctet | hoctet <;>
      exact hmember (by omega) (by omega) hoctet

theorem Quotes.ofControl {c : Char} (hcontrol : c.toNat < 0x20) :
    Quotes (Utf8.encode ('\\' :: 'u' :: Hex.paddedDigits 4 c.toNat)) c := by
  have hoctets : Utf8.encode ('\\' :: 'u' :: Hex.paddedDigits 4 c.toNat) =
      0x5C :: 0x75 :: Utf8.encode (Hex.paddedDigits 4 c.toNat) := rfl
  rw [hoctets, encode_paddedDigits_four]
  apply Quotes.unit
  · have hsmall (n : Nat) : n % 16 < 16 := Nat.mod_lt _ (by decide)
    simp [hexValue?_hexOctet, hsmall]
  · intro rest
    rw [unitEscape?, hexUnit?_digits (by omega)]
    simp only [Option.bind_eq_bind, Option.bind_some]
    rw [if_pos (Or.inl (by omega)), Char.ofNat_toNat]
    rfl

theorem Quotes.ofPlain {c : Char} (hquote : c ≠ '"') (hescape : c ≠ '\\')
    (hcontrol : ¬ c.toNat < 0x20) : Quotes (Utf8.encode [c]) c := by
  have hoctets : Utf8.encode [c] = String.utf8EncodeChar c := List.flatMap_singleton ..
  rw [hoctets]
  apply Quotes.plain rfl
  intro octet hoctet
  by_cases hascii : c.toNat < 0x80
  · rw [utf8EncodeChar_of_lt hascii, List.mem_singleton] at hoctet
    subst hoctet
    have hback : Char.ofNat (UInt8.ofNat c.toNat).toNat = c := by
      rw [Utf8.toNat_octet _ (by omega), Char.ofNat_toNat]
    refine ⟨?_, ?_, ?_⟩
    · intro heq
      exact hquote (by rw [← hback, heq]; rfl)
    · intro heq
      exact hescape (by rw [← hback, heq]; rfl)
    · rw [UInt8.lt_iff_toNat_lt, Utf8.toNat_octet _ (by omega)]
      exact hcontrol
  · have hwide := le_of_mem_utf8EncodeChar (by omega) hoctet
    refine ⟨?_, ?_, ?_⟩
    · rintro rfl
      exact absurd hwide (by decide)
    · rintro rfl
      exact absurd hwide (by decide)
    · rw [UInt8.lt_iff_toNat_lt]
      exact Nat.not_lt.mpr (Nat.le_trans (by decide) hwide)

/-- A character is quoted by what is written for it. -/
theorem quotes_escapeChar (c : Char) : Quotes (Utf8.encode (escapeChar c)) c := by
  have hcode {code : Nat} (heq : c.toNat = code) : c = Char.ofNat code := by
    rw [← heq, Char.ofNat_toNat]
  unfold escapeChar
  split_ifs with hquote hescape hbackspace hfeed hline hreturn htab hcontrol
  · subst hquote
    exact .letter 0x22 rfl rfl
  · subst hescape
    exact .letter 0x5C rfl rfl
  · rw [hcode hbackspace]
    exact .letter 0x62 rfl rfl
  · rw [hcode hfeed]
    exact .letter 0x66 rfl rfl
  · subst hline
    exact .letter 0x6E rfl rfl
  · subst hreturn
    exact .letter 0x72 rfl rfl
  · subst htab
    exact .letter 0x74 rfl rfl
  · exact .ofControl hcontrol
  · exact .ofPlain hquote hescape hcontrol

theorem Quotes.isQuoted {octets : List UInt8} {others : Quoted} {c : Char}
    (hquotes : Quotes octets c) (hothers : IsQuoted others) : IsQuoted (octets ++ others) := by
  cases hquotes with
  | plain hoctets hplain =>
      clear hoctets
      induction octets with
      | nil => exact hothers
      | cons octet behind ih =>
          obtain ⟨hquote, hescape, hcontrol⟩ := hplain octet List.mem_cons_self
          exact .plain hquote hescape hcontrol
            (ih fun octet hoctet => hplain octet (List.mem_cons_of_mem _ hoctet))
  | letter letter hletter hoctet => exact .letter (by rw [hletter]; rfl) hothers
  | unit hdigits hcharacter => exact .unit hdigits hothers

/-! ## Texts -/

theorem encode_escape_cons (c : Char) (text : List Char) :
    Utf8.encode (escape (c :: text)) = Utf8.encode (escapeChar c) ++ Utf8.encode (escape text) := by
  simp [Utf8.encode, escape]

/-- What is written for a text is well-formed between quotes. -/
theorem isQuoted_escape (text : List Char) : IsQuoted (Utf8.encode (escape text)) := by
  induction text with
  | nil => exact .nil
  | cons c text ih =>
      rw [encode_escape_cons]
      exact (quotes_escapeChar c).isQuoted ih

theorem unescapeOnto_plain {octets rest before : List UInt8} {rounds : Nat}
    (hplain : ∀ octet ∈ octets, octet ≠ 0x5C) :
    unescapeOnto (rounds + octets.length) before (octets ++ rest) =
      unescapeOnto rounds (octets.reverse ++ before) rest := by
  induction octets generalizing before with
  | nil => rfl
  | cons octet others ih =>
      have hescape := hplain octet List.mem_cons_self
      have hround : unescapeOnto (rounds + (octet :: others).length) before
          (octet :: others ++ rest) =
          unescapeOnto (rounds + others.length) (octet :: before) (others ++ rest) := by
        rw [unescapeOnto.eq_def]
        exact if_pos hescape
      rw [hround, ih fun octet hoctet => hplain octet (List.mem_cons_of_mem _ hoctet)]
      simp

theorem unescapeOnto_letter {letter octet : UInt8} {rest before : List UInt8} {rounds : Nat}
    (hletter : letterEscape? letter = some octet) :
    unescapeOnto (rounds + 1) before (0x5C :: letter :: rest) =
      unescapeOnto rounds (octet :: before) rest := by
  have hunit : letter ≠ 0x75 := by
    rintro rfl
    cases hletter
  rw [unescapeOnto.eq_def]
  simp [hunit, hletter]

theorem unescapeOnto_unit {rest before others : List UInt8} {c : Char} {rounds : Nat}
    (hcharacter : unitEscape? rest = some (c, others)) :
    unescapeOnto (rounds + 1) before (0x5C :: 0x75 :: rest) =
      unescapeOnto rounds ((String.utf8EncodeChar c).reverse ++ before) others := by
  rw [unescapeOnto.eq_def]
  simp [hcharacter]

/-- A quoted character is resolved, in as many rounds as it has octets or fewer. -/
theorem Quotes.resolved {octets rest : List UInt8} {c : Char} {rounds : Nat}
    (hquotes : Quotes octets c) (hrounds : (octets ++ rest).length ≤ rounds)
    (before : List UInt8) :
    ∃ fewer, rest.length ≤ fewer ∧ unescapeOnto rounds before (octets ++ rest) =
      unescapeOnto fewer ((String.utf8EncodeChar c).reverse ++ before) rest := by
  rw [List.length_append] at hrounds
  cases hquotes with
  | plain hoctets hplain =>
      obtain ⟨fewer, rfl⟩ := Nat.exists_eq_add_of_le' (m := octets.length) (n := rounds) (by omega)
      refine ⟨fewer, by omega, ?_⟩
      rw [unescapeOnto_plain fun octet hoctet => (hplain octet hoctet).2.1, hoctets]
  | letter letter hletter hoctet =>
      simp only [List.length_cons, List.length_nil] at hrounds
      obtain ⟨fewer, rfl⟩ := Nat.exists_eq_add_of_le' (m := 1) (n := rounds) (by omega)
      refine ⟨fewer, by omega, ?_⟩
      rw [← hoctet]
      exact unescapeOnto_letter hletter
  | unit hdigits hcharacter =>
      simp only [List.length_cons, List.length_nil] at hrounds
      obtain ⟨fewer, rfl⟩ := Nat.exists_eq_add_of_le' (m := 1) (n := rounds) (by omega)
      exact ⟨fewer, by omega, unescapeOnto_unit (hcharacter rest)⟩

theorem unescapeOnto_escape {before : List UInt8} {rounds : Nat} (text : List Char)
    (hrounds : (Utf8.encode (escape text)).length ≤ rounds) :
    unescapeOnto rounds before (Utf8.encode (escape text)) =
      some (before.reverse ++ Utf8.encode text) := by
  induction text generalizing before rounds with
  | nil =>
      cases rounds <;> simp [escape, Utf8.encode, unescapeOnto]
  | cons c text ih =>
      rw [encode_escape_cons] at hrounds ⊢
      obtain ⟨fewer, hfewer, hround⟩ := (quotes_escapeChar c).resolved hrounds before
      rw [hround, ih hfewer]
      simp [Utf8.encode]

/-- What is written for a text is resolved to that text. -/
theorem unescape?_escape (text : String) :
    unescape? (Utf8.encode (escape text.toList)) = some text := by
  simp [unescape?, unescapeOnto_escape, Utf8.decode?_encode]

end ClassCensus.Json
