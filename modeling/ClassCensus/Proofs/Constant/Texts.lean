import ClassCensus.Proofs.Constant.Layout
import ClassCensus.Proofs.Text.ModifiedUtf8

/-!
# Texts of constants

A text in a constant pool is a run of octets behind its length.  The run is taken as a whole,
whatever its octets are, and a text is read back from either of the two forms that spell it.
-/

namespace ClassCensus.Decoder

/-- What a decoder reads that meets nothing is all that it changes a cursor by. -/
theorem Reads.eq_ok_of_silent {α : Type} {decoder : Decoder α} {octets : List UInt8} {value : α}
    (hreads : Reads decoder octets value) (hsilent : Silent decoder) (rest : List UInt8)
    (position : Nat) (met : List String) :
    decoder ⟨octets ++ rest, position, met⟩ =
      .ok value ⟨rest, position + octets.length, met⟩ := by
  obtain ⟨more, hdecoder⟩ := hreads rest position met
  obtain ⟨taken, _, -, hpasses, rfl⟩ := (hsilent fun _ => True).ok hdecoder
  have hmet : more ++ met = met := hpasses.met
  rwa [hmet] at hdecoder

/-- A run of octets behind its length is taken as one text, whatever follows it.  The text is the
one that the octets spell in modified UTF-8, or in plain UTF-8, if there is one; it has
replacement characters only if there is none in either form. -/
theorem text_recovers_spelled (octets rest : List UInt8) (position : Nat) (met : List String)
    (hlength : octets.length ≤ 65535) :
    ∃ found : String,
      text ⟨bigEndian 2 octets.length ++ octets ++ rest, position, met⟩ =
        .ok found ⟨rest, position + (2 + octets.length), met⟩ ∧
      (∀ spelled : String, octets = ModifiedUtf8.encode spelled.toList ∨
        octets = Utf8.encode spelled.toList → found = spelled) ∧
      ((∀ spelled : List Char, octets ≠ ModifiedUtf8.encode spelled ∧
        octets ≠ Utf8.encode spelled) → found = String.ofList (Utf8.decodeLossy octets)) := by
  refine ⟨ModifiedUtf8.read octets, ?_, ?_, ModifiedUtf8.read_of_ne⟩
  · have hreads := reads_text (Nat.lt_succ_of_le hlength)
    have hdecoder := hreads.eq_ok_of_silent silent_text rest position met
    rwa [List.length_append, length_bigEndian] at hdecoder
  · rintro spelled (rfl | rfl)
    · exact ModifiedUtf8.read_encode spelled
    · exact ModifiedUtf8.read_utf8 spelled

/-- A character that is spelled as a pair of surrogates, and one with code zero, are read back. -/
theorem text_recovers_spelled_surrogates :
    text ⟨[0x00, 0x09, 0x61, 0xC0, 0x80, 0xED, 0xA0, 0xBD, 0xED, 0xB8, 0x80, 0x2A], 5, []⟩ =
      .ok (String.ofList ['a', Char.ofNat 0, '😀']) ⟨[0x2A], 16, []⟩ := by
  obtain ⟨found, htext, hspelled, -⟩ :=
    text_recovers_spelled [0x61, 0xC0, 0x80, 0xED, 0xA0, 0xBD, 0xED, 0xB8, 0x80] [0x2A] 5 []
      (by decide)
  have hfound := hspelled (String.ofList ['a', Char.ofNat 0, '😀']) (.inl (by decide))
  rw [hfound] at htext
  exact htext

end ClassCensus.Decoder
