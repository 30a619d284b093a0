/-!
# UTF-8

Octets are read as UTF-8 one at a time.  A character in progress owes further octets, and the
next of them has to lie in a range that keeps out overlong forms, surrogates and codes past the
last one.  An octet outside the range ends the character as damaged and is then read as a first
octet, so every damaged place is a longest beginning of a well-formed sequence, or one octet that
begins none.
-/

namespace ClassCensus.Utf8

/-- A character in progress: how many octets are owed, between which bounds the next one has to lie,
and the code as far as it is spelled. -/
structure Pending where
  owed : Nat
  low : Nat
  high : Nat
  code : Nat
  deriving Repr, DecidableEq

/-- Where reading stands: the characters so far, the latest first and `none` for a damaged one,
and the character in progress. -/
structure Reading where
  characters : List (Option Char)
  pending : Option Pending
  deriving Repr, DecidableEq

/-- Reads an octet at which a character may begin. -/
def begin (characters : List (Option Char)) (octet : UInt8) : Reading :=
  let n := octet.toNat
  if n < 0x80 then ⟨some (Char.ofNat n) :: characters, none⟩
  else if n < 0xC2 then ⟨none :: characters, none⟩
  else if n < 0xE0 then ⟨characters, some ⟨1, 0x80, 0xBF, n - 0xC0⟩⟩
  else if n = 0xE0 then ⟨characters, some ⟨2, 0xA0, 0xBF, 0x0⟩⟩
  else if n = 0xED then ⟨characters, some ⟨2, 0x80, 0x9F, 0xD⟩⟩
  else if n < 0xF0 then ⟨characters, some ⟨2, 0x80, 0xBF, n - 0xE0⟩⟩
  else if n = 0xF0 then ⟨characters, some ⟨3, 0x90, 0xBF, 0x0⟩⟩
  else if n < 0xF4 then ⟨characters, some ⟨3, 0x80, 0xBF, n - 0xF0⟩⟩
  else if n = 0xF4 then ⟨characters, some ⟨3, 0x80, 0x8F, 0x4⟩⟩
  else ⟨none :: characters, none⟩

/-- Reads one more octet. -/
def Reading.next (reading : Reading) (octet : UInt8) : Reading :=
  match reading.pending with
  | none => begin reading.characters octet
  | some pending =>
    let n := octet.toNat
    if pending.low ≤ n ∧ n ≤ pending.high then
      let code := pending.code * 64 + (n - 0x80)
      if pending.owed = 1 then ⟨some (Char.ofNat code) :: reading.characters, none⟩
      else ⟨reading.characters, some ⟨pending.owed - 1, 0x80, 0xBF, code⟩⟩
    else begin (none :: reading.characters) octet

/-- The characters at the end of the octets; one that still owes octets is damaged. -/
def Reading.finish (reading : Reading) : List (Option Char) :=
  match reading.pending with
  | none => reading.characters.reverse
  | some _ => (none :: reading.characters).reverse

/-- The characters that octets spell, with `none` in each damaged place. -/
def characters (octets : List UInt8) : List (Option Char) :=
  (octets.foldl Reading.next ⟨[], none⟩).finish

/-- The text that octets spell, if no place of it is damaged. -/
def decode? (octets : List UInt8) : Option (List Char) :=
  let found := characters octets
  if found.contains none then none else some (found.filterMap id)

/-- The text that octets spell, with the replacement character in each damaged place. -/
def decodeLossy (octets : List UInt8) : List Char :=
  (characters octets).map fun character => character.getD (Char.ofNat 0xFFFD)

def encode (text : List Char) : List UInt8 :=
  text.flatMap String.utf8EncodeChar

end ClassCensus.Utf8
