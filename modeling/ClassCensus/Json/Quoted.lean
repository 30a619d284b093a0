import ClassCensus.Text.Hex
import ClassCensus.Text.Utf8

/-!
# Quoted text

What stands between the quotes of a JSON string.  `escape` writes a text; `unescape?` reads the
octets between two quotes, whose escapes are known to be well-formed, and refuses those that spell
half a surrogate pair or are not UTF-8.
-/

namespace ClassCensus.Json

/-- The octets between the quotes of a string, with their escapes. -/
abbrev Quoted := List UInt8

/-- How a character is written between quotes. -/
def escapeChar (c : Char) : List Char :=
  if c = '"' then ['\\', '"']
  else if c = '\\' then ['\\', '\\']
  else if c.toNat = 0x08 then ['\\', 'b']
  else if c.toNat = 0x0C then ['\\', 'f']
  else if c = '\n' then ['\\', 'n']
  else if c = '\r' then ['\\', 'r']
  else if c = '\t' then ['\\', 't']
  else if c.toNat < 0x20 then '\\' :: 'u' :: Hex.paddedDigits 4 c.toNat
  else [c]

def escape (text : List Char) : List Char := text.flatMap escapeChar

/-- The value of a hexadecimal digit in letters of either case. -/
def hexValue? (octet : UInt8) : Option Nat :=
  let n := octet.toNat
  if 0x30 ≤ n ∧ n ≤ 0x39 then some (n - 0x30)
  else if 0x41 ≤ n ∧ n ≤ 0x46 then some (n - 0x37)
  else if 0x61 ≤ n ∧ n ≤ 0x66 then some (n - 0x57)
  else none

/-- The number of four hexadecimal digits, and what follows them. -/
def hexUnit? : List UInt8 → Option (Nat × List UInt8)
  | a :: b :: c :: d :: rest => do
    let a ← hexValue? a
    let b ← hexValue? b
    let c ← hexValue? c
    let d ← hexValue? d
    return (((a * 16 + b) * 16 + c) * 16 + d, rest)
  | _ => none

/-- What an escape of one letter stands for. -/
def letterEscape? (letter : UInt8) : Option UInt8 :=
  if letter = 0x22 ∨ letter = 0x5C ∨ letter = 0x2F then some letter
  else if letter = 0x62 then some 0x08
  else if letter = 0x66 then some 0x0C
  else if letter = 0x6E then some 0x0A
  else if letter = 0x72 then some 0x0D
  else if letter = 0x74 then some 0x09
  else none

/-- The character of a unit escape, and what follows it.  The first half of a surrogate pair must
be followed by an escape of the second half. -/
def unitEscape? (octets : List UInt8) : Option (Char × List UInt8) := do
  let (unit, rest) ← hexUnit? octets
  if unit < 0xD800 ∨ 0xE000 ≤ unit then return (Char.ofNat unit, rest)
  else if 0xDC00 ≤ unit then none
  else match rest with
  | 0x5C :: 0x75 :: rest => do
    let (low, rest) ← hexUnit? rest
    if 0xDC00 ≤ low ∧ low < 0xE000 then
      return (Char.ofNat (0x10000 + (unit - 0xD800) * 0x400 + (low - 0xDC00)), rest)
    else none
  | _ => none

/-- Resolves the escapes of quoted octets behind those resolved before, the latest first.  Every
round takes an octet, so as many rounds as there are octets suffice. -/
def unescapeOnto : (rounds : Nat) → (before : List UInt8) → List UInt8 → Option (List UInt8)
  | _, before, [] => some before.reverse
  | 0, _, _ :: _ => none
  | rounds + 1, before, first :: rest =>
    if first ≠ 0x5C then unescapeOnto rounds (first :: before) rest
    else match rest with
    | [] => none
    | letter :: rest =>
      if letter = 0x75 then do
        let (character, rest) ← unitEscape? rest
        unescapeOnto rounds ((String.utf8EncodeChar character).reverse ++ before) rest
      else do
        let octet ← letterEscape? letter
        unescapeOnto rounds (octet :: before) rest

/-- The text of quoted octets, if they are one. -/
def unescape? (quoted : Quoted) : Option String := do
  let octets ← unescapeOnto quoted.length [] quoted
  return String.ofList (← Utf8.decode? octets)

end ClassCensus.Json
