import ClassCensus.Text.Utf8

/-!
# Modified UTF-8

The text form of class files spells each UTF-16 code unit on its own: a character outside the
first plane is a pair of units of three octets each, and the unit zero takes two octets so that no
octet is zero.  `encode` and `decode?` are that form.  `read` is what the library makes of the
octets of a constant: many tools write plain UTF-8 there, so that is tried first, and octets that
are neither are read as damaged UTF-8.
-/

namespace ClassCensus.ModifiedUtf8

/-- The UTF-16 code units of a character. -/
def units (character : Char) : List Nat :=
  let code := character.toNat
  if code < 0x10000 then [code]
  else [0xD800 + (code - 0x10000) / 0x400, 0xDC00 + (code - 0x10000) % 0x400]

/-- The octets of a code unit. -/
def encodeUnit (unit : Nat) : List UInt8 :=
  if unit = 0 then [0xC0, 0x80]
  else if unit < 0x80 then [UInt8.ofNat unit]
  else if unit < 0x800 then [UInt8.ofNat (0xC0 + unit / 64), UInt8.ofNat (0x80 + unit % 64)]
  else
    [UInt8.ofNat (0xE0 + unit / 4096), UInt8.ofNat (0x80 + unit / 64 % 64),
      UInt8.ofNat (0x80 + unit % 64)]

def encode (text : List Char) : List UInt8 :=
  text.flatMap fun character => (units character).flatMap encodeUnit

/-- The octets that may follow the first one of a unit. -/
def isTail (octet : UInt8) : Bool :=
  0x80 ≤ octet && octet < 0xC0

/-- Reads code units behind those read before, the latest first. -/
def unitsOnto (before : List Nat) : List UInt8 → Option (List Nat)
  | [] => some before.reverse
  | first :: rest =>
    if 0x00 < first ∧ first < 0x80 then unitsOnto (first.toNat :: before) rest
    else match rest with
    | [] => none
    | second :: rest =>
      if ¬ isTail second then none
      else if first = 0xC0 ∧ second = 0x80 then unitsOnto (0 :: before) rest
      else if 0xC2 ≤ first ∧ first < 0xE0 then
        unitsOnto (((first.toNat - 0xC0) * 64 + (second.toNat - 0x80)) :: before) rest
      else if 0xE0 ≤ first ∧ first < 0xF0 then
        match rest with
        | [] => none
        | third :: rest =>
          let unit :=
            (first.toNat - 0xE0) * 4096 + (second.toNat - 0x80) * 64 + (third.toNat - 0x80)
          if isTail third ∧ 0x800 ≤ unit then unitsOnto (unit :: before) rest else none
      else none

/-- Joins code units to characters behind those joined before, the latest first. -/
def joinOnto (before : List Char) : List Nat → Option (List Char)
  | [] => some before.reverse
  | unit :: rest =>
    if unit < 0xD800 ∨ 0xE000 ≤ unit then joinOnto (Char.ofNat unit :: before) rest
    else if 0xDC00 ≤ unit then none
    else match rest with
    | [] => none
    | low :: rest =>
      if 0xDC00 ≤ low ∧ low < 0xE000 then
        let code := 0x10000 + (unit - 0xD800) * 0x400 + (low - 0xDC00)
        joinOnto (Char.ofNat code :: before) rest
      else none

/-- The text that octets spell, if every unit is well-formed and surrogates come in pairs. -/
def decode? (octets : List UInt8) : Option (List Char) := do
  joinOnto [] (← unitsOnto [] octets)

/-- The text of a constant: plain UTF-8 if the octets are that, else modified UTF-8, else UTF-8
with the damaged places replaced. -/
def read (octets : List UInt8) : String :=
  String.ofList <|
    match Utf8.decode? octets with
    | some text => text
    | none => (decode? octets).getD (Utf8.decodeLossy octets)

end ClassCensus.ModifiedUtf8
