import ClassCensus.Json.Basic
import ClassCensus.Json.Quoted

/-!
# Reading JSON

A document is one value with nothing but blanks around it.  Reading checks the form of the whole
document and leaves the strings as they are quoted.  Values nest, so their readers carry a budget:
starting a value and starting an item or member each cost one unit, and `Json.parse?` provides two
for every octet.
-/

namespace ClassCensus.Json

/-- Blank, tab, line feed and carriage return. -/
def isBlank (octet : UInt8) : Bool :=
  octet == 0x20 || octet == 0x09 || octet == 0x0A || octet == 0x0D

def skipBlanks (octets : List UInt8) : List UInt8 := octets.dropWhile isBlank

def behind? (word : String) (octets : List UInt8) : Option (List UInt8) :=
  let word := word.toList.map fun c => UInt8.ofNat c.toNat
  if word.isPrefixOf octets then some (octets.drop word.length) else none

def isDigit (octet : UInt8) : Bool := 0x30 ≤ octet && octet ≤ 0x39

/-- The digits at the front, and what is behind them. -/
def digits (octets : List UInt8) : List UInt8 × List UInt8 :=
  (octets.takeWhile isDigit, octets.dropWhile isDigit)

/-- The digits at the front, of which there must be one. -/
def someDigits? (octets : List UInt8) : Option (List UInt8 × List UInt8) :=
  let (found, rest) := digits octets
  if found.isEmpty then none else some (found, rest)

/-- The whole part of a number: zero alone, or digits that do not start with zero. -/
def wholePart? (octets : List UInt8) : Option (List UInt8 × List UInt8) :=
  match octets with
  | 0x30 :: rest => some ([0x30], rest)
  | octets => someDigits? octets

/-- The fraction of a number, if it has one. -/
def fraction? (octets : List UInt8) : Option (List UInt8 × List UInt8) :=
  match octets with
  | 0x2E :: rest => do
    let (found, rest) ← someDigits? rest
    return (0x2E :: found, rest)
  | octets => some ([], octets)

/-- The exponent of a number, if it has one. -/
def exponent? (octets : List UInt8) : Option (List UInt8 × List UInt8) :=
  match octets with
  | [] => some ([], [])
  | first :: rest =>
    if first = 0x65 ∨ first = 0x45 then
      match rest with
      | [] => none
      | sign :: digits =>
        if sign = 0x2B ∨ sign = 0x2D then do
          let (found, rest) ← someDigits? digits
          return (first :: sign :: found, rest)
        else do
          let (found, rest) ← someDigits? rest
          return (first :: found, rest)
    else some ([], octets)

def number? (octets : List UInt8) : Option (String × List UInt8) := do
  let (sign, rest) : List UInt8 × List UInt8 :=
    match octets with
    | 0x2D :: rest => ([0x2D], rest)
    | octets => ([], octets)
  let (whole, rest) ← wholePart? rest
  let (fraction, rest) ← fraction? rest
  let (exponent, rest) ← exponent? rest
  let written := sign ++ whole ++ fraction ++ exponent
  return (String.ofList (written.map fun octet => Char.ofNat octet.toNat), rest)

/-- The octets up to the closing quote behind those read before, the latest first.  Control
characters are refused, and so are escapes that are not well-formed. -/
def quotedOnto (before : List UInt8) : List UInt8 → Option (Quoted × List UInt8)
  | [] => none
  | first :: rest =>
    if first = 0x22 then some (before.reverse, rest)
    else if first < 0x20 then none
    else if first ≠ 0x5C then quotedOnto (first :: before) rest
    else match rest with
    | [] => none
    | letter :: rest =>
      if letter = 0x75 then
        match rest with
        | a :: b :: c :: d :: rest =>
          if [a, b, c, d].all fun digit => (hexValue? digit).isSome then
            quotedOnto (d :: c :: b :: a :: letter :: first :: before) rest
          else none
        | _ => none
      else if (letterEscape? letter).isSome then quotedOnto (letter :: first :: before) rest
      else none

def string? (octets : List UInt8) : Option (Quoted × List UInt8) :=
  match octets with
  | 0x22 :: rest => quotedOnto [] rest
  | _ => none

mutual

/-- A value, and what is behind it. -/
def value? : (budget : Nat) → List UInt8 → Option (Json Quoted × List UInt8)
  | 0, _ => none
  | budget + 1, octets =>
    match octets with
    | 0x6E :: _ => do return (.null, ← behind? "null" octets)
    | 0x74 :: _ => do return (.bool true, ← behind? "true" octets)
    | 0x66 :: _ => do return (.bool false, ← behind? "false" octets)
    | 0x22 :: _ => do
      let (text, rest) ← string? octets
      return (.string text, rest)
    | 0x5B :: rest =>
      match skipBlanks rest with
      | 0x5D :: rest => some (.array [], rest)
      | rest => do
        let (items, rest) ← items? budget [] rest
        return (.array items, rest)
    | 0x7B :: rest =>
      match skipBlanks rest with
      | 0x7D :: rest => some (.object [], rest)
      | rest => do
        let (members, rest) ← members? budget [] rest
        return (.object members, rest)
    | _ => do
      let (text, rest) ← number? octets
      return (.number text, rest)

/-- The items up to the closing bracket behind those read before, the latest first. -/
def items? : (budget : Nat) → (before : List (Json Quoted)) → List UInt8 →
    Option (List (Json Quoted) × List UInt8)
  | 0, _, _ => none
  | budget + 1, before, octets => do
    let (item, rest) ← value? budget octets
    match skipBlanks rest with
    | 0x2C :: rest => items? budget (item :: before) (skipBlanks rest)
    | 0x5D :: rest => some ((item :: before).reverse, rest)
    | _ => none

/-- The members up to the closing bracket behind those read before, the latest first. -/
def members? : (budget : Nat) → (before : List (Quoted × Json Quoted)) → List UInt8 →
    Option (List (Quoted × Json Quoted) × List UInt8)
  | 0, _, _ => none
  | budget + 1, before, octets => do
    let (name, rest) ← string? octets
    match skipBlanks rest with
    | 0x3A :: rest => do
      let (value, rest) ← value? budget (skipBlanks rest)
      match skipBlanks rest with
      | 0x2C :: rest => members? budget ((name, value) :: before) (skipBlanks rest)
      | 0x7D :: rest => some (((name, value) :: before).reverse, rest)
      | _ => none
    | _ => none

end

/-- The value of a document. -/
def parse? (document : List UInt8) : Option (Json Quoted) := do
  let (value, rest) ← value? (2 * document.length + 2) (skipBlanks document)
  if (skipBlanks rest).isEmpty then some value else none

end ClassCensus.Json
