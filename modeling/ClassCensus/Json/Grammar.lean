import ClassCensus.Json.Parser

/-!
# Texts of JSON values

Which octets spell a JSON value.  Blanks may stand around every value, and around the marks between
items and members; they are no part of the value, so a value has many texts.  Strings are kept as
they are quoted; what is written for a value of texts spells the value of its quoted texts.
-/

namespace ClassCensus.Json

/-- The octets of a text of ASCII characters. -/
def ascii (text : String) : List UInt8 := text.toList.map fun c => UInt8.ofNat c.toNat

def AreBlanks (octets : List UInt8) : Prop := ∀ octet ∈ octets, isBlank octet = true

/-- That octets are digits, of which there is one. -/
def AreDigits (octets : List UInt8) : Prop :=
  octets ≠ [] ∧ ∀ octet ∈ octets, isDigit octet = true

/-- The whole part of a number. -/
inductive IsWhole : List UInt8 → Prop
  | zero : IsWhole [0x30]
  | digits {first : UInt8} {others : List UInt8} : first ≠ 0x30 → AreDigits (first :: others) →
    IsWhole (first :: others)

/-- The fraction of a number. -/
inductive IsFraction : List UInt8 → Prop
  | none : IsFraction []
  | digits {digits : List UInt8} : AreDigits digits → IsFraction (0x2E :: digits)

/-- The exponent of a number. -/
inductive IsExponent : List UInt8 → Prop
  | none : IsExponent []
  | digits {letter : UInt8} {digits : List UInt8} : letter = 0x65 ∨ letter = 0x45 →
    AreDigits digits → IsExponent (letter :: digits)
  | signed {letter sign : UInt8} {digits : List UInt8} : letter = 0x65 ∨ letter = 0x45 →
    sign = 0x2B ∨ sign = 0x2D → AreDigits digits → IsExponent (letter :: sign :: digits)

inductive IsNumber : List UInt8 → Prop
  | plain {whole fraction exponent : List UInt8} : IsWhole whole → IsFraction fraction →
    IsExponent exponent → IsNumber (whole ++ (fraction ++ exponent))
  | negative {whole fraction exponent : List UInt8} : IsWhole whole → IsFraction fraction →
    IsExponent exponent → IsNumber (0x2D :: (whole ++ (fraction ++ exponent)))

/-- The text that the octets of a number spell. -/
def numberText (octets : List UInt8) : String :=
  String.ofList (octets.map fun octet => Char.ofNat octet.toNat)

/-- What may stand between quotes. -/
inductive IsQuoted : Quoted → Prop
  | nil : IsQuoted []
  | plain {octet : UInt8} {others : Quoted} : octet ≠ 0x22 → octet ≠ 0x5C → ¬ octet < 0x20 →
    IsQuoted others → IsQuoted (octet :: others)
  | letter {letter : UInt8} {others : Quoted} : (letterEscape? letter).isSome → IsQuoted others →
    IsQuoted (0x5C :: letter :: others)
  | unit {a b c d : UInt8} {others : Quoted} :
    ([a, b, c, d].all fun digit => (hexValue? digit).isSome) = true → IsQuoted others →
    IsQuoted (0x5C :: 0x75 :: a :: b :: c :: d :: others)

mutual

/-- That octets spell a value. -/
inductive Spells : List UInt8 → Json Quoted → Prop
  | null : Spells (ascii "null") .null
  | yes : Spells (ascii "true") (.bool true)
  | no : Spells (ascii "false") (.bool false)
  | number {octets : List UInt8} : IsNumber octets →
    Spells octets (.number (numberText octets))
  | string {text : Quoted} : IsQuoted text → Spells (0x22 :: (text ++ [0x22])) (.string text)
  | emptyArray {blanks : List UInt8} : AreBlanks blanks →
    Spells (0x5B :: (blanks ++ [0x5D])) (.array [])
  | array {blanks octets : List UInt8} {items : List (Json Quoted)} : AreBlanks blanks →
    SpellsItems octets items → Spells (0x5B :: (blanks ++ octets)) (.array items)
  | emptyObject {blanks : List UInt8} : AreBlanks blanks →
    Spells (0x7B :: (blanks ++ [0x7D])) (.object [])
  | object {blanks octets : List UInt8} {members : List (Quoted × Json Quoted)} :
    AreBlanks blanks → SpellsMembers octets members →
    Spells (0x7B :: (blanks ++ octets)) (.object members)

/-- That octets spell items up to the closing bracket. -/
inductive SpellsItems : List UInt8 → List (Json Quoted) → Prop
  | last {octets blanks : List UInt8} {item : Json Quoted} : Spells octets item →
    AreBlanks blanks → SpellsItems (octets ++ (blanks ++ [0x5D])) [item]
  | more {octets before behind others : List UInt8} {item : Json Quoted}
    {items : List (Json Quoted)} : Spells octets item → AreBlanks before → AreBlanks behind →
    SpellsItems others items →
    SpellsItems (octets ++ (before ++ 0x2C :: (behind ++ others))) (item :: items)

/-- That octets spell members up to the closing bracket. -/
inductive SpellsMembers : List UInt8 → List (Quoted × Json Quoted) → Prop
  | last {octets blanks : List UInt8} {member : Quoted × Json Quoted} :
    SpellsMember octets member → AreBlanks blanks →
    SpellsMembers (octets ++ (blanks ++ [0x7D])) [member]
  | more {octets before behind others : List UInt8} {member : Quoted × Json Quoted}
    {members : List (Quoted × Json Quoted)} : SpellsMember octets member → AreBlanks before →
    AreBlanks behind → SpellsMembers others members →
    SpellsMembers (octets ++ (before ++ 0x2C :: (behind ++ others))) (member :: members)

/-- That octets spell a member: its name and its value. -/
inductive SpellsMember : List UInt8 → Quoted × Json Quoted → Prop
  | mk {name : Quoted} {before behind octets : List UInt8} {value : Json Quoted} : IsQuoted name →
    AreBlanks before → AreBlanks behind → Spells octets value →
    SpellsMember (0x22 :: (name ++ 0x22 :: (before ++ 0x3A :: (behind ++ octets)))) (name, value)

end

/-- That octets spell a value with blanks around it. -/
inductive SpellsDocument : List UInt8 → Json Quoted → Prop
  | mk {before octets behind : List UInt8} {value : Json Quoted} : AreBlanks before →
    Spells octets value → AreBlanks behind →
    SpellsDocument (before ++ (octets ++ behind)) value

/-- A text as it is quoted. -/
def quoteText (text : String) : Quoted := Utf8.encode (escape text.toList)

mutual

/-- A value with its texts quoted. -/
def quote : Json String → Json Quoted
  | .null => .null
  | .bool value => .bool value
  | .number text => .number text
  | .string text => .string (quoteText text)
  | .array items => .array (quoteItems items)
  | .object members => .object (quoteMembers members)

def quoteItems : List (Json String) → List (Json Quoted)
  | [] => []
  | item :: items => item.quote :: quoteItems items

def quoteMembers : List (String × Json String) → List (Quoted × Json Quoted)
  | [] => []
  | (name, value) :: members => (quoteText name, value.quote) :: quoteMembers members

end

/-- That the numbers of a value are spelled as numbers. -/
inductive IsSpelled {σ : Type} : Json σ → Prop
  | null : IsSpelled .null
  | bool (value : Bool) : IsSpelled (.bool value)
  | number {octets : List UInt8} : IsNumber octets → IsSpelled (.number (numberText octets))
  | string (text : σ) : IsSpelled (.string text)
  | array {items : List (Json σ)} : (∀ item ∈ items, IsSpelled item) → IsSpelled (.array items)
  | object {members : List (σ × Json σ)} : (∀ member ∈ members, IsSpelled member.2) →
    IsSpelled (.object members)

end ClassCensus.Json
