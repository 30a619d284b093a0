import ClassCensus.Zip.Bits

/-!
# Prefix codes of compressed data

A code gives each symbol a word of bits, of which only the lengths are written down: the words
count upwards through the lengths and, within a length, through the symbols.  Reading a word adds
bit after bit until the word falls among those of its length.
-/

namespace ClassCensus.Zip

/-- A code: the symbols of each length from 1 on, in order. -/
abbrev Codes := List (Array Nat)

/-- The greatest length of a word. -/
def mostBits : Nat := 15

/-- The symbols whose words have a length. -/
def symbolsOfLength (lengths : List Nat) (length : Nat) : Array Nat :=
  (lengths.zipIdx.filterMap fun (found, symbol) =>
    if found = length then some symbol else none).toArray

/-- The code in which the symbols from 0 on have words of the given lengths, where 0 says that
there is none. -/
def Codes.ofLengths (lengths : List Nat) : Codes :=
  (List.range mostBits).map fun length => symbolsOfLength lengths (length + 1)

/-- How many words of the last length no word of a code starts, if no word starts another. -/
def Codes.spareWords? (codes : Codes) : Option Nat :=
  codes.foldlM
    (fun spare symbols =>
      if symbols.size ≤ 2 * spare then some (2 * spare - symbols.size) else none)
    1

/-- Whether the words of a code use up all words of bits, one to each. -/
def Codes.isComplete (codes : Codes) : Bool := codes.spareWords? == some 0

/-- Whether a code has no words, or only one, of one bit. -/
def Codes.isTrivial (codes : Codes) : Bool :=
  (codes.headD #[]).size ≤ 1 && codes.tail.all Array.isEmpty

namespace BitDecoder

/-- Takes a word of a code, of which `word` was taken; the words of the lengths to come start at
`first`. -/
def symbolFrom : Codes → (first word : Nat) → BitDecoder Nat
  | [], _, _ => failure
  | symbols :: codes, first, word => do
    let word := 2 * word + (← bit)
    let first := 2 * first
    match symbols[word - first]? with
    | some symbol => return symbol
    | none => symbolFrom codes (first + symbols.size) word

/-- Takes a word of a code and answers its symbol. -/
def symbol (codes : Codes) : BitDecoder Nat := symbolFrom codes 0 0

end BitDecoder

end ClassCensus.Zip
