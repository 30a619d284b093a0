import ClassCensus.Zip.Codes

/-!
# Inflating compressed data

Compressed data is a row of blocks.  A block holds octets as they are, or words of codes that stand
for octets and for copies of what was written before; the codes are fixed or written at the start
of the block.  Data that ends before its last block does stands for nothing.
-/

namespace ClassCensus.Zip

/-- The lengths of copies by symbol: the least length, and how many bits are added to it. -/
def copyLengths : Array (Nat × Nat) :=
  #[
    (3, 0), (4, 0), (5, 0), (6, 0), (7, 0), (8, 0), (9, 0), (10, 0), (11, 1), (13, 1), (15, 1),
    (17, 1), (19, 2), (23, 2), (27, 2), (31, 2), (35, 3), (43, 3), (51, 3), (59, 3), (67, 4),
    (83, 4), (99, 4), (115, 4), (131, 5), (163, 5), (195, 5), (227, 5), (258, 0)
  ]

/-- The distances of copies by symbol: the least distance, and how many bits are added to it. -/
def copyDistances : Array (Nat × Nat) :=
  #[
    (1, 0), (2, 0), (3, 0), (4, 0), (5, 1), (7, 1), (9, 2), (13, 2), (17, 3), (25, 3), (33, 4),
    (49, 4), (65, 5), (97, 5), (129, 6), (193, 6), (257, 7), (385, 7), (513, 8), (769, 8),
    (1025, 9), (1537, 9), (2049, 10), (3073, 10), (4097, 11), (6145, 11), (8193, 12),
    (12289, 12), (16385, 13), (24577, 13)
  ]

/-- The symbol that ends a block. -/
def endOfBlock : Nat := 256

/-- The order in which the lengths of the words for lengths are written. -/
def lengthOrder : List Nat :=
  [16, 17, 18, 0, 8, 7, 9, 6, 10, 5, 11, 4, 12, 3, 13, 2, 14, 1, 15]

/-- The lengths of the fixed words for octets and copies. -/
def fixedLiteralLengths : List Nat :=
  List.replicate 144 8 ++ List.replicate 112 9 ++ List.replicate 24 7 ++ List.replicate 8 8

/-- The lengths of the fixed words for distances. -/
def fixedDistanceLengths : List Nat := List.replicate 32 5

/-- Writes `length` octets again that were written `distance` octets before. -/
def copyOnto (distance : Nat) : (length : Nat) → Array UInt8 → Array UInt8
  | 0, output => output
  | length + 1, output =>
    copyOnto distance length (output.push (output.getD (output.size - distance) 0))

namespace BitDecoder

/-- Takes the bits that are added to a row of a table. -/
def extended (rows : Array (Nat × Nat)) (symbol : Nat) : BitDecoder Nat :=
  match rows[symbol]? with
  | some (least, width) => do return least + (← bits width)
  | none => failure

/-- Takes the code of the given lengths, which is complete or trivial. -/
def codesOf (lengths : List Nat) : BitDecoder Codes :=
  let codes := Codes.ofLengths lengths
  if codes.isComplete || codes.isTrivial then return codes else failure

/-- Takes `count` lengths behind those taken before, the latest first.  Some symbols repeat the
length before or the length 0; every round takes one at least. -/
def lengthsOnto (codes : Codes) (count : Nat) :
    (rounds : Nat) → (before : List Nat) → BitDecoder (List Nat)
  | 0, before => return before.reverse
  | rounds + 1, before =>
    if before.length = count then return before.reverse
    else if count < before.length then failure
    else do
      let found ← symbol codes
      if found < 16 then lengthsOnto codes count rounds (found :: before)
      else if found = 16 then
        match before with
        | [] => failure
        | latest :: _ => do
          let times := 3 + (← bits 2)
          lengthsOnto codes count rounds (List.replicate times latest ++ before)
      else do
        let times ← if found = 17 then do pure (3 + (← bits 3)) else do pure (11 + (← bits 7))
        lengthsOnto codes count rounds (List.replicate times 0 ++ before)

/-- Takes the codes at the start of a block: one for octets and copies, one for distances. -/
def writtenCodes : BitDecoder (Codes × Codes) := do
  let literals := 257 + (← bits 5)
  let distances := 1 + (← bits 5)
  let count := 4 + (← bits 4)
  if 286 < literals ∨ 30 < distances then failure
  let written ← (lengthOrder.take count).mapM fun place => do return (place, ← bits 3)
  let lengths := (List.range 19).map fun place =>
    ((written.find? fun found => found.1 = place).map Prod.snd).getD 0
  let codes := Codes.ofLengths lengths
  if !codes.isComplete then failure
  let found ← lengthsOnto codes (literals + distances) (literals + distances + 1) []
  if found.getD endOfBlock 0 = 0 then failure
  return (← codesOf (found.take literals), ← codesOf (found.drop literals))

/-- Writes what the words of a block stand for.  Every round takes a bit. -/
def inflateWords (literals distances : Codes) :
    (rounds : Nat) → (output : Array UInt8) → BitDecoder (Array UInt8)
  | 0, _ => failure
  | rounds + 1, output => do
    let found ← symbol literals
    if found < endOfBlock then
      inflateWords literals distances rounds (output.push (UInt8.ofNat found))
    else if found = endOfBlock then return output
    else do
      let length ← extended copyLengths (found - 257)
      let distance ← extended copyDistances (← symbol distances)
      if output.size < distance then failure
      else inflateWords literals distances rounds (copyOnto distance length output)

/-- Writes a block of octets as they are. -/
def inflateStored (output : Array UInt8) : BitDecoder (Array UInt8) := do
  align
  let length ← bits 16
  let check ← bits 16
  if length + check = 0xFFFF then return output ++ (← octets length) else failure

/-- Writes what a block stands for. -/
def inflateBlock (kind : Nat) (output : Array UInt8) : BitDecoder (Array UInt8) := do
  if kind = 0 then inflateStored output
  else
    let (literals, distances) ←
      if kind = 1 then do
        pure (← codesOf fixedLiteralLengths, ← codesOf fixedDistanceLengths)
      else if kind = 2 then writtenCodes
      else failure
    inflateWords literals distances ((← get).size + 1) output

/-- Writes what the blocks from here on stand for.  Every round takes a bit. -/
def inflateBlocks : (rounds : Nat) → (output : Array UInt8) → BitDecoder (Array UInt8)
  | 0, _ => failure
  | rounds + 1, output => do
    let last ← bit
    let kind ← bits 2
    let output ← inflateBlock kind output
    if last = 1 then return output else inflateBlocks rounds output

end BitDecoder

/-- What compressed data stands for. -/
def inflate (data : Array UInt8) : Option (Array UInt8) :=
  let cursor : BitCursor := ⟨data, 0⟩
  ((BitDecoder.inflateBlocks (cursor.size + 1) #[]).run cursor).map Prod.fst

end ClassCensus.Zip
