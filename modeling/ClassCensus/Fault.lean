import ClassCensus.Text.Hex

/-!
# Why reading a class file fails

Each cause is a constructor; the wording is one function, `Fault.message`.  Inside a body of
declared length the end of the body is `numberCutShort` or `runCutShort`; where the whole input
ends, `Fault.atOffset` turns either into `truncated`, which names the place.
-/

namespace ClassCensus

/-- Why octets could not be read as the structure expected of them.  The offset of `truncated` is
the number of octets in front of the end.  A path kind is unknown also if a step without an argument
has one. -/
inductive Fault where
  | notAClassFile (magic : UInt32)
  | truncated (offset : Nat)
  | unknownConstantTag (tag : UInt8) (index : UInt16)
  | unknownElementTag (tag : UInt8)
  | unknownVerificationTag (tag : UInt8)
  | unknownFrameType (type : UInt8)
  | unknownTargetType (type : UInt8)
  | unknownPathKind (kind : UInt8)
  | numberCutShort
  | runCutShort
  deriving Repr, DecidableEq

namespace Fault

/-- Names the place where the whole input ended; every other cause stays as it is. -/
def atOffset (offset : Nat) : Fault → Fault
  | numberCutShort | runCutShort => truncated offset
  | fault => fault

/-- How an octet is quoted: as the character of that code, escaped if it has no visible form. -/
def quotedOctet (octet : UInt8) : String :=
  let code := octet.toNat
  let shown :=
    if code = 0x00 then "\\0"
    else if code = 0x09 then "\\t"
    else if code = 0x0A then "\\n"
    else if code = 0x0D then "\\r"
    else if code = 0x27 then "\\'"
    else if code = 0x5C then "\\\\"
    else if code < 0x20 ∨ (0x7F ≤ code ∧ code ≤ 0xA0) ∨ code = 0xAD then
      "\\u\x7b" ++ Hex.digits code ++ "\x7d"
    else (Char.ofNat code).toString
  "'" ++ shown ++ "'"

def message : Fault → String
  | notAClassFile magic => "Invalid magic number 0x" ++ Hex.padded 8 magic.toNat
  | truncated offset => "Unexpected end of input at offset " ++ toString offset
  | unknownConstantTag tag index =>
    "Unknown constant pool tag " ++ toString tag.toNat ++ " at index " ++ toString index.toNat
  | unknownElementTag tag => "Unsupported element value tag " ++ quotedOctet tag
  | unknownVerificationTag tag =>
    "Unsupported verification type info tag " ++ toString tag.toNat
  | unknownFrameType type => "Unsupported stack map frame type " ++ toString type.toNat
  | unknownTargetType type => "Invalid target type 0x" ++ Hex.padded 2 type.toNat
  | unknownPathKind kind => "Invalid type path kind " ++ toString kind.toNat
  | numberCutShort => "Failed to read from buffer: failed to fill whole buffer"
  | runCutShort => "Failed to read from buffer: unexpected end of file"

end Fault

end ClassCensus
