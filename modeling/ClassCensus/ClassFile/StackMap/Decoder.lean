import ClassCensus.ClassFile.StackMap
import ClassCensus.Octets.Decoder

/-!
# Decoding stack maps

The tag of a frame tells its kind; tags from 128 to 246 are reserved and refused.
-/

namespace ClassCensus.Decoder

def verificationType : Decoder VerificationType := do
  let tag ← u1
  if tag = 0 then return .top
  else if tag = 1 then return .integer
  else if tag = 2 then return .float
  else if tag = 3 then return .double
  else if tag = 4 then return .long
  else if tag = 5 then return .null
  else if tag = 6 then return .uninitializedThis
  else if tag = 7 then return .object (← u2)
  else if tag = 8 then return .uninitialized (← u2)
  else throw (.unknownVerificationTag tag)

def stackMapFrame : Decoder StackMapFrame := do
  let type ← u1
  if type < 64 then return .same (UInt16.ofNat type.toNat)
  else if type < 128 then
    return .sameLocals (UInt16.ofNat (type.toNat - 64)) (← verificationType)
  else if type < 247 then throw (.unknownFrameType type)
  else if type = 247 then return .sameLocals (← u2) (← verificationType)
  else if type < 251 then return .chop (← u2) (251 - type)
  else if type = 251 then return .same (← u2)
  else if type < 255 then
    return .append (← u2) (← times (type.toNat - 251) verificationType)
  else return .full (← u2) (← table verificationType) (← table verificationType)

def stackMapFrames : Decoder (List StackMapFrame) := table stackMapFrame

end ClassCensus.Decoder
