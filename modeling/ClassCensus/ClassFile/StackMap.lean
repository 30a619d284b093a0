/-!
# Stack maps

The frames of a `StackMapTable`.  Each kind of frame has a short form, in which the tag carries
a number, or a form in which the number is written out; the frame is the same.
-/

namespace ClassCensus

/-- The type that the verifier gives to a local variable or a stack entry.  An object has the index
of its class; one that is not yet initialized has the offset of the instruction that made it. -/
inductive VerificationType where
  | top | integer | float | double | long | null | uninitializedThis
  | object (index : UInt16)
  | uninitialized (offset : UInt16)
  deriving Repr, DecidableEq

/-- A frame: what has changed since the one before, which lies `delta` behind.  The stack is empty
unless its entries are given. -/
inductive StackMapFrame where
  | same (delta : UInt16)
  | sameLocals (delta : UInt16) (stack : VerificationType)
  | chop (delta : UInt16) (count : UInt8)
  | append (delta : UInt16) (locals : List VerificationType)
  | full (delta : UInt16) (locals stack : List VerificationType)
  deriving Repr, DecidableEq

end ClassCensus
