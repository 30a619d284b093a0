import ClassCensus.ClassFile.StackMap
import ClassCensus.Octets.BigEndian

/-!
# Written stack maps

The format of stack maps as a relation between frames and octets: a frame may be written in more
than one way, and what is written stands for one frame only.
-/

namespace ClassCensus

def VerificationType.written : VerificationType → List UInt8
  | top => [0]
  | integer => [1]
  | float => [2]
  | double => [3]
  | long => [4]
  | null => [5]
  | uninitializedThis => [6]
  | object index => 7 :: bigEndian 2 index.toNat
  | uninitialized offset => 8 :: bigEndian 2 offset.toNat

namespace StackMapFrame

/-- Octets that are a way to write a frame.  In short forms the tag tells the delta, in the others
the delta follows the tag; a tag also tells how many locals are gone or added, which are at most
three. -/
inductive Written : StackMapFrame → List UInt8 → Prop where
  | shortSame (delta : UInt16) : delta < 64 → Written (same delta) [UInt8.ofNat delta.toNat]
  | longSame (delta : UInt16) : Written (same delta) (251 :: bigEndian 2 delta.toNat)
  | shortSameLocals (delta : UInt16) (stack : VerificationType) : delta < 64 →
    Written (sameLocals delta stack) (UInt8.ofNat (delta.toNat + 64) :: stack.written)
  | longSameLocals (delta : UInt16) (stack : VerificationType) :
    Written (sameLocals delta stack) (247 :: (bigEndian 2 delta.toNat ++ stack.written))
  | chop (delta : UInt16) (count : UInt8) : 1 ≤ count → count ≤ 3 →
    Written (chop delta count) ((251 - count) :: bigEndian 2 delta.toNat)
  | append (delta : UInt16) (locals : List VerificationType) : 1 ≤ locals.length →
    locals.length ≤ 3 →
    Written (append delta locals)
      (UInt8.ofNat (251 + locals.length) ::
        (bigEndian 2 delta.toNat ++ locals.flatMap VerificationType.written))
  | full (delta : UInt16) (locals stack : List VerificationType) : locals.length < 65536 →
    stack.length < 65536 →
    Written (full delta locals stack)
      (255 :: (bigEndian 2 delta.toNat ++ (writtenTable VerificationType.written locals ++
        writtenTable VerificationType.written stack)))

/-- Octets that are a way to write frames one after the other. -/
inductive WrittenList : List StackMapFrame → List UInt8 → Prop where
  | nil : WrittenList [] []
  | cons {frame : StackMapFrame} {frames : List StackMapFrame} {octets others : List UInt8} :
    Written frame octets → WrittenList frames others →
    WrittenList (frame :: frames) (octets ++ others)

/-- Octets that are a way to write a stack map. -/
def WrittenTable (frames : List StackMapFrame) (octets : List UInt8) : Prop :=
  frames.length < 65536 ∧
    ∃ body, WrittenList frames body ∧ octets = bigEndian 2 frames.length ++ body

/-- Octets that begin a frame and end where one of its verification types is to follow. -/
inductive AwaitsType : List UInt8 → Prop where
  | shortSameLocals (delta : UInt16) : delta < 64 → AwaitsType [UInt8.ofNat (delta.toNat + 64)]
  | longSameLocals (delta : UInt16) : AwaitsType (247 :: bigEndian 2 delta.toNat)
  | append (delta : UInt16) (count : Nat) (locals : List VerificationType) : count ≤ 3 →
    locals.length < count →
    AwaitsType (UInt8.ofNat (251 + count) ::
      (bigEndian 2 delta.toNat ++ locals.flatMap VerificationType.written))
  | fullLocals (delta count : UInt16) (locals : List VerificationType) :
    locals.length < count.toNat →
    AwaitsType (255 :: (bigEndian 2 delta.toNat ++
      (bigEndian 2 count.toNat ++ locals.flatMap VerificationType.written)))
  | fullStack (delta count : UInt16) (locals stack : List VerificationType) :
    locals.length < 65536 → stack.length < count.toNat →
    AwaitsType (255 :: (bigEndian 2 delta.toNat ++
      (writtenTable VerificationType.written locals ++
        (bigEndian 2 count.toNat ++ stack.flatMap VerificationType.written))))

end StackMapFrame

end ClassCensus
