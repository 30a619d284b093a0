/-!
# Access flags

Sixteen bits whose meaning depends on what they stand at.  Bits without a name are kept but never
named.
-/

namespace ClassCensus

/-- What access flags stand at. -/
inductive FlagHolder where
  | ofClass
  | ofInnerClass
  | ofField
  | ofMethod
  deriving Repr, DecidableEq

/-- The named bits of a holder, from the lowest to the highest.  That a class may be private is
set by some compilers, though only nested classes can be declared so. -/
def FlagHolder.named : FlagHolder → List (UInt16 × String)
  | .ofClass =>
    [(0x0001, "PUBLIC"), (0x0002, "PRIVATE"), (0x0010, "FINAL"), (0x0020, "SUPER"),
      (0x0200, "INTERFACE"), (0x0400, "ABSTRACT"), (0x1000, "SYNTHETIC"),
      (0x2000, "ANNOTATION"), (0x4000, "ENUM"), (0x8000, "MODULE")]
  | .ofInnerClass =>
    [(0x0001, "PUBLIC"), (0x0002, "PRIVATE"), (0x0004, "PROTECTED"), (0x0008, "STATIC"),
      (0x0010, "FINAL"), (0x0200, "INTERFACE"), (0x0400, "ABSTRACT"), (0x1000, "SYNTHETIC"),
      (0x2000, "ANNOTATION"), (0x4000, "ENUM")]
  | .ofField =>
    [(0x0001, "PUBLIC"), (0x0002, "PRIVATE"), (0x0004, "PROTECTED"), (0x0008, "STATIC"),
      (0x0010, "FINAL"), (0x0040, "VOLATILE"), (0x0080, "TRANSIENT"), (0x1000, "SYNTHETIC"),
      (0x4000, "ENUM")]
  | .ofMethod =>
    [(0x0001, "PUBLIC"), (0x0002, "PRIVATE"), (0x0004, "PROTECTED"), (0x0008, "STATIC"),
      (0x0010, "FINAL"), (0x0020, "SYNCHRONIZED"), (0x0040, "BRIDGE"), (0x0080, "VARARGS"),
      (0x0100, "NATIVE"), (0x0400, "ABSTRACT"), (0x0800, "STRICT"), (0x1000, "SYNTHETIC")]

def FlagHolder.flagNames (holder : FlagHolder) (bits : UInt16) : List String :=
  (holder.named.filter fun flag => bits &&& flag.1 ≠ 0).map Prod.snd

end ClassCensus
