import ClassCensus.ClassFile.Written

/-!
# Written attributes that nest others

The bodies of `Code` and `Record` attributes as they lie in the input.  The attributes that nest in
them are laid out without looking into them, like those of a class file.
-/

namespace ClassCensus

def ExceptionHandler.written (handler : ExceptionHandler) : List UInt8 :=
  bigEndian 2 handler.start.toNat ++ (bigEndian 2 handler.stop.toNat ++
    (bigEndian 2 handler.handler.toNat ++ bigEndian 2 handler.catchType.toNat))

/-- The body of a method as it lies in the input. -/
structure RawCode where
  maxStack : UInt16
  maxLocals : UInt16
  octets : List UInt8
  handlers : List ExceptionHandler
  attributes : List RawAttribute
  deriving Repr, DecidableEq

namespace RawCode

def written (raw : RawCode) : List UInt8 :=
  bigEndian 2 raw.maxStack.toNat ++ (bigEndian 2 raw.maxLocals.toNat ++
    (bigEndian 4 raw.octets.length ++ (raw.octets ++
      (writtenTable ExceptionHandler.written raw.handlers ++
        writtenTable RawAttribute.written raw.attributes))))

/-- Whether all counts and lengths can be written. -/
def Fits (raw : RawCode) : Prop :=
  raw.octets.length < 4294967296 ∧ raw.handlers.length < 65536 ∧
    (raw.attributes.length < 65536 ∧ ∀ found ∈ raw.attributes, found.Fits)

/-- The code that the octets stand for. -/
def code (tables : Tables) (raw : RawCode) : Code Attribute :=
  ⟨raw.maxStack, raw.maxLocals, Instruction.disassemble tables.specification raw.octets,
    raw.handlers, raw.attributes.map (RawAttribute.decoded tables)⟩

end RawCode

/-- A component of a record as it lies in the input. -/
structure RawRecordComponent where
  nameIndex : UInt16
  descriptorIndex : UInt16
  attributes : List RawAttribute
  deriving Repr, DecidableEq

namespace RawRecordComponent

def written (raw : RawRecordComponent) : List UInt8 :=
  bigEndian 2 raw.nameIndex.toNat ++ (bigEndian 2 raw.descriptorIndex.toNat ++
    writtenTable RawAttribute.written raw.attributes)

def Fits (raw : RawRecordComponent) : Prop :=
  raw.attributes.length < 65536 ∧ ∀ found ∈ raw.attributes, found.Fits

def component (tables : Tables) (raw : RawRecordComponent) : RecordComponent Attribute :=
  ⟨tables.pool.textOrEmpty raw.nameIndex, tables.pool.textOrEmpty raw.descriptorIndex,
    raw.attributes.map (RawAttribute.decoded tables)⟩

end RawRecordComponent

end ClassCensus
