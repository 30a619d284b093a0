import ClassCensus.ClassFile.Decoder

/-!
# Written class files

A class file behind its constant pool as it lies in the input: numbers, indices and attributes
whose bodies are not looked into.  `written` spells it, and `classFile` tells what it means with a
pool and a specification.
-/

namespace ClassCensus

namespace RawAttribute

def written (raw : RawAttribute) : List UInt8 :=
  bigEndian 2 raw.nameIndex.toNat ++ (bigEndian 4 raw.octets.length ++ raw.octets)

/-- Whether the length of the body can be written. -/
def Fits (raw : RawAttribute) : Prop := raw.octets.length < 4294967296

/-- What an attribute is. -/
def decoded (tables : Tables) (raw : RawAttribute) : Attribute := (raw.meaning tables).1

end RawAttribute

/-- A field or method as it lies in the input. -/
structure RawMember where
  flags : UInt16
  nameIndex : UInt16
  descriptorIndex : UInt16
  attributes : List RawAttribute
  deriving Repr, DecidableEq

namespace RawMember

def written (raw : RawMember) : List UInt8 :=
  bigEndian 2 raw.flags.toNat ++ (bigEndian 2 raw.nameIndex.toNat ++
    (bigEndian 2 raw.descriptorIndex.toNat ++ writtenTable RawAttribute.written raw.attributes))

def Fits (raw : RawMember) : Prop :=
  raw.attributes.length < 65536 ∧ ∀ found ∈ raw.attributes, found.Fits

def field (tables : Tables) (raw : RawMember) : Field :=
  ⟨raw.flags, tables.pool.textOrEmpty raw.nameIndex, tables.pool.textOrEmpty raw.descriptorIndex,
    raw.attributes.map (RawAttribute.decoded tables)⟩

def method (tables : Tables) (raw : RawMember) : Method :=
  ⟨raw.flags, tables.pool.textOrEmpty raw.nameIndex, tables.pool.textOrEmpty raw.descriptorIndex,
    raw.attributes.map (RawAttribute.decoded tables)⟩

end RawMember

/-- What follows the constant pool, as it lies in the input.  The index of the superclass is 0 if
there is none. -/
structure RawClassFile where
  flags : UInt16
  thisIndex : UInt16
  superIndex : UInt16
  interfaces : List UInt16
  fields : List RawMember
  methods : List RawMember
  attributes : List RawAttribute
  deriving Repr, DecidableEq

namespace RawClassFile

/-- The octets behind the constant pool. -/
def written (raw : RawClassFile) : List UInt8 :=
  bigEndian 2 raw.flags.toNat ++ (bigEndian 2 raw.thisIndex.toNat ++
    (bigEndian 2 raw.superIndex.toNat ++
      (writtenTable (fun index => bigEndian 2 index.toNat) raw.interfaces ++
        (writtenTable RawMember.written raw.fields ++ (writtenTable RawMember.written raw.methods ++
          writtenTable RawAttribute.written raw.attributes)))))

def Fits (raw : RawClassFile) : Prop :=
  raw.interfaces.length < 65536 ∧
    (raw.fields.length < 65536 ∧ ∀ found ∈ raw.fields, found.Fits) ∧
    (raw.methods.length < 65536 ∧ ∀ found ∈ raw.methods, found.Fits) ∧
    (raw.attributes.length < 65536 ∧ ∀ found ∈ raw.attributes, found.Fits)

/-- The class file that the octets stand for. -/
def classFile (version : ClassVersion) (tables : Tables) (raw : RawClassFile) : ClassFile :=
  ⟨version, raw.flags, tables.pool.classNameOrEmpty raw.thisIndex,
    tables.pool.optionalClassName raw.superIndex,
    raw.interfaces.map tables.pool.classNameOrEmpty, raw.fields.map (RawMember.field tables),
    raw.methods.map (RawMember.method tables),
    raw.attributes.map (RawAttribute.decoded tables)⟩

end RawClassFile

end ClassCensus
