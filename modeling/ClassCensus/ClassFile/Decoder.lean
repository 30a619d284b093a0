import ClassCensus.ClassFile.Attribute.Decoder
import ClassCensus.ClassFile.Basic
import ClassCensus.Constant.Decoder
import ClassCensus.Signature.Mentions

/-!
# Decoding class files

A class file is decoded in three stages: the header, the constant pool and the body.  The
descriptors and signatures met in the body are what the referenced classes are taken from, next to
the `Class` entries of the pool.
-/

namespace ClassCensus.Decoder

/-- Takes the magic number and the version.  Nothing behind a wrong magic number is taken. -/
def magicAndVersion : Decoder ClassVersion := do
  let magic ← u4
  if magic ≠ classFileMagic then throw (.notAClassFile magic)
  let minor ← u2
  let major ← u2
  return ⟨major, minor⟩

def header : Decoder ClassVersion := located magicAndVersion

/-- Takes the parts of a member: its flags, its name, its descriptor and its attributes. -/
def member (tables : Tables) (make : UInt16 → String → String → List Attribute → α) :
    Decoder α := do
  let flags ← u2
  let name ← textAt tables
  let descriptor ← descriptorAt tables
  return make flags name descriptor (← table (attributeEntry tables))

def field (tables : Tables) : Decoder Field := member tables Field.mk

def method (tables : Tables) : Decoder Method := member tables Method.mk

/-- Takes the parts of a class file behind its constant pool. -/
def classParts (version : ClassVersion) (tables : Tables) : Decoder ClassFile := do
  let flags ← u2
  let thisClass ← classNameAt tables
  let superClass ← optionalClassNameAt tables
  let interfaces ← classNames tables
  let fields ← table (field tables)
  let methods ← table (method tables)
  let attributes ← table (attributeEntry tables)
  return ⟨version, flags, thisClass, superClass, interfaces, fields, methods, attributes⟩

/-- Takes what follows the constant pool. -/
def classBody (version : ClassVersion) (tables : Tables) : Decoder ClassFile :=
  located (classParts version tables)

end ClassCensus.Decoder

namespace ClassCensus

/-- The classes mentioned by the descriptors and signatures that were met. -/
def Cursor.mentioned (cursor : Cursor) : ClassNames :=
  .ofList (cursor.met.flatMap mentionedClasses)

end ClassCensus
