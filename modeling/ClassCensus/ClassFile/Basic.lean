import ClassCensus.ClassFile.Attribute
import ClassCensus.Specification.Versions

/-!
# Class files

What a class file says behind its constant pool, with every index into the pool resolved.
-/

namespace ClassCensus

structure Field where
  flags : UInt16
  name : String
  descriptor : String
  attributes : List Attribute

namespace Field

def signature? (field : Field) : Option String :=
  field.attributes.findSome? Attribute.signature?

/-- The index of the constant that a field starts with. -/
def constantValue? (field : Field) : Option UInt16 :=
  field.attributes.findSome? Attribute.constantValue?

end Field

structure Method where
  flags : UInt16
  name : String
  descriptor : String
  attributes : List Attribute

namespace Method

def constructorName : String := "<init>"

def code? (method : Method) : Option (Code Attribute) :=
  method.attributes.findSome? Attribute.code?

def exceptions (method : Method) : List String :=
  (method.attributes.findSome? Attribute.exceptions?).getD []

def isConstructor (method : Method) : Bool := method.name == constructorName

end Method

/-- A class file behind its constant pool. -/
structure ClassFile where
  version : ClassVersion
  flags : UInt16
  thisClass : String
  superClass : Option String
  interfaces : List String
  fields : List Field
  methods : List Method
  attributes : List Attribute

namespace ClassFile

def signature? (classFile : ClassFile) : Option String :=
  classFile.attributes.findSome? Attribute.signature?

def sourceFile? (classFile : ClassFile) : Option String :=
  classFile.attributes.findSome? Attribute.sourceFile?

/-- The position of the first method with a name and a descriptor. -/
def methodPosition? (classFile : ClassFile) (name descriptor : String) : Option Nat :=
  classFile.methods.findIdx? fun method => method.name = name ∧ method.descriptor = descriptor

def method? (classFile : ClassFile) (name descriptor : String) : Option Method :=
  classFile.methods.find? fun method => method.name = name ∧ method.descriptor = descriptor

end ClassFile

end ClassCensus
