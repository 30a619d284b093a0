import ClassCensus.ClassFile.Annotations
import ClassCensus.ClassFile.Tables

/-!
# Decoding annotations

The types of annotations, of enum constants and of class literals are met as descriptors.
Decoders of values that nest take a depth that bounds the nesting; `Decoder.deep` supplies it.
-/

namespace ClassCensus.Decoder

/-- The tags of constants among element values: the primitive types and strings. -/
def constantTags : List UInt8 := [0x42, 0x43, 0x44, 0x46, 0x49, 0x4A, 0x53, 0x5A, 0x73]

/-- Takes the index of a descriptor, meets it and answers it. -/
def descriptorAt (tables : Tables) : Decoder String := do
  let descriptor ← textAt tables
  meet descriptor
  return descriptor

/-- Takes the type of an annotation and its elements. -/
def annotationUseOf (tables : Tables) (value : Decoder ElementValue) : Decoder AnnotationUse := do
  let type ← descriptorAt tables
  let elements ← table do
    let name ← textAt tables
    return (name, ← value)
  return ⟨type, elements⟩

/-- Takes an element value; `value` takes the values that nest in it. -/
def elementValueOf (tables : Tables) (value : Decoder ElementValue) : Decoder ElementValue := do
  let tag ← u1
  if constantTags.contains tag then
    return .constant (Char.ofNat tag.toNat) (← u2)
  else if tag = 0x65 then do
    let typeIndex ← u2
    let name ← textAt tables
    let type := tables.pool.textOrEmpty typeIndex
    meet type
    return .enumConstant type name
  else if tag = 0x63 then
    return .classLiteral (← descriptorAt tables)
  else if tag = 0x40 then do
    let found ← annotationUseOf tables value
    return .nested found.type found.elements
  else if tag = 0x5B then
    return .array (← table value)
  else throw (.unknownElementTag tag)

/-- Takes an element value that nests at most `depth` deep. -/
def elementValueIn (tables : Tables) : (depth : Nat) → Decoder ElementValue
  | 0 => throw .numberCutShort
  | depth + 1 => elementValueOf tables (elementValueIn tables depth)

def elementValue (tables : Tables) : Decoder ElementValue := deep (elementValueIn tables)

def annotationUse (tables : Tables) : Decoder AnnotationUse :=
  deep fun depth => annotationUseOf tables (elementValueIn tables depth)

def annotations (tables : Tables) : Decoder (List AnnotationUse) :=
  deep fun depth => table (annotationUseOf tables (elementValueIn tables depth))

def parameterAnnotations (tables : Tables) : Decoder (List (List AnnotationUse)) :=
  deep fun depth => shortTable (table (annotationUseOf tables (elementValueIn tables depth)))

def localRange : Decoder LocalRange := do
  return ⟨← u2, ← u2, ← u2⟩

/-- Takes the target that a target type announces. -/
def annotationTarget (type : UInt8) : Decoder AnnotationTarget :=
  if type ≤ 0x01 then return .typeParameter (← u1)
  else if type = 0x10 then return .superType (← u2)
  else if type = 0x11 ∨ type = 0x12 then return .typeParameterBound (← u1) (← u1)
  else if 0x13 ≤ type ∧ type ≤ 0x15 then return .empty
  else if type = 0x16 then return .formalParameter (← u1)
  else if type = 0x17 then return .throwsClause (← u2)
  else if type = 0x40 ∨ type = 0x41 then return .localVariable (← table localRange)
  else if type = 0x42 then return .catchClause (← u2)
  else if 0x43 ≤ type ∧ type ≤ 0x46 then return .offset (← u2)
  else if 0x47 ≤ type ∧ type ≤ 0x4B then return .typeArgument (← u2) (← u1)
  else throw (.unknownTargetType type)

/-- Takes a step of a type path.  Only a step to a type argument has an argument. -/
def typePathStep : Decoder TypePathStep := do
  let kind ← u1
  let argument ← u1
  if kind = 3 then return .typeArgument argument
  else if argument ≠ 0 then throw (.unknownPathKind kind)
  else if kind = 0 then return .array
  else if kind = 1 then return .nested
  else if kind = 2 then return .bound
  else throw (.unknownPathKind kind)

def typeAnnotationUseOf (use : Decoder AnnotationUse) : Decoder TypeAnnotationUse := do
  let type ← u1
  let target ← annotationTarget type
  let path ← shortTable typePathStep
  return ⟨type, target, path, ← use⟩

def typeAnnotationUse (tables : Tables) : Decoder TypeAnnotationUse :=
  deep fun depth => typeAnnotationUseOf (annotationUseOf tables (elementValueIn tables depth))

def typeAnnotations (tables : Tables) : Decoder (List TypeAnnotationUse) :=
  deep fun depth =>
    table (typeAnnotationUseOf (annotationUseOf tables (elementValueIn tables depth)))

end ClassCensus.Decoder
