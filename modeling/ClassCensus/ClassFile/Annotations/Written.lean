import ClassCensus.ClassFile.Annotations.Decoder

/-!
# Written annotations

Annotations as they lie in a class file, with indices in place of texts.  `written` spells them,
and `use` and `value` tell what they mean with a pool.
-/

namespace ClassCensus

/-- An element value as it lies in a class file. -/
inductive RawElementValue where
  | constant (tag : UInt8) (index : UInt16)
  | enumConstant (typeIndex nameIndex : UInt16)
  | classLiteral (index : UInt16)
  | nested (typeIndex : UInt16) (elements : List (UInt16 × RawElementValue))
  | array (values : List RawElementValue)

/-- An annotation as it lies in a class file. -/
structure RawAnnotationUse where
  typeIndex : UInt16
  elements : List (UInt16 × RawElementValue)

namespace RawElementValue

mutual

def written : RawElementValue → List UInt8
  | constant tag index => tag :: bigEndian 2 index.toNat
  | enumConstant typeIndex nameIndex =>
    0x65 :: (bigEndian 2 typeIndex.toNat ++ bigEndian 2 nameIndex.toNat)
  | classLiteral index => 0x63 :: bigEndian 2 index.toNat
  | nested typeIndex elements =>
    0x40 :: (bigEndian 2 typeIndex.toNat ++
      (bigEndian 2 elements.length ++ writtenElements elements))
  | array values => 0x5B :: (bigEndian 2 values.length ++ writtenValues values)

def writtenElements : List (UInt16 × RawElementValue) → List UInt8
  | [] => []
  | (nameIndex, value) :: elements =>
    bigEndian 2 nameIndex.toNat ++ (value.written ++ writtenElements elements)

def writtenValues : List RawElementValue → List UInt8
  | [] => []
  | value :: values => value.written ++ writtenValues values

end

mutual

/-- Whether the tags of constants are such tags and all counts can be written. -/
def Fits : RawElementValue → Prop
  | constant tag _ => tag ∈ Decoder.constantTags
  | enumConstant _ _ => True
  | classLiteral _ => True
  | nested _ elements => elements.length < 65536 ∧ ElementsFit elements
  | array values => values.length < 65536 ∧ ValuesFit values

def ElementsFit : List (UInt16 × RawElementValue) → Prop
  | [] => True
  | (_, value) :: elements => value.Fits ∧ ElementsFit elements

def ValuesFit : List RawElementValue → Prop
  | [] => True
  | value :: values => value.Fits ∧ ValuesFit values

end

mutual

/-- The element value that is meant. -/
def value (pool : ConstantPool) : RawElementValue → ElementValue
  | constant tag index => .constant (Char.ofNat tag.toNat) index
  | enumConstant typeIndex nameIndex =>
    .enumConstant (pool.textOrEmpty typeIndex) (pool.textOrEmpty nameIndex)
  | classLiteral index => .classLiteral (pool.textOrEmpty index)
  | nested typeIndex elements => .nested (pool.textOrEmpty typeIndex) (elementValues pool elements)
  | array values => .array (arrayValues pool values)

def elementValues (pool : ConstantPool) :
    List (UInt16 × RawElementValue) → List (String × ElementValue)
  | [] => []
  | (nameIndex, found) :: elements =>
    (pool.textOrEmpty nameIndex, found.value pool) :: elementValues pool elements

def arrayValues (pool : ConstantPool) : List RawElementValue → List ElementValue
  | [] => []
  | found :: values => found.value pool :: arrayValues pool values

end

end RawElementValue

namespace RawAnnotationUse

def written (raw : RawAnnotationUse) : List UInt8 :=
  bigEndian 2 raw.typeIndex.toNat ++ (bigEndian 2 raw.elements.length ++
    RawElementValue.writtenElements raw.elements)

def Fits (raw : RawAnnotationUse) : Prop :=
  raw.elements.length < 65536 ∧ RawElementValue.ElementsFit raw.elements

def use (pool : ConstantPool) (raw : RawAnnotationUse) : AnnotationUse :=
  ⟨pool.textOrEmpty raw.typeIndex, RawElementValue.elementValues pool raw.elements⟩

end RawAnnotationUse

namespace AnnotationTarget

def written : AnnotationTarget → List UInt8
  | typeParameter index => bigEndian 1 index.toNat
  | superType index => bigEndian 2 index.toNat
  | typeParameterBound parameter bound => bigEndian 1 parameter.toNat ++ bigEndian 1 bound.toNat
  | empty => []
  | formalParameter index => bigEndian 1 index.toNat
  | throwsClause index => bigEndian 2 index.toNat
  | localVariable ranges =>
    writtenTable (fun range => bigEndian 2 range.start.toNat ++
      (bigEndian 2 range.length.toNat ++ bigEndian 2 range.index.toNat)) ranges
  | catchClause index => bigEndian 2 index.toNat
  | offset place => bigEndian 2 place.toNat
  | typeArgument place index => bigEndian 2 place.toNat ++ bigEndian 1 index.toNat

/-- Whether a target is of the shape that a target type announces, and can be written. -/
def Suits (type : UInt8) : AnnotationTarget → Prop
  | typeParameter _ => type = 0x00 ∨ type = 0x01
  | superType _ => type = 0x10
  | typeParameterBound _ _ => type = 0x11 ∨ type = 0x12
  | empty => type = 0x13 ∨ type = 0x14 ∨ type = 0x15
  | formalParameter _ => type = 0x16
  | throwsClause _ => type = 0x17
  | localVariable ranges => (type = 0x40 ∨ type = 0x41) ∧ ranges.length < 65536
  | catchClause _ => type = 0x42
  | offset _ => 0x43 ≤ type ∧ type ≤ 0x46
  | typeArgument _ _ => 0x47 ≤ type ∧ type ≤ 0x4B

end AnnotationTarget

def TypePathStep.written : TypePathStep → List UInt8
  | array => [0, 0]
  | nested => [1, 0]
  | bound => [2, 0]
  | typeArgument index => [3, index]

/-- An annotation on a use of a type, as it lies in a class file. -/
structure RawTypeAnnotationUse where
  targetType : UInt8
  target : AnnotationTarget
  path : List TypePathStep
  use : RawAnnotationUse

namespace RawTypeAnnotationUse

def written (raw : RawTypeAnnotationUse) : List UInt8 :=
  raw.targetType :: (raw.target.written ++ (bigEndian 1 raw.path.length ++
    (raw.path.flatMap TypePathStep.written ++ raw.use.written)))

def Fits (raw : RawTypeAnnotationUse) : Prop :=
  raw.target.Suits raw.targetType ∧ raw.path.length < 256 ∧ raw.use.Fits

def typeUse (pool : ConstantPool) (raw : RawTypeAnnotationUse) : TypeAnnotationUse :=
  ⟨raw.targetType, raw.target, raw.path, raw.use.use pool⟩

end RawTypeAnnotationUse

end ClassCensus
