/-!
# Annotations

Annotations and their element values nest in each other: an element value may be an annotation or
an array of element values.  Texts that the class file gives by index are resolved.
-/

namespace ClassCensus

/-- A value of an annotation element.  The tag of a constant tells its type; other types are given
by descriptors. -/
inductive ElementValue where
  | constant (tag : Char) (index : UInt16)
  | enumConstant (type : String) (name : String)
  | classLiteral (descriptor : String)
  | nested (type : String) (elements : List (String × ElementValue))
  | array (values : List ElementValue)

structure AnnotationUse where
  type : String
  elements : List (String × ElementValue)

/-- A range of code in which an annotated local variable has a value. -/
structure LocalRange where
  start : UInt16
  length : UInt16
  index : UInt16
  deriving Repr, DecidableEq

/-- Which type of a declaration or an expression an annotation is on.  The superclass has the index
65535.  The only type of a field, a component, a result, a new object or a receiver is `empty`, and
`offset` is that of an instruction that tests a type, makes an object or refers to a method. -/
inductive AnnotationTarget where
  | typeParameter (index : UInt8)
  | superType (index : UInt16)
  | typeParameterBound (parameter bound : UInt8)
  | empty
  | formalParameter (index : UInt8)
  | throwsClause (index : UInt16)
  | localVariable (ranges : List LocalRange)
  | catchClause (index : UInt16)
  | offset (offset : UInt16)
  | typeArgument (offset : UInt16) (index : UInt8)
  deriving Repr, DecidableEq

/-- A step from a type to a part of it: the element type of an array, a nested type, the bound of a
wildcard or a type argument. -/
inductive TypePathStep where
  | array
  | nested
  | bound
  | typeArgument (index : UInt8)
  deriving Repr, DecidableEq

/-- An annotation on a use of a type, with the way from the type of the target to the part that is
annotated. -/
structure TypeAnnotationUse where
  targetType : UInt8
  target : AnnotationTarget
  path : List TypePathStep
  use : AnnotationUse

end ClassCensus
