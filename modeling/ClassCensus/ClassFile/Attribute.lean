import ClassCensus.ClassFile.Annotations
import ClassCensus.ClassFile.Instruction
import ClassCensus.ClassFile.StackMap
import ClassCensus.Fault

/-!
# Attributes

Classes, fields, methods, code and record components carry attributes.  An attribute whose name
the library knows is decoded; one whose name it does not know, or whose body does not fit its
name, keeps the body as it is.  Attributes nest: code and record components carry their own.
-/

namespace ClassCensus

/-- The attributes that are decoded. -/
inductive AttributeKind where
  | constantValue | code | stackMapTable | exceptions | innerClasses | enclosingMethod
  | synthetic | deprecated | signature | sourceFile | sourceDebugExtension | lineNumberTable
  | localVariableTable | localVariableTypeTable | annotationDefault
  | runtimeVisibleAnnotations | runtimeInvisibleAnnotations
  | runtimeVisibleParameterAnnotations | runtimeInvisibleParameterAnnotations
  | runtimeVisibleTypeAnnotations | runtimeInvisibleTypeAnnotations
  | bootstrapMethods | methodParameters | nestHost | nestMembers | permittedSubclasses | record
  deriving Repr, DecidableEq

namespace AttributeKind

/-- The name of an attribute in class files. -/
def name : AttributeKind → String
  | constantValue => "ConstantValue"
  | code => "Code"
  | stackMapTable => "StackMapTable"
  | exceptions => "Exceptions"
  | innerClasses => "InnerClasses"
  | enclosingMethod => "EnclosingMethod"
  | synthetic => "Synthetic"
  | deprecated => "Deprecated"
  | signature => "Signature"
  | sourceFile => "SourceFile"
  | sourceDebugExtension => "SourceDebugExtension"
  | lineNumberTable => "LineNumberTable"
  | localVariableTable => "LocalVariableTable"
  | localVariableTypeTable => "LocalVariableTypeTable"
  | annotationDefault => "AnnotationDefault"
  | runtimeVisibleAnnotations => "RuntimeVisibleAnnotations"
  | runtimeInvisibleAnnotations => "RuntimeInvisibleAnnotations"
  | runtimeVisibleParameterAnnotations => "RuntimeVisibleParameterAnnotations"
  | runtimeInvisibleParameterAnnotations => "RuntimeInvisibleParameterAnnotations"
  | runtimeVisibleTypeAnnotations => "RuntimeVisibleTypeAnnotations"
  | runtimeInvisibleTypeAnnotations => "RuntimeInvisibleTypeAnnotations"
  | bootstrapMethods => "BootstrapMethods"
  | methodParameters => "MethodParameters"
  | nestHost => "NestHost"
  | nestMembers => "NestMembers"
  | permittedSubclasses => "PermittedSubclasses"
  | record => "Record"

def all : List AttributeKind :=
  [constantValue, code, stackMapTable, exceptions, innerClasses, enclosingMethod, synthetic,
    deprecated, signature, sourceFile, sourceDebugExtension, lineNumberTable, localVariableTable,
    localVariableTypeTable, annotationDefault, runtimeVisibleAnnotations,
    runtimeInvisibleAnnotations, runtimeVisibleParameterAnnotations,
    runtimeInvisibleParameterAnnotations, runtimeVisibleTypeAnnotations,
    runtimeInvisibleTypeAnnotations, bootstrapMethods, methodParameters, nestHost, nestMembers,
    permittedSubclasses, record]

def ofName? (name : String) : Option AttributeKind := all.find? fun kind => kind.name = name

end AttributeKind

/-- An entry of an `InnerClasses` attribute.  A local or anonymous class has no outer class, and an
anonymous one no inner name. -/
structure InnerClass where
  innerClass : String
  outerClass : Option String
  innerName : Option String
  flags : UInt16
  deriving Repr, DecidableEq

/-- An entry of a `BootstrapMethods` attribute: the indices of a method handle and its arguments. -/
structure BootstrapMethod where
  method : UInt16
  arguments : List UInt16
  deriving Repr, DecidableEq

/-- An entry of a `MethodParameters` attribute. -/
structure MethodParameter where
  name : Option String
  flags : UInt16
  deriving Repr, DecidableEq

/-- An entry of a `LineNumberTable` attribute. -/
structure LineNumber where
  start : UInt16
  line : UInt16
  deriving Repr, DecidableEq

/-- An entry of a `LocalVariableTable` attribute, or of a `LocalVariableTypeTable` attribute with
the signature in place of the descriptor. -/
structure LocalVariable where
  start : UInt16
  length : UInt16
  name : String
  descriptor : String
  index : UInt16
  deriving Repr, DecidableEq

/-- A handler of exceptions in the code from `start` up to `stop`.  A catch type of 0 stands for all
classes. -/
structure ExceptionHandler where
  start : UInt16
  stop : UInt16
  handler : UInt16
  catchType : UInt16
  deriving Repr, DecidableEq

/-- The body of a method, with attributes of type `α`. -/
structure Code (α : Type) where
  maxStack : UInt16
  maxLocals : UInt16
  instructions : List Instruction
  handlers : List ExceptionHandler
  attributes : List α

def Code.instructionAt? (code : Code α) (offset : Nat) : Option Instruction :=
  Instruction.atOffset? code.instructions offset

/-- A component of a record class, with attributes of type `α`. -/
structure RecordComponent (α : Type) where
  name : String
  descriptor : String
  attributes : List α

/-- An attribute.  One is unrecognized if its name is not known, and malformed if its body does not
fit its name. -/
inductive Attribute where
  | constantValue (index : UInt16)
  | code (code : Code Attribute)
  | stackMapTable (frames : List StackMapFrame)
  | exceptions (classes : List String)
  | innerClasses (classes : List InnerClass)
  | enclosingMethod (className : String) (method : Option (String × String))
  | synthetic
  | deprecated
  | signature (signature : String)
  | sourceFile (name : String)
  | sourceDebugExtension (octets : List UInt8)
  | lineNumberTable (lines : List LineNumber)
  | localVariableTable (locals : List LocalVariable)
  | localVariableTypeTable (locals : List LocalVariable)
  | annotationDefault (value : ElementValue)
  | runtimeVisibleAnnotations (annotations : List AnnotationUse)
  | runtimeInvisibleAnnotations (annotations : List AnnotationUse)
  | runtimeVisibleParameterAnnotations (parameters : List (List AnnotationUse))
  | runtimeInvisibleParameterAnnotations (parameters : List (List AnnotationUse))
  | runtimeVisibleTypeAnnotations (annotations : List TypeAnnotationUse)
  | runtimeInvisibleTypeAnnotations (annotations : List TypeAnnotationUse)
  | bootstrapMethods (methods : List BootstrapMethod)
  | methodParameters (parameters : List MethodParameter)
  | nestHost (className : String)
  | nestMembers (classes : List String)
  | permittedSubclasses (classes : List String)
  | record (components : List (RecordComponent Attribute))
  | unrecognized (name : String) (octets : List UInt8)
  | malformed (name : String) (reason : Fault) (octets : List UInt8)

namespace Attribute

/-- The kind of a decoded attribute. -/
def kind? : Attribute → Option AttributeKind
  | constantValue _ => some .constantValue
  | code _ => some .code
  | stackMapTable _ => some .stackMapTable
  | exceptions _ => some .exceptions
  | innerClasses _ => some .innerClasses
  | enclosingMethod _ _ => some .enclosingMethod
  | synthetic => some .synthetic
  | deprecated => some .deprecated
  | signature _ => some .signature
  | sourceFile _ => some .sourceFile
  | sourceDebugExtension _ => some .sourceDebugExtension
  | lineNumberTable _ => some .lineNumberTable
  | localVariableTable _ => some .localVariableTable
  | localVariableTypeTable _ => some .localVariableTypeTable
  | annotationDefault _ => some .annotationDefault
  | runtimeVisibleAnnotations _ => some .runtimeVisibleAnnotations
  | runtimeInvisibleAnnotations _ => some .runtimeInvisibleAnnotations
  | runtimeVisibleParameterAnnotations _ => some .runtimeVisibleParameterAnnotations
  | runtimeInvisibleParameterAnnotations _ => some .runtimeInvisibleParameterAnnotations
  | runtimeVisibleTypeAnnotations _ => some .runtimeVisibleTypeAnnotations
  | runtimeInvisibleTypeAnnotations _ => some .runtimeInvisibleTypeAnnotations
  | bootstrapMethods _ => some .bootstrapMethods
  | methodParameters _ => some .methodParameters
  | nestHost _ => some .nestHost
  | nestMembers _ => some .nestMembers
  | permittedSubclasses _ => some .permittedSubclasses
  | record _ => some .record
  | unrecognized _ _ => none
  | malformed _ _ _ => none

/-- The name of an attribute as it stands in the class file. -/
def name : Attribute → String
  | unrecognized name _ => name
  | malformed name _ _ => name
  | decoded => (decoded.kind?.map AttributeKind.name).getD ""

/-- The signature that an attribute holds. -/
def signature? : Attribute → Option String
  | signature text => some text
  | _ => none

def sourceFile? : Attribute → Option String
  | sourceFile text => some text
  | _ => none

def constantValue? : Attribute → Option UInt16
  | constantValue index => some index
  | _ => none

def code? : Attribute → Option (Code Attribute)
  | code body => some body
  | _ => none

def exceptions? : Attribute → Option (List String)
  | exceptions classes => some classes
  | _ => none

end Attribute

end ClassCensus
