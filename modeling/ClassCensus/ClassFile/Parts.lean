import ClassCensus.ClassFile.Basic
import Mathlib.Algebra.Ring.Nat

/-!
# The parts of class files

What a class file holds at any depth: its descriptors and signatures, the names that it takes from
indices of classes, whether an attribute is malformed, and how many parts an attribute has.
-/

namespace ClassCensus

mutual

/-- The descriptors in an element value. -/
def ElementValue.descriptors : ElementValue → List String
  | .constant _ _ => []
  | .enumConstant type _ => [type]
  | .classLiteral descriptor => [descriptor]
  | .nested type elements => type :: elementDescriptors elements
  | .array values => valueDescriptors values

def ElementValue.elementDescriptors : List (String × ElementValue) → List String
  | [] => []
  | (_, value) :: elements => value.descriptors ++ elementDescriptors elements

def ElementValue.valueDescriptors : List ElementValue → List String
  | [] => []
  | value :: values => value.descriptors ++ valueDescriptors values

end

def AnnotationUse.descriptors (use : AnnotationUse) : List String :=
  use.type :: ElementValue.elementDescriptors use.elements

namespace Attribute

mutual

/-- The descriptors and signatures in an attribute. -/
def descriptors : Attribute → List String
  | .code ⟨_, _, _, _, attributes⟩ => descriptorsIn attributes
  | .signature text => [text]
  | .localVariableTable locals => locals.map LocalVariable.descriptor
  | .localVariableTypeTable locals => locals.map LocalVariable.descriptor
  | .annotationDefault value => value.descriptors
  | .runtimeVisibleAnnotations uses => uses.flatMap AnnotationUse.descriptors
  | .runtimeInvisibleAnnotations uses => uses.flatMap AnnotationUse.descriptors
  | .runtimeVisibleParameterAnnotations parameters =>
    parameters.flatten.flatMap AnnotationUse.descriptors
  | .runtimeInvisibleParameterAnnotations parameters =>
    parameters.flatten.flatMap AnnotationUse.descriptors
  | .runtimeVisibleTypeAnnotations uses => uses.flatMap fun found => found.use.descriptors
  | .runtimeInvisibleTypeAnnotations uses => uses.flatMap fun found => found.use.descriptors
  | .record components => componentDescriptors components
  | _ => []

def descriptorsIn : List Attribute → List String
  | [] => []
  | found :: attributes => found.descriptors ++ descriptorsIn attributes

def componentDescriptors : List (RecordComponent Attribute) → List String
  | [] => []
  | ⟨_, descriptor, attributes⟩ :: components =>
    descriptor :: (descriptorsIn attributes ++ componentDescriptors components)

end

mutual

/-- The names that an attribute takes from indices of classes. -/
def classNames : Attribute → List String
  | .code ⟨_, _, _, _, attributes⟩ => classNamesIn attributes
  | .exceptions classes => classes
  | .innerClasses classes =>
    classes.flatMap fun found => found.innerClass :: found.outerClass.toList
  | .enclosingMethod className _ => [className]
  | .nestHost className => [className]
  | .nestMembers classes => classes
  | .permittedSubclasses classes => classes
  | .record components => componentClassNames components
  | _ => []

def classNamesIn : List Attribute → List String
  | [] => []
  | found :: attributes => found.classNames ++ classNamesIn attributes

def componentClassNames : List (RecordComponent Attribute) → List String
  | [] => []
  | ⟨_, _, attributes⟩ :: components =>
    classNamesIn attributes ++ componentClassNames components

end

mutual

/-- Whether an attribute, and all that nest in it, fit their names. -/
def IsSound : Attribute → Prop
  | .malformed _ _ _ => False
  | .code ⟨_, _, _, _, attributes⟩ => AreSound attributes
  | .record components => ComponentsAreSound components
  | _ => True

def AreSound : List Attribute → Prop
  | [] => True
  | found :: attributes => found.IsSound ∧ AreSound attributes

def ComponentsAreSound : List (RecordComponent Attribute) → Prop
  | [] => True
  | ⟨_, _, attributes⟩ :: components => AreSound attributes ∧ ComponentsAreSound components

end

end Attribute

mutual

/-- The number of parts of an element value: itself, the annotation that it is, the elements of
that with their names, and the values in an array. -/
def ElementValue.parts : ElementValue → Nat
  | .constant _ _ => 1
  | .enumConstant _ _ => 1
  | .classLiteral _ => 1
  | .nested _ elements => 2 + elementParts elements
  | .array values => 1 + valueParts values

def ElementValue.elementParts : List (String × ElementValue) → Nat
  | [] => 0
  | (_, value) :: elements => 1 + value.parts + elementParts elements

def ElementValue.valueParts : List ElementValue → Nat
  | [] => 0
  | value :: values => value.parts + valueParts values

end

/-- The number of parts of an annotation: itself and those of its elements. -/
def AnnotationUse.parts (use : AnnotationUse) : Nat := 1 + ElementValue.elementParts use.elements

/-- The number of rows of a target. -/
def AnnotationTarget.parts : AnnotationTarget → Nat
  | .localVariable ranges => ranges.length
  | _ => 0

/-- The number of parts of an annotation on a use of a type: itself, the rows of its target, the
steps of its path and the annotation. -/
def TypeAnnotationUse.parts (found : TypeAnnotationUse) : Nat :=
  1 + found.target.parts + found.path.length + found.use.parts

def StackMapFrame.parts : StackMapFrame → Nat
  | .same _ => 1
  | .sameLocals _ _ => 2
  | .chop _ _ => 1
  | .append _ locals => 1 + locals.length
  | .full _ locals stack => 1 + locals.length + stack.length

def BootstrapMethod.parts (method : BootstrapMethod) : Nat := 1 + method.arguments.length

namespace Attribute

mutual

/-- The number of parts of an attribute, itself not counted: instructions, rows of tables, frames,
annotations and the attributes that nest in it, with their parts. -/
def parts : Attribute → Nat
  | .code ⟨_, _, instructions, handlers, attributes⟩ =>
    instructions.length + handlers.length + partsIn attributes
  | .stackMapTable frames => (frames.map StackMapFrame.parts).sum
  | .exceptions classes => classes.length
  | .innerClasses classes => classes.length
  | .lineNumberTable lines => lines.length
  | .localVariableTable locals => locals.length
  | .localVariableTypeTable locals => locals.length
  | .annotationDefault value => value.parts
  | .runtimeVisibleAnnotations uses => (uses.map AnnotationUse.parts).sum
  | .runtimeInvisibleAnnotations uses => (uses.map AnnotationUse.parts).sum
  | .runtimeVisibleParameterAnnotations parameters =>
    parameters.length + (parameters.flatten.map AnnotationUse.parts).sum
  | .runtimeInvisibleParameterAnnotations parameters =>
    parameters.length + (parameters.flatten.map AnnotationUse.parts).sum
  | .runtimeVisibleTypeAnnotations uses => (uses.map TypeAnnotationUse.parts).sum
  | .runtimeInvisibleTypeAnnotations uses => (uses.map TypeAnnotationUse.parts).sum
  | .bootstrapMethods methods => (methods.map BootstrapMethod.parts).sum
  | .methodParameters parameters => parameters.length
  | .nestMembers classes => classes.length
  | .permittedSubclasses classes => classes.length
  | .record components => componentParts components
  | _ => 0

/-- The number of attributes and of their parts. -/
def partsIn : List Attribute → Nat
  | [] => 0
  | found :: attributes => 1 + found.parts + partsIn attributes

def componentParts : List (RecordComponent Attribute) → Nat
  | [] => 0
  | ⟨_, _, attributes⟩ :: components => 1 + partsIn attributes + componentParts components

end

end Attribute

def Field.descriptors (field : Field) : List String :=
  field.descriptor :: Attribute.descriptorsIn field.attributes

def Method.descriptors (method : Method) : List String :=
  method.descriptor :: Attribute.descriptorsIn method.attributes

namespace ClassFile

def descriptors (classFile : ClassFile) : List String :=
  classFile.fields.flatMap Field.descriptors ++ classFile.methods.flatMap Method.descriptors ++
    Attribute.descriptorsIn classFile.attributes

/-- The attributes of a class file, of its fields and of its methods. -/
def allAttributes (classFile : ClassFile) : List Attribute :=
  classFile.fields.flatMap Field.attributes ++ classFile.methods.flatMap Method.attributes ++
    classFile.attributes

def classNames (classFile : ClassFile) : List String :=
  classFile.thisClass :: (classFile.superClass.toList ++ classFile.interfaces ++
    Attribute.classNamesIn classFile.allAttributes)

def IsSound (classFile : ClassFile) : Prop := Attribute.AreSound classFile.allAttributes

end ClassFile

end ClassCensus
