import ClassCensus.ClassFile.Annotations.Decoder
import ClassCensus.ClassFile.Attribute
import ClassCensus.ClassFile.StackMap.Decoder

/-!
# Decoding attributes

An attribute is cut out of the input first: an index for its name, a length, and a body of that
length.  Its body is then decoded on its own, so whatever a body holds, the next attribute starts
where its length says, and a body that does not fit its name spoils nothing but itself.
-/

namespace ClassCensus

/-- An attribute as it lies in the input. -/
structure RawAttribute where
  nameIndex : UInt16
  octets : List UInt8
  deriving Repr, DecidableEq

namespace Decoder

/-- Takes an attribute without looking into its body. -/
def rawAttribute : Decoder RawAttribute := do
  let nameIndex ← u2
  let length ← u4
  return ⟨nameIndex, ← chunk length.toNat⟩

/-- What an attribute is, apart from the octets around it, and the descriptors met in its body, the
latest first.  Octets that the body has left over are ignored; what was met in a body that does not
fit its name stays met. -/
def attributeOf (tables : Tables) (body : AttributeKind → Decoder Attribute)
    (raw : RawAttribute) : Attribute × List String :=
  let name := tables.pool.textOrEmpty raw.nameIndex
  match AttributeKind.ofName? name with
  | none => (.unrecognized name raw.octets, [])
  | some kind =>
    match body kind (.start raw.octets) with
    | .ok found after => (found, after.met)
    | .error reason after => (.malformed name reason raw.octets, after.met)

/-- Takes an attribute, of which `meaning` tells what it is and what is met in it. -/
def attributeWith (meaning : RawAttribute → Attribute × List String) : Decoder Attribute := do
  let (found, met) := meaning (← rawAttribute)
  modify fun cursor => { cursor with met := met ++ cursor.met }
  return found

/-- Takes all octets that are left. -/
def remaining : Decoder (List UInt8) := fun cursor =>
  .ok cursor.rest ⟨[], cursor.position + cursor.rest.length, cursor.met⟩

def innerClass (tables : Tables) : Decoder InnerClass := do
  return ⟨← classNameAt tables, ← optionalClassNameAt tables, ← optionalTextAt tables, ← u2⟩

/-- Takes an `EnclosingMethod` attribute.  A method that is not found is taken as absent. -/
def enclosingMethod (tables : Tables) : Decoder Attribute := do
  let className ← classNameAt tables
  let methodIndex ← u2
  return .enclosingMethod className
    (if methodIndex = 0 then none else (tables.pool.nameAndType methodIndex).toOption)

def lineNumber : Decoder LineNumber := do
  return ⟨← u2, ← u2⟩

/-- Takes a local variable and meets its descriptor. -/
def localVariable (tables : Tables) : Decoder LocalVariable := do
  let start ← u2
  let length ← u2
  let name ← textAt tables
  let descriptorIndex ← u2
  let index ← u2
  let descriptor := tables.pool.textOrEmpty descriptorIndex
  meet descriptor
  return ⟨start, length, name, descriptor, index⟩

def bootstrapMethod : Decoder BootstrapMethod := do
  return ⟨← u2, ← table u2⟩

def methodParameter (tables : Tables) : Decoder MethodParameter := do
  return ⟨← optionalTextAt tables, ← u2⟩

def exceptionHandler : Decoder ExceptionHandler := do
  return ⟨← u2, ← u2, ← u2, ← u2⟩

/-- Takes the body of a method, whose attributes `entry` takes. -/
def code (tables : Tables) (entry : Decoder α) : Decoder (Code α) := do
  let maxStack ← u2
  let maxLocals ← u2
  let length ← u4
  let octets ← chunk length.toNat
  let handlers ← table exceptionHandler
  let attributes ← table entry
  return ⟨maxStack, maxLocals, Instruction.disassemble tables.specification octets, handlers,
    attributes⟩

/-- Takes a component of a record, whose attributes `entry` takes. -/
def recordComponent (tables : Tables) (entry : Decoder α) : Decoder (RecordComponent α) := do
  let name ← textAt tables
  let descriptor ← descriptorAt tables
  return ⟨name, descriptor, ← table entry⟩

/-- Takes the body of an attribute of a known kind; `nested` takes the attributes that nest in
it. -/
def attributeBodyOf (tables : Tables) (nested : Decoder Attribute) :
    AttributeKind → Decoder Attribute
  | .constantValue => return .constantValue (← u2)
  | .code => return .code (← code tables nested)
  | .stackMapTable => return .stackMapTable (← stackMapFrames)
  | .exceptions => return .exceptions (← classNames tables)
  | .innerClasses => return .innerClasses (← table (innerClass tables))
  | .enclosingMethod => enclosingMethod tables
  | .synthetic => return .synthetic
  | .deprecated => return .deprecated
  | .signature => return .signature (← descriptorAt tables)
  | .sourceFile => return .sourceFile (← textAt tables)
  | .sourceDebugExtension => return .sourceDebugExtension (← remaining)
  | .lineNumberTable => return .lineNumberTable (← table lineNumber)
  | .localVariableTable => return .localVariableTable (← table (localVariable tables))
  | .localVariableTypeTable => return .localVariableTypeTable (← table (localVariable tables))
  | .annotationDefault => return .annotationDefault (← elementValue tables)
  | .runtimeVisibleAnnotations => return .runtimeVisibleAnnotations (← annotations tables)
  | .runtimeInvisibleAnnotations => return .runtimeInvisibleAnnotations (← annotations tables)
  | .runtimeVisibleParameterAnnotations =>
    return .runtimeVisibleParameterAnnotations (← parameterAnnotations tables)
  | .runtimeInvisibleParameterAnnotations =>
    return .runtimeInvisibleParameterAnnotations (← parameterAnnotations tables)
  | .runtimeVisibleTypeAnnotations =>
    return .runtimeVisibleTypeAnnotations (← typeAnnotations tables)
  | .runtimeInvisibleTypeAnnotations =>
    return .runtimeInvisibleTypeAnnotations (← typeAnnotations tables)
  | .bootstrapMethods => return .bootstrapMethods (← table bootstrapMethod)
  | .methodParameters => return .methodParameters (← shortTable (methodParameter tables))
  | .nestHost => return .nestHost (← classNameAt tables)
  | .nestMembers => return .nestMembers (← classNames tables)
  | .permittedSubclasses => return .permittedSubclasses (← classNames tables)
  | .record => return .record (← table (recordComponent tables nested))

/-- Takes the body of an attribute of a known kind, in which attributes nest at most `depth`
deep. -/
def attributeBody (tables : Tables) : (depth : Nat) → AttributeKind → Decoder Attribute
  | 0, _ => throw .numberCutShort
  | depth + 1, kind =>
    attributeBodyOf tables (attributeWith (attributeOf tables (attributeBody tables depth))) kind

end Decoder

/-- What an attribute is, and the descriptors met in its body.  An attribute that nests in another
has a shorter body, so the length of the body bounds the depth. -/
def RawAttribute.meaning (tables : Tables) (raw : RawAttribute) : Attribute × List String :=
  Decoder.attributeOf tables (Decoder.attributeBody tables (raw.octets.length + 1)) raw

def Decoder.attributeEntry (tables : Tables) : Decoder Attribute :=
  attributeWith fun raw => raw.meaning tables

end ClassCensus
