import ClassCensus.ClassFile.Basic

/-!
# Places of attributes

Attributes are carried by a class file, by its fields and methods, and by other attributes: code
and the components of a record.  A place leads from the outermost attribute through those that it
is nested in.  `attributeAt?` finds the attribute at a place, and `replaceAt` puts another there and
leaves everything else as it is.
-/

namespace ClassCensus

/-- What carries attributes that are not nested. -/
inductive AttributeHolder where
  | classFile
  | field (index : Nat)
  | method (index : Nat)
  deriving Repr, DecidableEq

/-- What carries attributes in an attribute: the code that it is, or a component of the record that
it is. -/
inductive AttributeSlot where
  | code
  | component (index : Nat)
  deriving Repr, DecidableEq

/-- A step from an attribute to one that is nested in it. -/
structure AttributeStep where
  slot : AttributeSlot
  index : Nat
  deriving Repr, DecidableEq

/-- Where an attribute stands in a class file: the holder and the index of the outermost attribute,
and the steps from there. -/
structure AttributePlace where
  holder : AttributeHolder
  index : Nat
  steps : List AttributeStep
  deriving Repr, DecidableEq

/-- Whether a place is that of an attribute or of one around it. -/
def AttributePlace.Encloses (outer inner : AttributePlace) : Prop :=
  outer.holder = inner.holder ∧ outer.index = inner.index ∧ outer.steps <+: inner.steps

namespace Attribute

/-- The attributes that are nested in an attribute. -/
def attributesIn? : AttributeSlot → Attribute → Option (List Attribute)
  | .code, code body => some body.attributes
  | .component index, record components => components[index]?.map RecordComponent.attributes
  | _, _ => none

/-- An attribute with other attributes nested in it. -/
def modifyIn (change : List Attribute → List Attribute) : AttributeSlot → Attribute → Attribute
  | .code, code body => code { body with attributes := change body.attributes }
  | .component index, record components =>
    record (components.modify index fun component =>
      { component with attributes := change component.attributes })
  | _, found => found

def nested? (step : AttributeStep) (found : Attribute) : Option Attribute :=
  (found.attributesIn? step.slot).bind fun attributes => attributes[step.index]?

/-- An attribute with another nested attribute where a step leads. -/
def modifyNested (change : Attribute → Attribute) (step : AttributeStep) (found : Attribute) :
    Attribute :=
  found.modifyIn (fun attributes => attributes.modify step.index change) step.slot

def at? : List AttributeStep → Attribute → Option Attribute
  | [], found => some found
  | step :: steps, found => (found.nested? step).bind (at? steps)

/-- An attribute with another one where steps lead. -/
def replaceAt : List AttributeStep → Attribute → Attribute → Attribute
  | [], _, replacement => replacement
  | step :: steps, found, replacement =>
    found.modifyNested (fun nested => replaceAt steps nested replacement) step

end Attribute

namespace ClassFile

/-- The attributes that are not nested. -/
def attributesIn? (classFile : ClassFile) : AttributeHolder → Option (List Attribute)
  | .classFile => some classFile.attributes
  | .field index => classFile.fields[index]?.map Field.attributes
  | .method index => classFile.methods[index]?.map Method.attributes

/-- A class file with other attributes that are not nested. -/
def modifyIn (classFile : ClassFile) (change : List Attribute → List Attribute) :
    AttributeHolder → ClassFile
  | .classFile => { classFile with attributes := change classFile.attributes }
  | .field index =>
    let changed (field : Field) : Field := { field with attributes := change field.attributes }
    { classFile with fields := classFile.fields.modify index changed }
  | .method index =>
    let changed (method : Method) : Method := { method with attributes := change method.attributes }
    { classFile with methods := classFile.methods.modify index changed }

/-- The attribute that is the outermost one at a place. -/
def outermost? (classFile : ClassFile) (place : AttributePlace) : Option Attribute :=
  (classFile.attributesIn? place.holder).bind fun attributes => attributes[place.index]?

def attributeAt? (classFile : ClassFile) (place : AttributePlace) : Option Attribute :=
  (classFile.outermost? place).bind (Attribute.at? place.steps)

/-- A class file with another attribute at a place. -/
def replaceAt (classFile : ClassFile) (place : AttributePlace) (replacement : Attribute) :
    ClassFile :=
  let changed (outermost : Attribute) : Attribute := outermost.replaceAt place.steps replacement
  classFile.modifyIn (fun attributes => attributes.modify place.index changed) place.holder

end ClassFile

end ClassCensus
