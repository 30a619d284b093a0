/-!
# Constants

The entries of a constant pool.  What a tag means is not fixed here: the tables of a
`Specification` give each tag a kind and named fields, and a constant keeps both.
-/

namespace ClassCensus

inductive ConstantKind where
  | classInfo | fieldRef | methodRef | interfaceMethodRef | string | integer | float | long
  | double | nameAndType | utf8 | methodHandle | methodType | dynamic | invokeDynamic
  | moduleInfo | packageInfo
  deriving Repr, DecidableEq

namespace ConstantKind

/-- The name of a kind, as documents and reports write it. -/
def name : ConstantKind → String
  | classInfo => "Class"
  | fieldRef => "FieldRef"
  | methodRef => "MethodRef"
  | interfaceMethodRef => "InterfaceMethodRef"
  | string => "String"
  | integer => "Integer"
  | float => "Float"
  | long => "Long"
  | double => "Double"
  | nameAndType => "NameAndType"
  | utf8 => "Utf8"
  | methodHandle => "MethodHandle"
  | methodType => "MethodType"
  | dynamic => "Dynamic"
  | invokeDynamic => "InvokeDynamic"
  | moduleInfo => "Module"
  | packageInfo => "Package"

def all : List ConstantKind :=
  [classInfo, fieldRef, methodRef, interfaceMethodRef, string, integer, float, long, double,
    nameAndType, utf8, methodHandle, methodType, dynamic, invokeDynamic, moduleInfo, packageInfo]

def ofName? (name : String) : Option ConstantKind :=
  all.find? fun kind => kind.name = name

/-- Whether a constant of the kind takes two slots of the pool. -/
def isWide : ConstantKind → Bool
  | long | double => true
  | _ => false

/-- How many slots of the pool a constant of the kind takes. -/
def slots (kind : ConstantKind) : Nat := if kind.isWide then 2 else 1

end ConstantKind

/-- The value of a field of a constant.  Numbers of up to four octets are kept as `int`, and
floating-point values as their bits. -/
inductive FieldValue where
  | int (value : Int32)
  | float (bits : UInt32)
  | long (value : Int64)
  | double (bits : UInt64)
  | text (value : String)
  deriving Repr, DecidableEq

/-- A field of a constant: its role, such as `name_index`, and its value. -/
structure ConstantField where
  role : String
  value : FieldValue
  deriving Repr, DecidableEq

/-- An entry of a constant pool: the tag that it was found under, its index and its kind, and its
fields in the order of the class file. -/
structure Constant where
  tag : UInt8
  index : UInt16
  kind : ConstantKind
  fields : List ConstantField
  deriving Repr, DecidableEq

namespace Constant

/-- The index behind a constant that goes to `index`; an index never passes 65535. -/
def nextIndex (constant : Constant) (index : UInt16) : UInt16 :=
  UInt16.ofNat (min (index.toNat + constant.kind.slots) 65535)

/-- The value of the first field with a role. -/
def field? (constant : Constant) (role : String) : Option FieldValue :=
  (constant.fields.find? fun field => field.role = role).map ConstantField.value

def int? (constant : Constant) (role : String) : Option Int32 :=
  match constant.field? role with
  | some (.int value) => some value
  | _ => none

/-- The first text among the fields. -/
def text? (constant : Constant) : Option String :=
  constant.fields.findSome? fun field =>
    match field.value with
    | .text value => some value
    | _ => none

/-- The pool index in the first field with a role: a number from 0 to 65535. -/
def index? (constant : Constant) (role : String) : Option UInt16 :=
  match constant.int? role with
  | some value =>
    if 0 ≤ value.toInt ∧ value.toInt < 65536 then some (UInt16.ofNat value.toInt.toNat) else none
  | none => none

end Constant

end ClassCensus
