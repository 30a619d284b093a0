import ClassCensus.ClassNames
import ClassCensus.Constant.Basic

/-!
# Constant pools

A pool is a row of slots.  Slot 0 is never an entry, and neither is the slot behind a `Long` or
`Double`.  Lookups that follow one entry to another name the index at which they failed.
-/

namespace ClassCensus

/-- A failed lookup: no suitable entry stands at `index`. -/
structure MissingEntry where
  index : UInt16
  deriving Repr, DecidableEq

def MissingEntry.message (missing : MissingEntry) : String :=
  "Cannot find entry #" ++ toString missing.index.toNat ++ " in the constant pool"

/-- A constant pool.  Slots without an entry are `none`. -/
structure ConstantPool where
  slots : Array (Option Constant)

namespace ConstantPool

/-- The pool with only the unusable slot 0. -/
def empty : ConstantPool := ⟨#[none]⟩

/-- Puts a constant into the next slot, and an unusable slot behind a wide one. -/
def push (pool : ConstantPool) (constant : Constant) : ConstantPool :=
  let slots := pool.slots.push (some constant)
  ⟨if constant.kind.isWide then slots.push none else slots⟩

/-- The declared count of a pool with these slots, at most 65535. -/
def count (pool : ConstantPool) : UInt16 := UInt16.ofNat (min pool.slots.size 65535)

/-- The entries in the order of their indices. -/
def entries (pool : ConstantPool) : List Constant := pool.slots.toList.filterMap id

def size (pool : ConstantPool) : Nat := pool.entries.length

def isEmpty (pool : ConstantPool) : Bool := pool.entries.isEmpty

def entry (pool : ConstantPool) (index : UInt16) : Except MissingEntry Constant :=
  match pool.slots[index.toNat]? with
  | some (some constant) => .ok constant
  | _ => .error ⟨index⟩

/-- The text of the `Utf8` entry at an index. -/
def text (pool : ConstantPool) (index : UInt16) : Except MissingEntry String := do
  let constant ← pool.entry index
  match constant.kind, constant.text? with
  | .utf8, some text => return text
  | _, _ => throw ⟨index⟩

def nameRole : String := "name_index"

def className (pool : ConstantPool) (index : UInt16) : Except MissingEntry String := do
  let constant ← pool.entry index
  match constant.kind, constant.index? nameRole with
  | .classInfo, some nameIndex => pool.text nameIndex
  | _, _ => throw ⟨index⟩

def nameAndType (pool : ConstantPool) (index : UInt16) :
    Except MissingEntry (String × String) := do
  let constant ← pool.entry index
  match constant.kind, constant.index? nameRole, constant.index? "descriptor_index" with
  | .nameAndType, some nameIndex, some descriptorIndex =>
    return (← pool.text nameIndex, ← pool.text descriptorIndex)
  | _, _, _ => throw ⟨index⟩

/-- The text at an index, empty if there is none. -/
def textOrEmpty (pool : ConstantPool) (index : UInt16) : String :=
  match pool.text index with
  | .ok text => text
  | .error _ => ""

def classNameOrEmpty (pool : ConstantPool) (index : UInt16) : String :=
  match pool.className index with
  | .ok name => name
  | .error _ => ""

/-- The text at an index, where index 0 says that there is none. -/
def optionalText (pool : ConstantPool) (index : UInt16) : Option String :=
  if index = 0 then none else some (pool.textOrEmpty index)

def optionalClassName (pool : ConstantPool) (index : UInt16) : Option String :=
  if index = 0 then none else some (pool.classNameOrEmpty index)

/-- The name that an entry gives to a class, if it is a `Class` entry whose name is found. -/
def namedClass? (pool : ConstantPool) (constant : Constant) : Option String :=
  match constant.kind, constant.index? nameRole with
  | .classInfo, some nameIndex => (pool.text nameIndex).toOption
  | _, _ => none

/-- The classes named by the `Class` entries.  An array class is named by its descriptor. -/
def namedClasses (pool : ConstantPool) : ClassNames :=
  .ofList (pool.entries.filterMap pool.namedClass?)

end ConstantPool

end ClassCensus
