import ClassCensus.Json.Parser
import ClassCensus.Specification.Basic
import ClassCensus.Specification.Versions

/-!
# Documents of tables

Specifications and version tables can be loaded from JSON documents.  A record is an object with
all of its fields, each once and in any order, among others that are ignored; or it is an array
of exactly its fields in order.  A name stands for a choice, alone or as the only member of an
object with the value null.
-/

namespace ClassCensus

/-- Why a document cannot be used: it is not of the expected form, or it holds no rows. -/
inductive DocumentFault where
  | malformed
  | empty
  deriving Repr, DecidableEq

namespace Document

/-- A value of a document. -/
abbrev Value := Json Json.Quoted

def text? : Value → Option String
  | .string quoted => Json.unescape? quoted
  | _ => none

/-- Reads an array of values that `item?` reads. -/
def list? (item? : Value → Option α) : Value → Option (List α)
  | .array items => items.mapM item?
  | _ => none

/-- Reads a number from 0 to 255, written in digits alone. -/
def octet? : Value → Option UInt8
  | .number text =>
    if text.toList.all Char.isDigit then
      match text.toNat? with
      | some value => if value < 256 then some (UInt8.ofNat value) else none
      | none => none
    else none
  | _ => none

/-- Reads the name of a choice and what it is given: nothing if the name stands alone, else the
value of the only member of an object. -/
def choice? : Value → Option (String × Option Value)
  | .string quoted => do return (← Json.unescape? quoted, none)
  | .object [(quoted, value)] => do return (← Json.unescape? quoted, some value)
  | _ => none

/-- Reads a choice that is given nothing. -/
def bareChoice? (ofName? : String → Option α) (value : Value) : Option α := do
  match ← choice? value with
  | (name, none) => ofName? name
  | (name, some .null) => ofName? name
  | _ => none

/-- The only value under a name. -/
def only? (name : String) (members : List (String × Value)) : Option Value :=
  match members.filter fun found => found.1 = name with
  | [(_, value)] => some value
  | _ => none

/-- The values of the fields of a record. -/
def fields? (names : List String) : Value → Option (List Value)
  | .array items => if items.length = names.length then some items else none
  | .object members => do
    let members ← members.mapM fun (quoted, value) => do
      return (← Json.unescape? quoted, value)
    names.mapM fun name => only? name members
  | _ => none

def layoutField? (value : Value) : Option LayoutField := do
  match ← fields? ["description", "width"] value with
  | [role, width] => return ⟨← text? role, ← bareChoice? FieldWidth.ofName? width⟩
  | _ => none

def constantLayout? (value : Value) : Option ConstantLayout := do
  match ← fields? ["tag", "type", "fragments"] value with
  | [tag, kind, fields] =>
    return ⟨← octet? tag, ← bareChoice? ConstantKind.ofName? kind,
      ← list? layoutField? fields⟩
  | _ => none

/-- The layouts of operands that have a name and nothing else. -/
def bareOperands? (name : String) : Option OperandLayout :=
  if name = "table_switch" then some .tableSwitch
  else if name = "lookup_switch" then some .lookupSwitch
  else if name = "wide" then some .wide
  else none

def operands? (value : Value) : Option OperandLayout := do
  match ← choice? value with
  | ("fixed", some length) => return .fixed (← octet? length)
  | _ => bareChoice? bareOperands? value

def mnemonic? (value : Value) : Option Mnemonic := do
  match ← fields? ["opcode", "name", "operands"] value with
  | [opcode, name, operands] =>
    return ⟨← octet? opcode, ← text? name, ← operands? operands⟩
  | _ => none

def tables? (value : Value) : Option SpecificationTables := do
  match ← fields? ["versions", "constants", "mnemonics"] value with
  | [versions, constants, mnemonics] =>
    return ⟨← list? text? versions, ← list? constantLayout? constants,
      ← list? mnemonic? mnemonics⟩
  | _ => none

def versionRow? (value : Value) : Option VersionRow := do
  match ← fields? ["code", "version"] value with
  | [code, version] => return ⟨← text? code, ← text? version⟩
  | _ => none

/-- Reads a document that is an array of rows. -/
def rows (row? : Value → Option α) (document : List UInt8) : Except DocumentFault (List α) :=
  match (Json.parse? document).bind (list? row?) with
  | none => .error .malformed
  | some found => .ok found

end Document

/-- Loads specifications from a document.  The indices, which it does not hold, are made anew. -/
def Specifications.load (document : List UInt8) : Except DocumentFault Specifications := do
  match ← Document.rows Document.tables? document with
  | [] => throw .empty
  | first :: others =>
    return ⟨.ofTables first :: others.map .ofTables, List.cons_ne_nil _ _⟩

/-- Loads a version table from a document. -/
def VersionTable.load (document : List UInt8) : Except DocumentFault VersionTable := do
  match ← Document.rows Document.versionRow? document with
  | [] => throw .empty
  | rows => return .ofRows rows

end ClassCensus
