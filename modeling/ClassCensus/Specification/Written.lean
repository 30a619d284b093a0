import ClassCensus.Json.Printer
import ClassCensus.Specification.Document

/-!
# Written documents of tables

The JSON form of specifications: a record is an object of its fields in order, and a choice is
written as its name alone, or as an object under its name if it is given a value.
-/

namespace ClassCensus

def LayoutField.json (field : LayoutField) : Json String :=
  .object [("description", .string field.role), ("width", .string field.width.name)]

def ConstantLayout.json (layout : ConstantLayout) : Json String :=
  .object [
    ("tag", .number (toString layout.tag.toNat)),
    ("type", .string layout.kind.name),
    ("fragments", .array (layout.fields.map LayoutField.json))]

def OperandLayout.json : OperandLayout → Json String
  | fixed length => .object [("fixed", .number (toString length.toNat))]
  | tableSwitch => .string "table_switch"
  | lookupSwitch => .string "lookup_switch"
  | wide => .string "wide"

def Mnemonic.json (mnemonic : Mnemonic) : Json String :=
  .object [
    ("opcode", .number (toString mnemonic.opcode.toNat)),
    ("name", .string mnemonic.name),
    ("operands", mnemonic.operands.json)]

def SpecificationTables.json (tables : SpecificationTables) : Json String :=
  .object [
    ("versions", .array (tables.versions.map Json.string)),
    ("constants", .array (tables.constants.map ConstantLayout.json)),
    ("mnemonics", .array (tables.mnemonics.map Mnemonic.json))]

def Specifications.json (specifications : Specifications) : Json String :=
  .array (specifications.toList.map fun specification => specification.json)

/-- The document of specifications. -/
def Specifications.document (specifications : Specifications) : List UInt8 :=
  Utf8.encode specifications.json.compact.toList

end ClassCensus
