import ClassCensus.Analysis.Analyzer
import ClassCensus.Decimal.Layout
import ClassCensus.Flags
import ClassCensus.Json.Printer

/-!
# Reports

The outcome of an analysis as a JSON value: the ledger, then one object for each resource in
order.  What a resource does not have is left out, its compiler version apart, which is null.
-/

namespace ClassCensus.Report

/-- Numbers of 32 bits are written in place from a millionth up to thirteen digits. -/
def singleLayout : DecimalLayout := ⟨-6, 12⟩

/-- Numbers of 64 bits are written in place from a hundred-thousandth up to sixteen digits. -/
def doubleLayout : DecimalLayout := ⟨-5, 15⟩

/-- A floating-point number; null if it is not finite. -/
def ofFloat (format : FloatFormat) (layout : DecimalLayout) (bits : Nat) : Json String :=
  match format.render? layout bits with
  | some text => .number text
  | none => .null

/-- The value of a field of a constant, under the name of its type. -/
def ofFieldValue : FieldValue → Json String
  | .int value => .object [("int", .number (toString value.toInt))]
  | .float bits => .object [("float", ofFloat .single singleLayout bits.toNat)]
  | .long value => .object [("long", .number (toString value.toInt))]
  | .double bits => .object [("double", ofFloat .double doubleLayout bits.toNat)]
  | .text value => .object [("string", .string value)]

def ofConstant (constant : Constant) : Json String :=
  .object [
    ("tag", .number (toString constant.tag.toNat)),
    ("pool_index", .number (toString constant.index.toNat)),
    ("type", .string constant.kind.name),
    ("info", .array (constant.fields.map fun field =>
      .object [("description", .string field.role), ("value", ofFieldValue field.value)]))]

def ofPool (pool : ConstantPool) : Json String := .array (pool.entries.map ofConstant)

/-- A resource, with its constant pool if that is asked for. -/
def ofResource (withPool : Bool) (resource : Resource) : Json String :=
  let finding := resource.finding
  let compiler : Json String :=
    match resource.compiler? with
    | some compiler => .string compiler
    | none => .null
  let flags := finding.classFile?.map fun classFile =>
    ("access_flags",
      Json.array ((FlagHolder.ofClass.flagNames classFile.flags).map Json.string))
  let fault := finding.fault?.map fun fault => ("error", Json.string fault.message)
  let references :=
    ("referenced_classes", Json.array (finding.references.toList.map Json.string))
  let pool :=
    if withPool then finding.pool?.map fun pool => ("constant_pool", ofPool pool) else none
  .object
    ([("name", .string resource.name), ("compiled_version", compiler),
      ("valid", .bool finding.isValid)] ++
      flags.toList ++ fault.toList ++ [references] ++ pool.toList)

/-- The word for the status of a ledger. -/
def statusWord (ledger : Ledger) : String :=
  match ledger.status with
  | .ok => "OK"
  | .error => "ERROR"

def ofLedger (ledger : Ledger) : Json String :=
  let message : Json String :=
    match ledger.lastFailure with
    | some message => .string message
    | none => .null
  .object [
    ("status", .string (statusWord ledger)),
    ("message", message),
    ("found_versions", .object (ledger.found.rows.map fun (version, count) =>
      (version, .number (toString count))))]

def ofAnalysis (withPool : Bool) (resources : List Resource) (ledger : Ledger) : Json String :=
  .object [
    ("meta", ofLedger ledger),
    ("resources", .array (resources.map (ofResource withPool)))]

def text (withPool : Bool) (resources : List Resource) (ledger : Ledger) : String :=
  Json.pretty (ofAnalysis withPool resources ledger)

end ClassCensus.Report
