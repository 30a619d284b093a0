import ClassCensus.Proofs.Analysis.Runs
import ClassCensus.Proofs.Json.Writing
import ClassCensus.Proofs.Text.Order
import ClassCensus.Report
import Mathlib.Data.List.Forall2

/-!
# What reports tell

A report is told by the members of its objects, each known by its name; what a resource does not
have is no member.  The text of a report is one JSON value and is read back as what was written,
whatever stands in the names and messages, so the report of an analysis tells the ledger behind the
run and every resource of the run in order.
-/

namespace ClassCensus.Report

open Json

def textOrNull : Option String → Json String
  | some text => .string text
  | none => .null

/-- That a value is a record of what is known of a resource. -/
structure TellsResource (resource : Resource) (value : Json String) : Prop where
  isRecord : value.IsRecord
  name : value.member? "name" = some (.string resource.name)
  compiler : value.member? "compiled_version" = some (textOrNull resource.compiler?)
  valid : value.member? "valid" = some (.bool resource.finding.isValid)
  flags : value.member? "access_flags" = resource.finding.classFile?.map fun classFile =>
    .array ((FlagHolder.ofClass.flagNames classFile.flags).map .string)
  fault : value.member? "error" = resource.finding.fault?.map fun fault => .string fault.message
  references : ∃ names : List String,
    value.member? "referenced_classes" = some (.array (names.map .string)) ∧
    names.Pairwise (fun first second =>
      first.toList.map Char.toNat < second.toList.map Char.toNat) ∧
    ∀ name, name ∈ names ↔ name ∈ resource.finding.references
  pool : value.member? "constant_pool" = none

/-- That a value is a record of a ledger.  What was not counted is no member of the counts. -/
structure TellsLedger (ledger : Ledger) (value : Json String) : Prop where
  isRecord : value.IsRecord
  status : value.member? "status" = some (.string (if ledger.hasFailed then "ERROR" else "OK"))
  message : value.member? "message" = some (textOrNull ledger.lastFailure)
  counts : ∃ counts : Json String, value.member? "found_versions" = some counts ∧
    counts.IsRecord ∧ ∀ version, counts.member? version =
      if version ∈ ledger.found.versions then
        some (.number (toString (ledger.found.count version)))
      else none

/-- That a value is a record of a ledger and of resources in their order. -/
structure Tells (resources : List Resource) (ledger : Ledger) (report : Json String) : Prop where
  isRecord : report.IsRecord
  ledger : ∃ value, report.member? "meta" = some value ∧ TellsLedger ledger value
  resources : ∃ items, report.member? "resources" = some (.array items) ∧
    List.Forall₂ TellsResource resources items

/-! ## Members -/

section Members

variable {α : Type} {name key : String} {members others : List (String × Json String)}

theorem member?_object_nil (name : String) : (Json.object []).member? name = none := rfl

theorem member?_object_cons (value : Json String) :
    (Json.object ((key, value) :: members)).member? name =
      if key = name then some value else (Json.object members).member? name := by
  rw [member?, List.find?_cons]
  by_cases hsame : key = name <;> simp [hsame, member?]

theorem member?_object_append : (Json.object (members ++ others)).member? name =
    ((Json.object members).member? name).or ((Json.object others).member? name) := by
  simp [member?, List.find?_append, Option.map_or]

theorem member?_object_toList (value? : Option α) (write : α → Json String) :
    (Json.object (value?.map fun value => (key, write value)).toList).member? name =
      if key = name then value?.map write else none := by
  cases value? with
  | none => simp [member?_object_nil]
  | some value => simp [member?_object_cons, member?_object_nil]

end Members

/-! ## Resources -/

/-- The members of a resource are those that every one has and those it has. -/
theorem ofResource_eq (resource : Resource) : ofResource false resource = .object
    ([("name", .string resource.name), ("compiled_version", textOrNull resource.compiler?),
        ("valid", .bool resource.finding.isValid)] ++
      (resource.finding.classFile?.map fun classFile => ("access_flags",
        Json.array ((FlagHolder.ofClass.flagNames classFile.flags).map Json.string))).toList ++
      (resource.finding.fault?.map fun fault => ("error", Json.string fault.message)).toList ++
      [("referenced_classes",
        Json.array (resource.finding.references.toList.map Json.string))]) := by
  cases hcompiler : resource.compiler? <;> simp [ofResource, textOrNull, hcompiler]

/-- A resource is told. -/
theorem tellsResource_ofResource (resource : Resource) :
    TellsResource resource (ofResource false resource) := by
  rw [ofResource_eq]
  constructor
  case isRecord =>
    cases resource.finding.classFile? <;> cases resource.finding.fault? <;> simp [IsRecord]
  case references =>
    refine ⟨resource.finding.references.toList, ?_,
      resource.finding.references.increasing.imp codePoints_lt, fun _ => Iff.rfl⟩
    simp [member?_object_append, member?_object_toList, member?_object_cons]
  all_goals
    simp [member?_object_append, member?_object_toList, member?_object_cons, member?_object_nil]

/-! ## Ledgers -/

theorem member?_counts (version : String) (rows : List (String × Nat)) :
    (Json.object (rows.map fun (found, count) => (found, .number (toString count)))).member?
        version =
      if version ∈ rows.map Prod.fst then
        some (.number (toString (VersionCounts.countOf version rows)))
      else none := by
  induction rows with
  | nil => rfl
  | cons row rows ih =>
      obtain ⟨found, count⟩ := row
      rw [List.map_cons, member?_object_cons, ih, VersionCounts.countOf_cons]
      simp only [List.map_cons, List.mem_cons]
      by_cases hsame : version = found
      · rw [if_pos hsame.symm, if_pos (Or.inl hsame), if_pos hsame.symm]
      · simp only [if_neg (Ne.symm hsame), hsame, false_or]

/-- A ledger is told. -/
theorem tellsLedger_ofLedger (ledger : Ledger) : TellsLedger ledger (ofLedger ledger) := by
  constructor
  case isRecord => simp [ofLedger, IsRecord]
  case status =>
    cases hstatus : ledger.status <;>
      simp [ofLedger, member?_object_cons, statusWord, Ledger.hasFailed, hstatus]
  case message =>
    cases hmessage : ledger.lastFailure <;>
      simp [ofLedger, member?_object_cons, textOrNull, hmessage]
  case counts =>
    refine ⟨_, by simp [ofLedger, member?_object_cons], ?_, fun version => member?_counts version _⟩
    have hnames : (ledger.found.rows.map fun row => row.1).Nodup :=
      ledger.found.increasing.imp fun hless => String.ne_of_lt hless
    simpa [IsRecord, List.map_map, Function.comp_def] using hnames

/-! ## Numbers of reports -/

theorem isSpelled_textOrNull (text : Option String) : IsSpelled (textOrNull text) := by
  cases text with
  | none => exact .null
  | some text => exact .string text

theorem isSpelled_ofResource (resource : Resource) : IsSpelled (ofResource false resource) := by
  have hnames (names : List String) : IsSpelled (Json.array (names.map Json.string)) :=
    isSpelled_array_map IsSpelled.string names
  rw [ofResource_eq]
  apply IsSpelled.object
  simp only [List.forall_mem_append, List.forall_mem_cons]
  refine ⟨⟨⟨⟨.string _, isSpelled_textOrNull _, .bool _, by simp⟩, ?_⟩, ?_⟩, hnames _, by simp⟩
  · intro member hmember
    obtain ⟨classFile, -, rfl⟩ := Option.map_eq_some_iff.mp (Option.mem_toList.mp hmember)
    exact hnames _
  · intro member hmember
    obtain ⟨fault, -, rfl⟩ := Option.map_eq_some_iff.mp (Option.mem_toList.mp hmember)
    exact .string _

theorem isSpelled_ofLedger (ledger : Ledger) : IsSpelled (ofLedger ledger) := by
  apply IsSpelled.object
  simp only [List.forall_mem_cons]
  refine ⟨.string _, isSpelled_textOrNull ledger.lastFailure, ?_, by simp⟩
  apply IsSpelled.object
  intro member hmember
  obtain ⟨⟨version, count⟩, -, rfl⟩ := List.mem_map.mp hmember
  exact isSpelled_toString count

theorem isSpelled_ofAnalysis (resources : List Resource) (ledger : Ledger) :
    IsSpelled (ofAnalysis false resources ledger) := by
  apply IsSpelled.object
  simp only [List.forall_mem_cons]
  exact ⟨isSpelled_ofLedger ledger, isSpelled_array_map isSpelled_ofResource resources, by simp⟩

/-! ## Analyses -/

/-- What is written of resources and a ledger tells them. -/
theorem tells_ofAnalysis (resources : List Resource) (ledger : Ledger) :
    Tells resources ledger (ofAnalysis false resources ledger) where
  isRecord := by simp [ofAnalysis, IsRecord]
  ledger := ⟨ofLedger ledger, by simp [ofAnalysis, member?_object_cons],
    tellsLedger_ofLedger ledger⟩
  resources := ⟨resources.map (ofResource false), by simp [ofAnalysis, member?_object_cons],
    List.forall₂_map_right_iff.mpr (List.forall₂_same.mpr fun resource _ =>
      tellsResource_ofResource resource)⟩

/-- The octets of the report of an analysis, without the constant pools. -/
def octets (analyzer : Analyzer) (loaded : List LoadedResource) : List UInt8 :=
  Utf8.encode (text false (analyzer.analyze loaded).1 (analyzer.analyze loaded).2).toList

/-- The report of an analysis is the text of one JSON value and of no other, and what is read from
it tells the ledger and every resource in its place. -/
theorem exists_tells_octets (analyzer : Analyzer) (loaded : List LoadedResource) :
    ∃ report : Json String,
      (∀ value, SpellsDocument (octets analyzer loaded) value ↔ value = report.quote) ∧
      read? (octets analyzer loaded) = some report ∧
      Tells (loaded.map analyzer.examined) (analyzer.analyze loaded).2 report := by
  let report := ofAnalysis false (analyzer.analyze loaded).1 (analyzer.analyze loaded).2
  have hspelled : IsSpelled report := isSpelled_ofAnalysis _ _
  have hoctets : octets analyzer loaded = Utf8.encode (render .indented 0 report) := by
    rw [octets, text, pretty, String.toList_ofList]
  refine ⟨report, fun value => ⟨fun hvalue => ?_, ?_⟩, ?_, ?_⟩
  · -- The reader finds every value that the octets spell, and it finds the report.
    rw [hoctets] at hvalue
    exact Option.some.inj ((parse?_eq_some hvalue).symm.trans (parse?_render hspelled))
  · rintro rfl
    rw [hoctets]
    exact spellsDocument_render hspelled
  · rw [hoctets]
    exact read?_render hspelled
  · rw [← analyzer.fst_analyze loaded]
    exact tells_ofAnalysis _ _

end ClassCensus.Report
