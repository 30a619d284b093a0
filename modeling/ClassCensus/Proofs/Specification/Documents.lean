import ClassCensus.Proofs.Json.Writing
import ClassCensus.Specification.Written
import Mathlib.Data.List.Infix
import Std.Data.String.ToNat

/-!
# Loading documents of tables

Every text of the JSON form of specifications is loaded as those specifications, indices included,
and what is looked up in them is what a scan of their tables finds.  Each part of a document has a
reader and a form that is written, and the reader takes the form back.
-/

namespace ClassCensus

open Json

namespace Document

/-! ## Records and choices -/

theorem text?_quote (text : String) : text? (Json.string text).quote = some text :=
  unescape?_escape text

theorem mapM_map_eq_some {read : β → Option γ} {write : α → β} (back : α → γ) {rows : List α}
    (hread : ∀ row ∈ rows, read (write row) = some (back row)) :
    (rows.map write).mapM read = some (rows.map back) := by
  induction rows with
  | nil => rfl
  | cons row rows ih =>
      obtain ⟨hrow, hrows⟩ := List.forall_mem_cons.mp hread
      rw [List.map_cons, List.mapM_cons, hrow, ih hrows]
      rfl

theorem quoteItems_eq_map (items : List (Json String)) : quoteItems items = items.map quote := by
  induction items with
  | nil => rfl
  | cons item items ih => rw [quoteItems, ih, List.map_cons]

theorem quoteMembers_eq_map (members : List (String × Json String)) :
    quoteMembers members = members.map fun member => (quoteText member.1, member.2.quote) := by
  induction members with
  | nil => rfl
  | cons member members ih => rw [quoteMembers, ih, List.map_cons]

/-- A list whose items are taken back is taken back. -/
theorem list?_quote {item? : Value → Option α} {write : α → Json String}
    (hread : ∀ row, item? (write row).quote = some row) (rows : List α) :
    list? item? (Json.array (rows.map write)).quote = some rows := by
  rw [quote, list?, quoteItems_eq_map, List.map_map]
  exact (mapM_map_eq_some id fun row _ => hread row).trans (by rw [List.map_id])

theorem only?_eq_some {members : List (String × Value)} (hnames : (members.map Prod.fst).Nodup)
    {member : String × Value} (hmember : member ∈ members) :
    only? member.1 members = some member.2 := by
  have hfilter : (members.filter fun found => found.1 = member.1) = [member] := by
    induction members with
    | nil => cases hmember
    | cons first others ih =>
        obtain ⟨hfirst, hothers⟩ := List.nodup_cons.mp hnames
        rcases List.mem_cons.mp hmember with rfl | hbehind
        · rw [List.filter_cons_of_pos (by simp), List.filter_eq_nil_iff.mpr]
          intro found hfound hsame
          exact hfirst (List.mem_map.mpr ⟨found, hfound, of_decide_eq_true hsame⟩)
        · have hdifferent : first.1 ≠ member.1 := by
            intro hsame
            exact hfirst (List.mem_map.mpr ⟨member, hbehind, hsame.symm⟩)
          rw [List.filter_cons_of_neg (by simpa using hdifferent), ih hothers hbehind]
  rw [only?, hfilter]

/-- A record whose fields have different names is taken back. -/
theorem fields?_quote {names : List String} {members : List (String × Json String)}
    (hnames : members.map Prod.fst = names) (hdifferent : names.Nodup) :
    fields? names (Json.object members).quote =
      some (members.map fun member => member.2.quote) := by
  subst hnames
  have hsame : (members.map fun member => (member.1, member.2.quote)).map Prod.fst =
      members.map Prod.fst := by
    rw [List.map_map]
    rfl
  rw [quote, fields?, quoteMembers_eq_map,
    mapM_map_eq_some fun member : String × Json String => (member.1, member.2.quote)]
  · apply mapM_map_eq_some
    intro member hmember
    exact only?_eq_some (hsame ▸ hdifferent) (List.mem_map.mpr ⟨member, hmember, rfl⟩)
  · intro member hmember
    have hname : unescape? (quoteText member.1) = some member.1 := unescape?_escape member.1
    simp only [hname]
    rfl

theorem octet?_quote (octet : UInt8) :
    octet? (Json.number (toString octet.toNat)).quote = some octet := by
  have hdigits : (toString octet.toNat).toList.all Char.isDigit = true :=
    List.all_eq_true.mpr fun c hc => isDigit_of_mem_toString _ hc
  have hnumber : (toString octet.toNat).toNat? = some octet.toNat := Nat.toNat?_repr _
  simp only [quote, octet?, hdigits, hnumber, if_true, if_pos octet.toNat_lt, UInt8.ofNat_toNat]

theorem bareChoice?_quote {ofName? : String → Option α} {name : String} {choice : α}
    (hname : ofName? name = some choice) :
    bareChoice? ofName? (Json.string name).quote = some choice := by
  have htext : unescape? (quoteText name) = some name := unescape?_escape name
  simp [bareChoice?, choice?, quote, htext, hname]

/-! ## Rows -/

theorem layoutField?_json (field : LayoutField) : layoutField? field.json.quote = some field := by
  have hfields : fields? ["description", "width"] field.json.quote =
      some [(Json.string field.role).quote, (Json.string field.width.name).quote] :=
    fields?_quote rfl (by decide)
  have hwidth : FieldWidth.ofName? field.width.name = some field.width := by
    cases field.width <;> rfl
  simp only [layoutField?, hfields, Option.bind_eq_bind, Option.bind_some, text?_quote,
    bareChoice?_quote hwidth]
  rfl

theorem constantLayout?_json (layout : ConstantLayout) :
    constantLayout? layout.json.quote = some layout := by
  have hfields : fields? ["tag", "type", "fragments"] layout.json.quote =
      some [(Json.number (toString layout.tag.toNat)).quote, (Json.string layout.kind.name).quote,
        (Json.array (layout.fields.map LayoutField.json)).quote] :=
    fields?_quote rfl (by decide)
  have hkind : ConstantKind.ofName? layout.kind.name = some layout.kind := by
    cases layout.kind <;> rfl
  simp only [constantLayout?, hfields, Option.bind_eq_bind, Option.bind_some, octet?_quote,
    bareChoice?_quote hkind, list?_quote layoutField?_json]
  rfl

theorem operands?_string {name : String} {operands : OperandLayout}
    (hname : bareOperands? name = some operands) (hfixed : name ≠ "fixed") :
    operands? (Json.string name).quote = some operands := by
  have htext : unescape? (quoteText name) = some name := unescape?_escape name
  have hchoice := bareChoice?_quote hname
  simp only [quote] at hchoice ⊢
  simp [operands?, choice?, htext, hchoice]

theorem operands?_json (operands : OperandLayout) :
    operands? operands.json.quote = some operands := by
  cases operands with
  | fixed length =>
      have hname : unescape? (quoteText "fixed") = some "fixed" := unescape?_escape "fixed"
      have hoctet := octet?_quote length
      simp only [quote] at hoctet
      simp only [operands?, OperandLayout.json, quote, quoteMembers, choice?, hname,
        Option.bind_eq_bind, Option.bind_some]
      simp only [pure, Option.bind_some, hoctet]
  | tableSwitch => exact operands?_string rfl (by decide)
  | lookupSwitch => exact operands?_string rfl (by decide)
  | wide => exact operands?_string rfl (by decide)

theorem mnemonic?_json (mnemonic : Mnemonic) : mnemonic? mnemonic.json.quote = some mnemonic := by
  have hfields : fields? ["opcode", "name", "operands"] mnemonic.json.quote =
      some [(Json.number (toString mnemonic.opcode.toNat)).quote,
        (Json.string mnemonic.name).quote, mnemonic.operands.json.quote] :=
    fields?_quote rfl (by decide)
  simp only [mnemonic?, hfields, Option.bind_eq_bind, Option.bind_some, octet?_quote, text?_quote,
    operands?_json]
  rfl

/-- The tables of a specification are taken back. -/
theorem tables?_json (tables : SpecificationTables) : tables? tables.json.quote = some tables := by
  have hfields : fields? ["versions", "constants", "mnemonics"] tables.json.quote =
      some [(Json.array (tables.versions.map Json.string)).quote,
        (Json.array (tables.constants.map ConstantLayout.json)).quote,
        (Json.array (tables.mnemonics.map Mnemonic.json)).quote] :=
    fields?_quote rfl (by decide)
  simp only [tables?, hfields, Option.bind_eq_bind, Option.bind_some, list?_quote text?_quote,
    list?_quote constantLayout?_json, list?_quote mnemonic?_json]
  rfl

end Document

/-! ## Numbers of documents -/

theorem LayoutField.isSpelled_json (field : LayoutField) : IsSpelled field.json := by
  apply IsSpelled.object
  simp only [List.forall_mem_cons]
  exact ⟨.string _, .string _, by simp⟩

theorem ConstantLayout.isSpelled_json (layout : ConstantLayout) : IsSpelled layout.json := by
  apply IsSpelled.object
  simp only [List.forall_mem_cons]
  exact ⟨isSpelled_toString _, .string _,
    isSpelled_array_map LayoutField.isSpelled_json layout.fields, by simp⟩

theorem OperandLayout.isSpelled_json (operands : OperandLayout) : IsSpelled operands.json := by
  cases operands with
  | fixed length =>
      apply IsSpelled.object
      simp only [List.forall_mem_cons]
      exact ⟨isSpelled_toString _, by simp⟩
  | tableSwitch => exact .string _
  | lookupSwitch => exact .string _
  | wide => exact .string _

theorem Mnemonic.isSpelled_json (mnemonic : Mnemonic) : IsSpelled mnemonic.json := by
  apply IsSpelled.object
  simp only [List.forall_mem_cons]
  exact ⟨isSpelled_toString _, .string _, mnemonic.operands.isSpelled_json, by simp⟩

theorem SpecificationTables.isSpelled_json (tables : SpecificationTables) :
    IsSpelled tables.json := by
  apply IsSpelled.object
  simp only [List.forall_mem_cons]
  exact ⟨isSpelled_array_map IsSpelled.string tables.versions,
    isSpelled_array_map ConstantLayout.isSpelled_json tables.constants,
    isSpelled_array_map Mnemonic.isSpelled_json tables.mnemonics, by simp⟩

namespace Specifications

variable (specifications : Specifications)

theorem isSpelled_json : IsSpelled specifications.json :=
  isSpelled_array_map (fun specification => specification.isSpelled_json) specifications.toList

theorem spellsDocument_document :
    SpellsDocument specifications.document specifications.json.quote := by
  rw [document, compact, String.toList_ofList]
  exact spellsDocument_render specifications.isSpelled_json

/-! ## Loading -/

/-- What a text of specifications is read as gives the specifications. -/
theorem load_of_parse? {document : List UInt8}
    (hparse : parse? document = some specifications.json.quote) :
    load document = .ok specifications := by
  obtain ⟨entries, hentries⟩ := specifications
  have hrows : Document.rows Document.tables? document =
      .ok (entries.map Specification.toSpecificationTables) := by
    have hlist := Document.list?_quote Document.tables?_json
      (entries.map Specification.toSpecificationTables)
    rw [List.map_map] at hlist
    rw [Document.rows, hparse, Option.bind_some]
    exact hlist ▸ rfl
  cases entries with
  | nil => exact absurd rfl hentries
  | cons first others =>
      have hback : (others.map Specification.toSpecificationTables).map Specification.ofTables =
          others := by
        rw [List.map_map]
        exact (List.map_congr_left fun entry _ => entry.ofTables_toSpecificationTables).trans
          (List.map_id _)
      simp only [load, hrows]
      change Except.ok (Specifications.mk (Specification.ofTables first.toSpecificationTables ::
        (others.map Specification.toSpecificationTables).map Specification.ofTables) _) = _
      simp only [hback, first.ofTables_toSpecificationTables]

/-! ## Scans -/

/-- That a row is the last one that stands under an octet. -/
def StandsLast (key : α → UInt8) (rows : List α) (octet : UInt8) (row : α) : Prop :=
  ∃ before behind, rows = before ++ row :: behind ∧ key row = octet ∧
    ∀ other ∈ behind, key other ≠ octet

/-- That a specification is the first one that lists a version, or the last one if none does. -/
def StandsFirst (entries : List Specification) (version : String) (entry : Specification) : Prop :=
  ∃ before behind, entries = before ++ entry :: behind ∧
    (∀ other ∈ before, version ∉ other.versions) ∧ (version ∈ entry.versions ∨ behind = [])

theorem lastWith?_eq_some_iff (key : α → UInt8) (rows : List α) (octet : UInt8) (row : α) :
    lastWith? (fun row => key row == octet) rows = some row ↔ StandsLast key rows octet row := by
  rw [lastWith?_eq_find?_reverse, List.find?_eq_some_iff_append]
  constructor
  · rintro ⟨hkey, behind, before, hrows, hothers⟩
    refine ⟨before.reverse, behind.reverse, ?_, by simpa using hkey, ?_⟩
    · rw [← List.reverse_reverse rows, hrows]
      simp
    · intro other hother
      simpa using hothers other (List.mem_reverse.mp hother)
  · rintro ⟨before, behind, rfl, hkey, hothers⟩
    refine ⟨by simpa using hkey, behind.reverse, before.reverse, by simp, ?_⟩
    intro other hother
    simpa using hothers other (List.mem_reverse.mp hother)

theorem standsFirst_forVersion (version : String) :
    StandsFirst specifications.toList version (specifications.forVersion version) := by
  rw [forVersion]
  cases hfind : specifications.toList.find? fun entry => entry.appliesTo version with
  | some entry =>
      obtain ⟨hlists, before, behind, hentries, hbefore⟩ :=
        List.find?_eq_some_iff_append.mp hfind
      refine ⟨before, behind, hentries, ?_, .inl ?_⟩
      · intro other hother
        simpa [Specification.appliesTo] using hbefore other hother
      · simpa [Specification.appliesTo] using hlists
  | none =>
      have hnone := List.find?_eq_none.mp hfind
      refine ⟨specifications.toList.dropLast, [], ?_, ?_, .inr rfl⟩
      · exact (List.dropLast_append_getLast specifications.nonempty).symm
      · intro other hother
        simpa [Specification.appliesTo] using hnone other (List.mem_of_mem_dropLast hother)

/-- Every text of specifications, the written document among them, is loaded as these
specifications, and what they are asked is answered as by a scan of the lists. -/
theorem load_document :
    load specifications.document = .ok specifications ∧
    (∀ document, SpellsDocument document specifications.json.quote →
      load document = .ok specifications) ∧
    (∀ version,
      StandsFirst specifications.toList version (specifications.forVersion version)) ∧
    ∀ specification ∈ specifications.toList,
      (∀ tag layout, specification.layout? tag = some layout ↔
        StandsLast ConstantLayout.tag specification.constants tag layout) ∧
      ∀ opcode mnemonic, specification.mnemonic? opcode = some mnemonic ↔
        StandsLast Mnemonic.opcode specification.mnemonics opcode mnemonic := by
  refine ⟨?_, ?_, specifications.standsFirst_forVersion, ?_⟩
  · exact specifications.load_of_parse? (parse?_eq_some specifications.spellsDocument_document)
  · intro document hspells
    exact specifications.load_of_parse? (parse?_eq_some hspells)
  · intro specification hmember
    constructor
    · intro tag layout
      rw [specification.layout?_eq_lastWith?]
      exact lastWith?_eq_some_iff ConstantLayout.tag specification.constants tag layout
    · intro opcode mnemonic
      rw [specification.mnemonic?_eq_lastWith?]
      exact lastWith?_eq_some_iff Mnemonic.opcode specification.mnemonics opcode mnemonic

/-- A specification that lists an opcode twice and has quotes in the role of a field. -/
def quotesAndRepeats : Specification :=
  .new ["1.0"] [⟨1, .utf8, [⟨"a \"length\"", .utf8⟩]⟩]
    [⟨0, "first", .tableSwitch⟩, ⟨1, "other", .wide⟩, ⟨0, "second", .fixed 255⟩]

/-- Two specifications that list the same version. -/
def twoEntries : Specifications :=
  ⟨[quotesAndRepeats, .new ["1.0", "1.1"] [] []], List.cons_ne_nil _ _⟩

/-- Tables that were written on several lines are loaded too, and the last row under an opcode
explains it. -/
theorem load_document_twoEntries :
    load (Utf8.encode (pretty twoEntries.json).toList) = .ok twoEntries ∧
      quotesAndRepeats.mnemonic? 0 = some ⟨0, "second", .fixed 255⟩ := by
  have hspells : SpellsDocument (Utf8.encode (pretty twoEntries.json).toList)
      twoEntries.json.quote := by
    rw [pretty, String.toList_ofList]
    exact spellsDocument_render twoEntries.isSpelled_json
  obtain ⟨-, hload, -, hrows⟩ := load_document twoEntries
  refine ⟨hload _ hspells, ?_⟩
  rw [(hrows quotesAndRepeats List.mem_cons_self).2]
  exact ⟨[⟨0, "first", .tableSwitch⟩, ⟨1, "other", .wide⟩], [], rfl, rfl, by simp⟩

end Specifications

end ClassCensus
