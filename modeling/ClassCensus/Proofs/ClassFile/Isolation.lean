import ClassCensus.Proofs.ClassFile.Nesting
import ClassCensus.Proofs.ClassFile.Places

/-!
# Attributes are isolated

Other octets of the same length in the body of an attribute, however deep it is nested, change
nothing but that attribute.  The octets of the attribute stand in those of what carries it, these
in those of the attribute around it, and so on up to the class body; each time, what is written
around them reads as before.
-/

namespace ClassCensus

/-! ## Octets that stand in others -/

section

variable {α β γ : Type}

/-- That octets are the written form of something that fits and means a value. -/
def Spells (fits : β → Prop) (write : β → List UInt8) (mean : β → α) (octets : List UInt8)
    (value : α) : Prop :=
  ∃ raw, fits raw ∧ octets = write raw ∧ value = mean raw

/-- That a run stands in octets, and that other runs of its length may stand there instead: if they
spell a value, the octets spell what `wrap` makes of it. -/
def Embeds (inner : List UInt8 → α → Prop) (outer : List UInt8 → β → Prop)
    (run octets : List UInt8) (wrap : α → β) : Prop :=
  ∃ before behind, octets = before ++ (run ++ behind) ∧
    ∀ others value, others.length = run.length → inner others value →
      outer (before ++ (others ++ behind)) (wrap value)

theorem Embeds.trans {inner : List UInt8 → α → Prop} {middle : List UInt8 → β → Prop}
    {outer : List UInt8 → γ → Prop} {run part octets : List UInt8} {wrap : α → β} {wrapAll : β → γ}
    (hinner : Embeds inner middle run part wrap)
    (houter : Embeds middle outer part octets wrapAll) :
    Embeds inner outer run octets (fun value => wrapAll (wrap value)) := by
  obtain ⟨before, behind, rfl, hinner⟩ := hinner
  obtain ⟨first, last, rfl, houter⟩ := houter
  refine ⟨first ++ before, behind ++ last, by simp, fun others value hlength hspells => ?_⟩
  have hpart : (before ++ (others ++ behind)).length = (before ++ (run ++ behind)).length := by
    simp only [List.length_append, hlength]
  have hall := houter _ _ hpart (hinner others value hlength hspells)
  simpa using hall

theorem Embeds.congr {inner : List UInt8 → α → Prop} {outer : List UInt8 → β → Prop}
    {run octets : List UInt8} {wrap wrapped : α → β} (hembeds : Embeds inner outer run octets wrap)
    (hwrap : ∀ value, wrap value = wrapped value) : Embeds inner outer run octets wrapped :=
  funext hwrap ▸ hembeds

end

/-! ## Entries of tables -/

section

variable {α β : Type}

/-- Whether the entries of a table fit, and their number. -/
def TableFits (fits : β → Prop) (raws : List β) : Prop :=
  raws.length < 65536 ∧ ∀ raw ∈ raws, fits raw

/-- That octets spell a table, the entries of which they spell one after the other. -/
abbrev SpellsTable (fits : β → Prop) (write : β → List UInt8) (mean : β → α) :
    List UInt8 → List α → Prop :=
  Spells (TableFits fits) (writtenTable write) (List.map mean)

theorem exists_getElem?_of_map {mean : β → α} {raws : List β} {index : Nat} {value : α}
    (hvalue : (raws.map mean)[index]? = some value) :
    ∃ raw, raws[index]? = some raw ∧ mean raw = value := by
  rw [List.getElem?_map] at hvalue
  exact Option.map_eq_some_iff.mp hvalue

theorem embeds_entry {fits : β → Prop} {write : β → List UInt8} {mean : β → α} {raws : List β}
    {index : Nat} {raw : β} (hfits : TableFits fits raws) (hraw : raws[index]? = some raw) :
    Embeds (Spells fits write mean) (SpellsTable fits write mean) (write raw)
      (writtenTable write raws) fun value => (raws.map mean).modify index fun _ => value := by
  obtain ⟨front, back, rfl, rfl⟩ := exists_append_of_getElem? hraw
  refine ⟨bigEndian 2 (front ++ raw :: back).length ++ front.flatMap write, back.flatMap write,
    by simp [writtenTable], ?_⟩
  rintro _ _ - ⟨other, hother, rfl, rfl⟩
  have hothers : TableFits fits (front ++ other :: back) := by
    obtain ⟨hfront, hback⟩ := List.forall_mem_append.mp hfits.2
    have hcons := List.forall_mem_cons.mpr ⟨hother, (List.forall_mem_cons.mp hback).2⟩
    exact ⟨by simpa using hfits.1, List.forall_mem_append.mpr ⟨hfront, hcons⟩⟩
  refine ⟨front ++ other :: back, hothers, by simp [writtenTable], ?_⟩
  have hmodify := modify_append_cons (front.map mean) (back.map mean) (mean raw) fun _ => mean other
  simpa using hmodify

end

/-! ## What carries attributes -/

section

variable {α β : Type} {tables : Tables}

/-- That octets spell an attribute. -/
abbrev SpellsAttribute (tables : Tables) : List UInt8 → Attribute → Prop :=
  Spells RawAttribute.Fits RawAttribute.written (RawAttribute.decoded tables)

/-- That octets spell a table of attributes. -/
abbrev SpellsAttributes (tables : Tables) : List UInt8 → List Attribute → Prop :=
  SpellsTable RawAttribute.Fits RawAttribute.written (RawAttribute.decoded tables)

/-- That a table of attributes stands in octets.  With other attributes in that table, they spell
what `wrap` makes of these. -/
def Carries (tables : Tables) (outer : List UInt8 → α → Prop) (octets : List UInt8)
    (attributes : List Attribute) (wrap : List Attribute → α) : Prop :=
  ∃ raws, TableFits RawAttribute.Fits raws ∧ attributes = raws.map (RawAttribute.decoded tables) ∧
    Embeds (SpellsAttributes tables) outer (writtenTable RawAttribute.written raws) octets wrap

section

variable {inner : List UInt8 → α → Prop} {outer : List UInt8 → β → Prop} {run octets : List UInt8}
variable {attributes : List Attribute} {wrap : List Attribute → α}

theorem Carries.trans {wrapAll : α → β} (hcarries : Carries tables inner run attributes wrap)
    (hembeds : Embeds inner outer run octets wrapAll) :
    Carries tables outer octets attributes fun others => wrapAll (wrap others) := by
  obtain ⟨raws, hraws, hattributes, htable⟩ := hcarries
  exact ⟨raws, hraws, hattributes, htable.trans hembeds⟩

theorem Carries.congr {wrapped : List Attribute → α}
    (hcarries : Carries tables inner run attributes wrap)
    (hwrap : ∀ others, wrap others = wrapped others) :
    Carries tables inner run attributes wrapped :=
  funext hwrap ▸ hcarries

end

theorem carries_code {raw : RawCode} (hfits : raw.Fits) :
    Carries tables (Spells RawCode.Fits RawCode.written (RawCode.code tables)) raw.written
      (raw.code tables).attributes fun attributes => { raw.code tables with attributes } := by
  refine ⟨raw.attributes, hfits.2.2, rfl, bigEndian 2 raw.maxStack.toNat ++
    (bigEndian 2 raw.maxLocals.toNat ++ (bigEndian 4 raw.octets.length ++ (raw.octets ++
      writtenTable ExceptionHandler.written raw.handlers))), [], by simp [RawCode.written], ?_⟩
  rintro _ _ - ⟨others, hothers, rfl, rfl⟩
  refine ⟨{ raw with attributes := others }, ⟨hfits.1, hfits.2.1, hothers⟩, ?_, rfl⟩
  simp [RawCode.written]

theorem carries_recordComponent {raw : RawRecordComponent} (hfits : raw.Fits) :
    Carries tables
      (Spells RawRecordComponent.Fits RawRecordComponent.written
        (RawRecordComponent.component tables))
      raw.written (raw.component tables).attributes
      fun attributes => { raw.component tables with attributes } := by
  refine ⟨raw.attributes, hfits, rfl, bigEndian 2 raw.nameIndex.toNat ++
    bigEndian 2 raw.descriptorIndex.toNat, [], by simp [RawRecordComponent.written], ?_⟩
  rintro _ _ - ⟨others, hothers, rfl, rfl⟩
  refine ⟨{ raw with attributes := others }, hothers, ?_, rfl⟩
  simp [RawRecordComponent.written]

/-- A table carries what its entries carry. -/
theorem carries_table {fits : β → Prop} {write : β → List UInt8} {mean : β → α}
    (get : α → List Attribute) (put : List Attribute → α → α)
    (hentry : ∀ raw, fits raw → Carries tables (Spells fits write mean) (write raw)
      (get (mean raw)) fun attributes => put attributes (mean raw))
    {raws : List β} (hfits : TableFits fits raws) {index : Nat} {attributes : List Attribute}
    (hattributes : (raws.map mean)[index]?.map get = some attributes) :
    Carries tables (SpellsTable fits write mean) (writtenTable write raws) attributes
      fun others => (raws.map mean).modify index (put others) := by
  obtain ⟨value, hvalue, rfl⟩ := Option.map_eq_some_iff.mp hattributes
  obtain ⟨raw, hraw, rfl⟩ := exists_getElem?_of_map hvalue
  have hraws := (hentry raw (hfits.2 raw (List.mem_of_getElem? hraw))).trans
    (embeds_entry hfits hraw)
  exact hraws.congr fun others => modify_congr hvalue rfl

/-- Fields and methods are members, which differ in what is made of their parts. -/
theorem carries_members (mean : RawMember → α) (get : α → List Attribute)
    (put : List Attribute → α → α)
    (hget : ∀ raw, get (mean raw) = raw.attributes.map (RawAttribute.decoded tables))
    (hput : ∀ raw others, mean { raw with attributes := others } =
      put (others.map (RawAttribute.decoded tables)) (mean raw))
    {members : List RawMember} (hfits : TableFits RawMember.Fits members) {index : Nat}
    {attributes : List Attribute}
    (hattributes : (members.map mean)[index]?.map get = some attributes) :
    Carries tables (SpellsTable RawMember.Fits RawMember.written mean)
      (writtenTable RawMember.written members) attributes
      fun others => (members.map mean).modify index (put others) := by
  refine carries_table get put (fun raw hraw => ?_) hfits hattributes
  refine ⟨raw.attributes, hraw, hget raw, bigEndian 2 raw.flags.toNat ++
    (bigEndian 2 raw.nameIndex.toNat ++ bigEndian 2 raw.descriptorIndex.toNat), [],
    by simp [RawMember.written], ?_⟩
  rintro _ _ - ⟨others, hothers, rfl, rfl⟩
  refine ⟨{ raw with attributes := others }, hothers, ?_, (hput raw others).symm⟩
  simp [RawMember.written]

/-- What is spelled in the body of an attribute may be followed by octets that are ignored. -/
theorem embeds_body {spells : List UInt8 → α → Prop} {wrap : α → Attribute} {raw : RawAttribute}
    {run rest : List UInt8} (hfits : raw.Fits) (hoctets : raw.octets = run ++ rest)
    (hwrap : ∀ others value, spells others value →
      RawAttribute.decoded tables { raw with octets := others ++ rest } = wrap value) :
    Embeds spells (SpellsAttribute tables) run raw.written wrap := by
  refine ⟨bigEndian 2 raw.nameIndex.toNat ++ bigEndian 4 raw.octets.length, rest,
    by simp [RawAttribute.written, hoctets], fun others value hlength hspells => ?_⟩
  have hsame : (others ++ rest).length = raw.octets.length := by
    rw [hoctets, List.length_append, List.length_append, hlength]
  refine ⟨{ raw with octets := others ++ rest }, ?_, ?_, (hwrap others value hspells).symm⟩
  · exact Nat.lt_of_le_of_lt (Nat.le_of_eq hsame) hfits
  · simp only [RawAttribute.written, hsame, List.append_assoc]

/-- The body of an attribute carries the attributes that are nested in it. -/
theorem carries_attributesIn {raw : RawAttribute} (hfits : raw.Fits) {slot : AttributeSlot}
    {attributes : List Attribute}
    (hattributes : (raw.decoded tables).attributesIn? slot = some attributes) :
    Carries tables (SpellsAttribute tables) raw.written attributes fun others =>
      (raw.decoded tables).modifyIn (fun _ => others) slot := by
  generalize hdecoded : raw.decoded tables = found at hattributes ⊢
  revert hattributes
  fun_cases Attribute.attributesIn? slot found with
  | case1 body =>
      intro hattributes
      obtain ⟨hname, inner, rest, hinner, hoctets, rfl⟩ :=
        RawAttribute.decoded_eq_code_iff.mp hdecoded
      cases hattributes
      refine (carries_code hinner).trans (embeds_body hfits hoctets ?_)
      rintro _ _ ⟨other, hother, rfl, rfl⟩
      exact RawAttribute.decoded_eq_code_iff.mpr ⟨hname, other, rest, hother, rfl, rfl⟩
  | case2 index components =>
      intro hattributes
      obtain ⟨hname, inners, rest, hinners, hoctets, rfl⟩ :=
        RawAttribute.decoded_eq_record_iff.mp hdecoded
      have hcarries := carries_table RecordComponent.attributes
        (fun attributes component => { component with attributes })
        (fun _ => carries_recordComponent) hinners hattributes
      refine hcarries.trans (embeds_body hfits hoctets ?_)
      rintro _ _ ⟨others, hothers, rfl, rfl⟩
      exact RawAttribute.decoded_eq_record_iff.mpr ⟨hname, others, rest, hothers, rfl, rfl⟩
  | case3 => simp

/-- The octets of an attribute, however deep it is nested, stand in those of the table that the
outermost attribute around it is in. -/
theorem exists_embeds_at {steps : List AttributeStep} {raws : List RawAttribute}
    (hraws : TableFits RawAttribute.Fits raws) {index : Nat} {outer found : Attribute}
    (houter : (raws.map (RawAttribute.decoded tables))[index]? = some outer)
    (hfound : outer.at? steps = some found) :
    ∃ inner : RawAttribute, inner.Fits ∧ inner.decoded tables = found ∧
      Embeds (SpellsAttribute tables) (SpellsAttributes tables) inner.written
        (writtenTable RawAttribute.written raws) fun replacement =>
          (raws.map (RawAttribute.decoded tables)).modify index fun outer =>
            outer.replaceAt steps replacement := by
  obtain ⟨raw, hraw, rfl⟩ := exists_getElem?_of_map houter
  have hfits : raw.Fits := hraws.2 raw (List.mem_of_getElem? hraw)
  induction steps generalizing raws index raw with
  | nil => exact ⟨raw, hfits, Option.some.inj hfound, embeds_entry hraws hraw⟩
  | cons step steps ih =>
      obtain ⟨nested, hnested, hinner⟩ := Option.bind_eq_some_iff.mp hfound
      obtain ⟨attributes, hattributes, hnested⟩ := Option.bind_eq_some_iff.mp hnested
      obtain ⟨others, hothers, rfl, hembeds⟩ := carries_attributesIn hfits hattributes
      obtain ⟨other, hother, rfl⟩ := exists_getElem?_of_map hnested
      have hotherFits : other.Fits := hothers.2 other (List.mem_of_getElem? hother)
      obtain ⟨inner, hinnerFits, hdecoded, hinside⟩ :=
        ih hothers other hother hnested hinner hotherFits
      -- From the inside out: the table nested in this attribute, the attribute, and its own table.
      refine ⟨inner, hinnerFits, hdecoded,
        ((hinside.trans hembeds).trans (embeds_entry hraws hraw)).congr fun replacement => ?_⟩
      refine modify_congr houter (Attribute.modifyIn_congr hattributes ?_)
      rfl

end

/-! ## Attributes in class bodies -/

section

/-- That octets spell what follows the constant pool. -/
abbrev SpellsClassFile (version : ClassVersion) (tables : Tables) : List UInt8 → ClassFile → Prop :=
  Spells RawClassFile.Fits RawClassFile.written (RawClassFile.classFile version tables)

/-- The octets in front of the fields. -/
def RawClassFile.writtenStart (raw : RawClassFile) : List UInt8 :=
  bigEndian 2 raw.flags.toNat ++ (bigEndian 2 raw.thisIndex.toNat ++
    (bigEndian 2 raw.superIndex.toNat ++
      writtenTable (fun index => bigEndian 2 index.toNat) raw.interfaces))

variable {version : ClassVersion} {tables : Tables} {raw : RawClassFile}

theorem embeds_fields (hfits : raw.Fits) :
    Embeds (SpellsTable RawMember.Fits RawMember.written (RawMember.field tables))
      (SpellsClassFile version tables) (writtenTable RawMember.written raw.fields) raw.written
      fun fields => { raw.classFile version tables with fields } := by
  refine ⟨raw.writtenStart, writtenTable RawMember.written raw.methods ++
    writtenTable RawAttribute.written raw.attributes,
    by simp [RawClassFile.written, RawClassFile.writtenStart], ?_⟩
  rintro _ _ - ⟨others, hothers, rfl, rfl⟩
  refine ⟨{ raw with fields := others }, ⟨hfits.1, hothers, hfits.2.2⟩, ?_, rfl⟩
  simp [RawClassFile.written, RawClassFile.writtenStart]

theorem embeds_methods (hfits : raw.Fits) :
    Embeds (SpellsTable RawMember.Fits RawMember.written (RawMember.method tables))
      (SpellsClassFile version tables) (writtenTable RawMember.written raw.methods) raw.written
      fun methods => { raw.classFile version tables with methods } := by
  refine ⟨raw.writtenStart ++ writtenTable RawMember.written raw.fields,
    writtenTable RawAttribute.written raw.attributes,
    by simp [RawClassFile.written, RawClassFile.writtenStart], ?_⟩
  rintro _ _ - ⟨others, hothers, rfl, rfl⟩
  refine ⟨{ raw with methods := others }, ⟨hfits.1, hfits.2.1, hothers, hfits.2.2.2⟩, ?_, rfl⟩
  simp [RawClassFile.written, RawClassFile.writtenStart]

theorem carries_classFile (hfits : raw.Fits) :
    Carries tables (SpellsClassFile version tables) raw.written
      (raw.classFile version tables).attributes
      fun attributes => { raw.classFile version tables with attributes } := by
  refine ⟨raw.attributes, hfits.2.2.2, rfl, raw.writtenStart ++
    (writtenTable RawMember.written raw.fields ++ writtenTable RawMember.written raw.methods), [],
    by simp [RawClassFile.written, RawClassFile.writtenStart], ?_⟩
  rintro _ _ - ⟨others, hothers, rfl, rfl⟩
  refine ⟨{ raw with attributes := others }, ⟨hfits.1, hfits.2.1, hfits.2.2.1, hothers⟩, ?_, rfl⟩
  simp [RawClassFile.written, RawClassFile.writtenStart]

/-- A class body carries the attributes of the class file, of its fields and of its methods. -/
theorem carries_holder (hfits : raw.Fits) {holder : AttributeHolder}
    {attributes : List Attribute}
    (hattributes : (raw.classFile version tables).attributesIn? holder = some attributes) :
    Carries tables (SpellsClassFile version tables) raw.written attributes fun others =>
      (raw.classFile version tables).modifyIn (fun _ => others) holder := by
  cases holder with
  | classFile =>
      cases hattributes
      exact carries_classFile hfits
  | field index =>
      have hfields := carries_members (RawMember.field tables) Field.attributes
        (fun attributes field => { field with attributes }) (fun _ => rfl) (fun _ _ => rfl)
        hfits.2.1 hattributes
      exact hfields.trans (embeds_fields hfits)
  | method index =>
      have hmethods := carries_members (RawMember.method tables) Method.attributes
        (fun attributes method => { method with attributes }) (fun _ => rfl) (fun _ _ => rfl)
        hfits.2.2.1 hattributes
      exact hmethods.trans (embeds_methods hfits)

/-- The octets of an attribute, wherever it stands, stand in those of the class body. -/
theorem exists_embeds_place (hfits : raw.Fits) {place : AttributePlace} {found : Attribute}
    (hfound : (raw.classFile version tables).attributeAt? place = some found) :
    ∃ inner : RawAttribute, inner.Fits ∧ inner.decoded tables = found ∧
      Embeds (SpellsAttribute tables) (SpellsClassFile version tables) inner.written raw.written
        ((raw.classFile version tables).replaceAt place) := by
  obtain ⟨outermost, houtermost, hinner⟩ := Option.bind_eq_some_iff.mp hfound
  obtain ⟨attributes, hattributes, hentry⟩ := Option.bind_eq_some_iff.mp houtermost
  obtain ⟨raws, hraws, rfl, hembeds⟩ := carries_holder hfits hattributes
  obtain ⟨inner, hinnerFits, hdecoded, hinside⟩ := exists_embeds_at hraws hentry hinner
  refine ⟨inner, hinnerFits, hdecoded, (hinside.trans hembeds).congr fun replacement => ?_⟩
  rw [ClassFile.replaceAt]
  refine ClassFile.modifyIn_congr hattributes ?_
  rfl

end

/-- The octets of a decoded class body hold those of every attribute in it, and others of the same
length in their place put another attribute in its place. -/
theorem exists_octets_of_attributeAt? {version : ClassVersion} {tables : Tables}
    {octets : List UInt8} {position : Nat} {met : List String} {classFile : ClassFile}
    {after : Cursor} {place : AttributePlace} {found : Attribute}
    (hdecoded : Decoder.classBody version tables ⟨octets, position, met⟩ = .ok classFile after)
    (hfound : classFile.attributeAt? place = some found) :
    ∃ (front : List UInt8) (raw : RawAttribute) (back : List UInt8),
      octets = front ++ (raw.written ++ back) ∧ raw.Fits ∧ raw.decoded tables = found ∧
      ∀ other : RawAttribute, other.octets.length = raw.octets.length → ∃ metAfter,
        Decoder.classBody version tables ⟨front ++ (other.written ++ back), position, met⟩ =
          .ok (classFile.replaceAt place (other.decoded tables))
            ⟨after.rest, after.position, metAfter⟩ := by
  obtain ⟨taken, _, -, hpasses, raw, hfits, rfl, rfl⟩ :=
    (Decoder.takes_classBody version).ok hdecoded
  obtain ⟨inner, hinner, hinnerDecoded, before, behind, hwritten, hembeds⟩ :=
    exists_embeds_place hfits hfound
  have hoctets : octets = before ++ (inner.written ++ (behind ++ after.rest)) := by
    have hrest : octets = raw.written ++ after.rest := hpasses.rest
    rw [hrest, hwritten]
    simp only [List.append_assoc]
  refine ⟨before, inner, behind ++ after.rest, hoctets, hinner, hinnerDecoded, ?_⟩
  intro other hlength
  have hlengths : other.written.length = inner.written.length := by
    rw [RawAttribute.length_written, RawAttribute.length_written, hlength]
  have hotherFits : other.Fits := Nat.lt_of_le_of_lt (Nat.le_of_eq hlength) hinner
  obtain ⟨whole, hwhole, hspelled, hmeans⟩ :=
    hembeds other.written (other.decoded tables) hlengths ⟨other, hotherFits, rfl, rfl⟩
  have hwholeLength : whole.written.length = raw.written.length := by
    rw [← hspelled, hwritten]
    simp only [List.length_append, hlengths]
  have hwholeOctets : before ++ (other.written ++ (behind ++ after.rest)) =
      whole.written ++ after.rest := by
    rw [← hspelled]
    simp only [List.append_assoc]
  have hreads : Decoder.Reads (Decoder.classBody version tables) whole.written _ :=
    Decoder.reads_classBody version hwhole
  obtain ⟨more, hread⟩ := hreads after.rest position met
  have hstop : after.position = position + whole.written.length :=
    hwholeLength ▸ hpasses.position
  exact ⟨more ++ met, by rw [hwholeOctets, hread, hstop, hmeans]⟩

/-- The octets of a decoded class body hold those of every attribute in it, however deep it is
nested.  Whatever other octets of the same length are in the body of that attribute, and whatever
its name is, the class body decodes, ends where it ended, and differs only in that attribute: at
places beside it everything is as before, and the attributes around it keep their kinds, so none of
them becomes malformed. -/
theorem classBody_isolates_attributes {version : ClassVersion} {tables : Tables}
    {octets : List UInt8} {position : Nat} {met : List String} {classFile : ClassFile}
    {after : Cursor} {place : AttributePlace} {found : Attribute}
    (hdecoded : Decoder.classBody version tables ⟨octets, position, met⟩ = .ok classFile after)
    (hfound : classFile.attributeAt? place = some found) :
    (∃ (front : List UInt8) (raw : RawAttribute) (back : List UInt8),
      octets = front ++ (raw.written ++ back) ∧ raw.Fits ∧ raw.decoded tables = found ∧
      ∀ other : RawAttribute, other.octets.length = raw.octets.length → ∃ metAfter,
        Decoder.classBody version tables ⟨front ++ (other.written ++ back), position, met⟩ =
          .ok (classFile.replaceAt place (other.decoded tables))
            ⟨after.rest, after.position, metAfter⟩) ∧
    ∀ replacement : Attribute,
      (classFile.replaceAt place replacement).attributeAt? place = some replacement ∧
      (∀ other : AttributePlace, ¬ other.Encloses place → ¬ place.Encloses other →
        (classFile.replaceAt place replacement).attributeAt? other =
          classFile.attributeAt? other) ∧
      ∀ outer : AttributePlace, outer.Encloses place → outer ≠ place →
        ∃ kind, (classFile.attributeAt? outer).bind Attribute.kind? = some kind ∧
          ((classFile.replaceAt place replacement).attributeAt? outer).bind Attribute.kind? =
            some kind := by
  refine ⟨exists_octets_of_attributeAt? hdecoded hfound, fun replacement => ⟨?_, ?_, ?_⟩⟩
  · exact ClassFile.attributeAt?_replaceAt_self hfound
  · intro other hother hplace
    exact ClassFile.attributeAt?_replaceAt_of_not_encloses hother hplace classFile
  · intro outer hencloses houter
    exact ClassFile.exists_kind?_of_encloses hfound hencloses houter

/-- Tables whose pool holds the names of two attributes. -/
def nestedTables : Tables :=
  ⟨⟨#[none, some ⟨1, 1, .utf8, [⟨"bytes", .text "Code"⟩]⟩,
    some ⟨1, 2, .utf8, [⟨"bytes", .text "Exceptions"⟩]⟩]⟩, .new [] [] []⟩

/-- Code in which an attribute without exceptions is nested. -/
def nestedCode : RawCode := ⟨1, 1, [177], [], [⟨2, [0, 0]⟩]⟩

/-- A class body with one method, which has that code. -/
def nestedBody : RawClassFile := ⟨33, 0, 0, [], [], [⟨1, 0, 0, [⟨1, nestedCode.written⟩]⟩], []⟩

/-- The place of the attribute in the code. -/
def nestedPlace : AttributePlace := ⟨.method 0, 0, [⟨.code, 0⟩]⟩

theorem nestedCode_fits : nestedCode.Fits := by
  simp [nestedCode, RawCode.Fits, RawAttribute.Fits]

theorem nestedBody_fits : nestedBody.Fits := by
  have hcode : nestedCode.written.length < 4294967296 := by decide
  simpa [nestedBody, RawClassFile.Fits, RawMember.Fits, RawAttribute.Fits] using hcode

/-- The code stays code, whatever replaces the attribute in it. -/
theorem classBody_isolates_attributes_nested :
    ∃ after classFile,
      Decoder.classBody ⟨61, 0⟩ nestedTables ⟨nestedBody.written ++ [7], 10, []⟩ =
        .ok classFile after ∧
      classFile.attributeAt? nestedPlace = some (.exceptions []) ∧
      (∃ (front : List UInt8) (raw : RawAttribute) (back : List UInt8),
        nestedBody.written ++ [7] = front ++ (raw.written ++ back) ∧ raw.Fits ∧
        raw.decoded nestedTables = .exceptions [] ∧
        ∀ other : RawAttribute, other.octets.length = raw.octets.length → ∃ metAfter,
          Decoder.classBody ⟨61, 0⟩ nestedTables ⟨front ++ (other.written ++ back), 10, []⟩ =
            .ok (classFile.replaceAt nestedPlace (other.decoded nestedTables))
              ⟨after.rest, after.position, metAfter⟩) ∧
      ∀ replacement, ∃ kind,
        (classFile.attributeAt? ⟨.method 0, 0, []⟩).bind Attribute.kind? = some kind ∧
          ((classFile.replaceAt nestedPlace replacement).attributeAt?
            ⟨.method 0, 0, []⟩).bind Attribute.kind? = some kind := by
  have hreads : Decoder.Reads (Decoder.classBody ⟨61, 0⟩ nestedTables) nestedBody.written _ :=
    Decoder.reads_classBody ⟨61, 0⟩ nestedBody_fits
  obtain ⟨more, hdecoded⟩ := hreads [7] 10 []
  have hcode : (⟨1, nestedCode.written⟩ : RawAttribute).decoded nestedTables =
      .code (nestedCode.code nestedTables) :=
    RawAttribute.decoded_eq_code_iff.mpr ⟨rfl, nestedCode, [], nestedCode_fits, by simp, rfl⟩
  have hexceptions : (⟨2, [0, 0]⟩ : RawAttribute).decoded nestedTables = .exceptions [] := rfl
  have houtermost : (nestedBody.classFile ⟨61, 0⟩ nestedTables).outermost? nestedPlace =
      some (RawAttribute.decoded nestedTables ⟨1, nestedCode.written⟩) := rfl
  have hfound : (nestedBody.classFile ⟨61, 0⟩ nestedTables).attributeAt? nestedPlace =
      some (.exceptions []) := by
    rw [ClassFile.attributeAt?, houtermost, hcode]
    exact congrArg some hexceptions
  obtain ⟨hoctets, hreplaced⟩ := classBody_isolates_attributes hdecoded hfound
  refine ⟨_, nestedBody.classFile ⟨61, 0⟩ nestedTables, hdecoded, hfound, hoctets, ?_⟩
  intro replacement
  exact (hreplaced replacement).2.2 ⟨.method 0, 0, []⟩ ⟨rfl, rfl, List.nil_prefix⟩ (by decide)

/-- Other octets of the same length may make the attribute malformed. -/
example : (⟨2, [0, 1]⟩ : RawAttribute).decoded nestedTables =
    .malformed "Exceptions" .numberCutShort [0, 1] :=
  rfl

end ClassCensus
