import ClassCensus.Octets.Decoder.Reads
import ClassCensus.Proofs.ClassFile.Attributes

/-!
# The layout of class bodies

Decoding a class body undoes its layout.  The written form of a body reads back, whatever follows
it, as the class file that it stands for; and whatever decodes starts with the written form of a
body that stands for the answer.  Attributes are laid out without looking into them, so each one is
what its own octets make it, and keeps the name that it was found under.
-/

namespace ClassCensus

namespace Decoder

variable {α β : Type} {tables : Tables}

/-! ## Written bodies read back -/

theorem reads_resolved (resolve : UInt16 → α) (index : UInt16) :
    Reads (do return resolve (← u2)) (bigEndian 2 index.toNat) (resolve index) :=
  (reads_u2 index).map resolve

theorem reads_descriptorAt (index : UInt16) :
    Reads (descriptorAt tables) (bigEndian 2 index.toNat) (tables.pool.textOrEmpty index) := by
  have hmeet : Reads (do meet (tables.pool.textOrEmpty index); return tables.pool.textOrEmpty index)
      [] (tables.pool.textOrEmpty index) :=
    (reads_meet _).bind _ (reads_pure _)
  have hreads := (reads_resolved tables.pool.textOrEmpty index).bind
    (fun text => do meet text; return text) hmeet
  rwa [List.append_nil] at hreads

theorem reads_rawAttribute {raw : RawAttribute} (hfits : raw.Fits) :
    Reads rawAttribute raw.written raw := by
  have hlength : (UInt32.ofNat raw.octets.length).toNat = raw.octets.length := by
    rw [UInt32.toNat_ofNat', Nat.mod_eq_of_lt hfits]
  have hcount := reads_u4 (UInt32.ofNat raw.octets.length)
  rw [hlength] at hcount
  have hchunk := reads_chunk raw.octets
  refine (reads_u2 raw.nameIndex).bind _ (hcount.bind _ ?_)
  rw [hlength]
  exact hchunk.map (RawAttribute.mk raw.nameIndex)

/-- However an attribute is decoded, its written form is taken. -/
theorem reads_attributeWith (meaning : RawAttribute → Attribute × List String)
    {raw : RawAttribute} (hfits : raw.Fits) :
    Reads (attributeWith meaning) raw.written (meaning raw).1 := by
  have hnote : Reads (do
        modify fun cursor => { cursor with met := (meaning raw).2 ++ cursor.met }
        return (meaning raw).1) [] (meaning raw).1 :=
    fun rest position met => ⟨(meaning raw).2, rfl⟩
  have hreads := (reads_rawAttribute hfits).bind (fun raw => do
        modify fun cursor => { cursor with met := (meaning raw).2 ++ cursor.met }
        return (meaning raw).1) hnote
  rwa [List.append_nil] at hreads

theorem reads_attributeEntry {raw : RawAttribute} (hfits : raw.Fits) :
    Reads (attributeEntry tables) raw.written (raw.decoded tables) :=
  reads_attributeWith _ hfits

theorem reads_attributes {attributes : List RawAttribute} (hlength : attributes.length < 65536)
    (hfits : ∀ raw ∈ attributes, raw.Fits) :
    Reads (table (attributeEntry tables)) (writtenTable RawAttribute.written attributes)
      (attributes.map (RawAttribute.decoded tables)) :=
  reads_table hlength fun raw hraw => reads_attributeEntry (hfits raw hraw)

theorem reads_member {make : UInt16 → String → String → List Attribute → α} {raw : RawMember}
    (hfits : raw.Fits) :
    Reads (member tables make) raw.written
      (make raw.flags (tables.pool.textOrEmpty raw.nameIndex)
        (tables.pool.textOrEmpty raw.descriptorIndex)
        (raw.attributes.map (RawAttribute.decoded tables))) := by
  refine (reads_u2 raw.flags).bind _ ?_
  refine (reads_resolved tables.pool.textOrEmpty raw.nameIndex).bind _ ?_
  refine (reads_descriptorAt raw.descriptorIndex).bind _ ?_
  exact (reads_attributes hfits.1 hfits.2).map _

/-- The written form of a class body reads back, whatever follows it. -/
theorem reads_classBody (version : ClassVersion) {raw : RawClassFile} (hfits : raw.Fits) :
    Reads (classBody version tables) raw.written (raw.classFile version tables) := by
  obtain ⟨hinterfaces, hfields, hmethods, hattributes⟩ := hfits
  apply Reads.located
  refine (reads_u2 raw.flags).bind _ ?_
  refine (reads_resolved tables.pool.classNameOrEmpty raw.thisIndex).bind _ ?_
  refine (reads_resolved tables.pool.optionalClassName raw.superIndex).bind _ ?_
  refine (reads_table hinterfaces fun index _ =>
    reads_resolved tables.pool.classNameOrEmpty index).bind _ ?_
  refine (reads_table hfields.1 fun member hmember =>
    reads_member (hfields.2 member hmember)).bind _ ?_
  refine (reads_table hmethods.1 fun member hmember =>
    reads_member (hmethods.2 member hmember)).bind _ ?_
  exact (reads_attributes hattributes.1 hattributes.2).map _

/-! ## What decodes is written -/

/-- That a decoder takes the written form of something that fits and answers what it means. -/
def Takes (decoder : Decoder α) (fits : β → Prop) (write : β → List UInt8) (mean : β → α) : Prop :=
  Ensures (fun _ => True) decoder fun taken _ value =>
    ∃ raw, fits raw ∧ taken = write raw ∧ value = mean raw

theorem InOrder.exists_raw {fits : β → Prop} {write : β → List UInt8} {mean : β → α}
    {taken : List UInt8} {met : List String} {values : List α}
    (horder : InOrder (fun taken _ value => ∃ raw, fits raw ∧ taken = write raw ∧ value = mean raw)
      taken met values) :
    ∃ raws : List β, (∀ raw ∈ raws, fits raw) ∧ taken = raws.flatMap write ∧
      values = raws.map mean := by
  induction horder with
  | nil => exact ⟨[], by simp, rfl, rfl⟩
  | cons hfirst _ ih =>
      obtain ⟨raw, hraw, rfl, rfl⟩ := hfirst
      obtain ⟨raws, hraws, rfl, rfl⟩ := ih
      exact ⟨raw :: raws, List.forall_mem_cons.mpr ⟨hraw, hraws⟩, rfl, rfl⟩

theorem Takes.table {entry : Decoder α} {fits : β → Prop} {write : β → List UInt8} {mean : β → α}
    (htakes : Takes entry fits write mean) :
    Takes (table entry) (fun raws => raws.length < 65536 ∧ ∀ raw ∈ raws, fits raw)
      (writtenTable write) (List.map mean) := by
  refine (ensures_table htakes).mono ?_
  rintro taken met values ⟨hlength, others, rfl, horder⟩
  obtain ⟨raws, hraws, rfl, rfl⟩ := horder.exists_raw
  rw [List.length_map] at hlength
  exact ⟨raws, ⟨hlength, hraws⟩, by rw [writtenTable, List.length_map], rfl⟩

theorem Takes.shortTable {entry : Decoder α} {fits : β → Prop} {write : β → List UInt8}
    {mean : β → α} (htakes : Takes entry fits write mean) :
    Takes (shortTable entry) (fun raws => raws.length < 256 ∧ ∀ raw ∈ raws, fits raw)
      (fun raws => bigEndian 1 raws.length ++ raws.flatMap write) (List.map mean) := by
  refine (ensures_shortTable htakes).mono ?_
  rintro taken met values ⟨hlength, others, rfl, horder⟩
  obtain ⟨raws, hraws, rfl, rfl⟩ := horder.exists_raw
  rw [List.length_map] at hlength
  exact ⟨raws, ⟨hlength, hraws⟩, by rw [List.length_map], rfl⟩

theorem takes_resolved (resolve : UInt16 → α) :
    Takes (do return resolve (← u2)) (fun _ => True) (fun index => bigEndian 2 index.toNat)
      resolve := by
  refine (ensures_resolved resolve).mono ?_
  rintro taken met value ⟨index, rfl, rfl, rfl⟩
  exact ⟨index, trivial, rfl, rfl⟩

theorem takes_attributeEntry :
    Takes (attributeEntry tables) RawAttribute.Fits RawAttribute.written
      (RawAttribute.decoded tables) := by
  refine (ensures_attributeWith fun _ _ _ => trivial).mono ?_
  rintro taken met found ⟨raw, hfits, rfl, hraw⟩
  exact ⟨raw, hfits, rfl, congrArg Prod.fst hraw⟩

theorem takes_member (make : UInt16 → String → String → List Attribute → α) :
    Takes (member tables make) RawMember.Fits RawMember.written fun raw =>
      make raw.flags (tables.pool.textOrEmpty raw.nameIndex)
        (tables.pool.textOrEmpty raw.descriptorIndex)
        (raw.attributes.map (RawAttribute.decoded tables)) := by
  refine ensures_u2.bind ?_
  rintro _ _ flags ⟨rfl, rfl⟩
  refine (takes_resolved tables.pool.textOrEmpty).bind ?_
  rintro _ _ _ ⟨nameIndex, -, rfl, rfl⟩
  refine (ensures_descriptorAt fun _ => trivial).bind ?_
  rintro _ _ _ ⟨descriptorIndex, rfl, rfl, rfl⟩
  refine takes_attributeEntry.table.bind ?_
  rintro _ _ _ ⟨attributes, hattributes, rfl, rfl⟩
  apply ensures_pure
  exact ⟨⟨flags, nameIndex, descriptorIndex, attributes⟩, hattributes,
    by simp [RawMember.written], rfl⟩

/-- What decodes as a class body starts with the written form of one, and nothing behind it is
taken. -/
theorem takes_classBody (version : ClassVersion) :
    Takes (classBody version tables) RawClassFile.Fits RawClassFile.written
      (RawClassFile.classFile version tables) := by
  apply ensures_located
  refine ensures_u2.bind ?_
  rintro _ _ flags ⟨rfl, rfl⟩
  refine (takes_resolved tables.pool.classNameOrEmpty).bind ?_
  rintro _ _ _ ⟨thisIndex, -, rfl, rfl⟩
  refine (takes_resolved tables.pool.optionalClassName).bind ?_
  rintro _ _ _ ⟨superIndex, -, rfl, rfl⟩
  refine (takes_resolved tables.pool.classNameOrEmpty).table.bind ?_
  rintro _ _ _ ⟨interfaces, ⟨hinterfaces, -⟩, rfl, rfl⟩
  refine (takes_member Field.mk).table.bind ?_
  rintro _ _ _ ⟨fields, hfields, rfl, rfl⟩
  refine (takes_member Method.mk).table.bind ?_
  rintro _ _ _ ⟨methods, hmethods, rfl, rfl⟩
  refine takes_attributeEntry.table.bind ?_
  rintro _ _ _ ⟨attributes, hattributes, rfl, rfl⟩
  apply ensures_pure
  exact ⟨⟨flags, thisIndex, superIndex, interfaces, fields, methods, attributes⟩,
    ⟨hinterfaces, hfields, hmethods, hattributes⟩, by simp [RawClassFile.written], rfl⟩

/-! ## Formats that are undone -/

/-- That a decoder undoes a format.  It answers exactly where the octets start with the written form
of something that fits; it takes that form, nothing behind it, and answers what is meant. -/
def Inverts (decoder : Decoder α) (fits : β → Prop) (write : β → List UInt8) (mean : β → α) :
    Prop :=
  ∀ octets position met value rest stop,
    (∃ metAfter, decoder ⟨octets, position, met⟩ = .ok value ⟨rest, stop, metAfter⟩) ↔
      ∃ raw, fits raw ∧ octets = write raw ++ rest ∧ stop = position + (write raw).length ∧
        value = mean raw

theorem Takes.inverts {decoder : Decoder α} {fits : β → Prop} {write : β → List UInt8}
    {mean : β → α} (htakes : Takes decoder fits write mean)
    (hreads : ∀ raw, fits raw → Reads decoder (write raw) (mean raw)) :
    Inverts decoder fits write mean := by
  intro octets position met value rest stop
  constructor
  · rintro ⟨metAfter, hok⟩
    obtain ⟨_, _, -, hpasses, raw, hfits, rfl, rfl⟩ := Ensures.ok htakes hok
    exact ⟨raw, hfits, hpasses.rest, hpasses.position, rfl⟩
  · rintro ⟨raw, hfits, rfl, rfl, rfl⟩
    obtain ⟨more, hok⟩ := hreads raw hfits rest position met
    exact ⟨more ++ met, hok⟩

theorem inverts_deep {decoder : Nat → Decoder α} {fits : β → Prop} {write : β → List UInt8}
    {mean : β → α} (htakes : ∀ depth, Takes (decoder depth) fits write mean)
    (hreads : ∀ depth raw, fits raw → (write raw).length < depth →
      Reads (decoder depth) (write raw) (mean raw)) :
    Inverts (deep decoder) fits write mean := by
  have hdeep : Takes (deep decoder) fits write mean := ensures_deep htakes
  exact hdeep.inverts fun raw hfits => reads_deep fun depth => hreads depth raw hfits

/-! ## Attributes keep their names -/

theorem exists_eq_of_map {decoder : Decoder β} {make : β → α} {before after : Cursor} {value : α}
    (hok : (do return make (← decoder) : Decoder α) before = .ok value after) :
    ∃ found, value = make found := by
  simp only [Bind.bind, EStateM.bind] at hok
  split at hok
  next found _ _ =>
    cases hok
    exact ⟨found, rfl⟩
  next => cases hok

/-- A body that fits its kind is an attribute of that kind. -/
theorem kind?_of_attributeBody {depth : Nat} {kind : AttributeKind} {before after : Cursor}
    {found : Attribute} (hok : attributeBody tables depth kind before = .ok found after) :
    found.kind? = some kind := by
  cases depth with
  | zero => cases hok
  | succ depth =>
      -- All but three of the bodies put what they take behind the constructor of their kind.
      cases kind
      case synthetic | deprecated =>
        cases hok
        rfl
      case enclosingMethod =>
        have hensures : Ensures (fun _ => True) (enclosingMethod tables) fun _ _ found =>
            found.kind? = some .enclosingMethod := by
          refine (takes_resolved tables.pool.classNameOrEmpty).bind fun _ _ _ _ => ?_
          exact ensures_u2.bind fun _ _ _ _ => ensures_pure rfl
        obtain ⟨_, _, _, _, hkind⟩ := hensures.ok hok
        exact hkind
      all_goals
        obtain ⟨_, rfl⟩ := exists_eq_of_map hok
        rfl

end Decoder

theorem Attribute.name_of_kind? {found : Attribute} {kind : AttributeKind}
    (hkind : found.kind? = some kind) : found.name = kind.name := by
  cases found <;> cases hkind <;> rfl

theorem AttributeKind.name_of_ofName? {name : String} {kind : AttributeKind}
    (hkind : ofName? name = some kind) : kind.name = name := by
  simpa using List.find?_some hkind

/-- An attribute keeps the name that it was found under, and its octets if it is not decoded. -/
theorem RawAttribute.decoded_keeps (tables : Tables) (raw : RawAttribute) :
    (raw.decoded tables).name = tables.pool.textOrEmpty raw.nameIndex ∧
    (∀ name octets, raw.decoded tables = .unrecognized name octets → octets = raw.octets) ∧
    (∀ name reason octets, raw.decoded tables = .malformed name reason octets →
      octets = raw.octets) := by
  rw [decoded, meaning]
  rcases Decoder.attributeOf_cases (Decoder.attributeBody tables (raw.octets.length + 1)) raw with
    ⟨-, hraw⟩ | ⟨kind, found, after, hname, hfound, hraw⟩ | ⟨kind, reason, after, -, -, hraw⟩
  · rw [hraw]
    exact ⟨rfl, by simp, by simp⟩
  · have hkind := Decoder.kind?_of_attributeBody hfound
    rw [hraw]
    refine ⟨?_, ?_, ?_⟩
    · rw [Attribute.name_of_kind? hkind]
      exact AttributeKind.name_of_ofName? hname
    · rintro _ _ rfl
      cases hkind
    · rintro _ _ _ rfl
      cases hkind
  · rw [hraw]
    exact ⟨rfl, by simp, by simp⟩

/-! ## Decoding undoes the layout -/

/-- A class body decodes exactly if its octets start with the written form of one.  The answer is
the class file that it stands for, and nothing behind it is taken.  The superclass is missing only
for index 0, each attribute is what its octets alone decode to, it has the name at its index, and
its body is kept if it is not known or does not fit its name. -/
theorem classBody_inverts_layout (version : ClassVersion) (tables : Tables) :
    (∀ octets position met classFile rest stop,
      (∃ metAfter, Decoder.classBody version tables ⟨octets, position, met⟩ =
          .ok classFile ⟨rest, stop, metAfter⟩) ↔
        ∃ raw : RawClassFile, raw.Fits ∧ octets = raw.written ++ rest ∧
          stop = position + raw.written.length ∧ classFile = raw.classFile version tables) ∧
    (∀ raw : RawClassFile,
      (raw.classFile version tables).superClass = none ↔ raw.superIndex = 0) ∧
    (∀ raw : RawAttribute,
      (raw.Fits → ∃ met, Decoder.attributeEntry tables (.start raw.written) =
        .ok (raw.decoded tables) ⟨[], raw.written.length, met⟩) ∧
      (raw.decoded tables).name = tables.pool.textOrEmpty raw.nameIndex ∧
      (∀ name octets, raw.decoded tables = .unrecognized name octets → octets = raw.octets) ∧
      (∀ name reason octets, raw.decoded tables = .malformed name reason octets →
        octets = raw.octets)) := by
  refine ⟨?_, ?_, ?_⟩
  · intro octets position met classFile rest stop
    constructor
    · rintro ⟨metAfter, hok⟩
      obtain ⟨taken, more, -, hpasses, raw, hfits, rfl, rfl⟩ :=
        (Decoder.takes_classBody version).ok hok
      exact ⟨raw, hfits, hpasses.rest, hpasses.position, rfl⟩
    · rintro ⟨raw, hfits, rfl, rfl, rfl⟩
      obtain ⟨more, hok⟩ := Decoder.reads_classBody version hfits rest position met
      exact ⟨more ++ met, hok⟩
  · intro raw
    by_cases hzero : raw.superIndex = 0 <;>
      simp [RawClassFile.classFile, ConstantPool.optionalClassName, hzero]
  · intro raw
    refine ⟨fun hfits => ?_, raw.decoded_keeps tables⟩
    obtain ⟨met, hok⟩ := Decoder.reads_attributeEntry hfits [] 0 []
    exact ⟨met, by simpa [Cursor.start] using hok⟩

/-- Tables whose pool holds a descriptor at index 1 and the name of an attribute at index 2. -/
def signatureTables : Tables :=
  ⟨⟨#[none, some ⟨1, 1, .utf8, [⟨"bytes", .text "Lp/A;"⟩]⟩,
    some ⟨1, 2, .utf8, [⟨"bytes", .text "Signature"⟩]⟩]⟩, .new [] [] []⟩

/-- A class body with one field, whose signature is its descriptor. -/
def signatureBody : RawClassFile :=
  ⟨33, 0, 0, [], [⟨2, 1, 1, [⟨2, [0, 1]⟩]⟩], [], []⟩

theorem signatureBody_fits : signatureBody.Fits := by
  simp [signatureBody, RawClassFile.Fits, RawMember.Fits, RawAttribute.Fits]

/-- The octet behind the body is not taken. -/
theorem classBody_inverts_layout_field :
    signatureBody.Fits ∧ ∃ metAfter,
      Decoder.classBody ⟨61, 0⟩ signatureTables ⟨signatureBody.written ++ [7], 10, []⟩ =
        .ok ⟨⟨61, 0⟩, 33, "", none, [], [⟨2, "Lp/A;", "Lp/A;", [.signature "Lp/A;"]⟩], [], []⟩
          ⟨[7], 40, metAfter⟩ :=
  ⟨signatureBody_fits, ((classBody_inverts_layout ⟨61, 0⟩ signatureTables).1
    (signatureBody.written ++ [7]) 10 [] _ [7] 40).mpr
      ⟨signatureBody, signatureBody_fits, rfl, rfl, rfl⟩⟩

end ClassCensus
