import ClassCensus.ClassFile.Attribute.Written
import ClassCensus.Proofs.ClassFile.Layout

/-!
# Attributes that nest others

How deep attributes may nest is bounded only so that decoding ends: an attribute in the body of
another one has a shorter body, so the bound is never reached, and a nested attribute is what its
own octets make it.  With that, the bodies of `Code` and `Record` attributes obey the same laws of
layout as class bodies.
-/

namespace ClassCensus

namespace Decoder

variable {α β : Type} {tables : Tables}

/-! ## The bound on the depth -/

/-- That two decoders do the same wherever at most `bound` octets are left. -/
def AgreeWithin (bound : Nat) (first second : Decoder α) : Prop :=
  ∀ before : Cursor, before.rest.length ≤ bound → first before = second before

section

variable {bound : Nat} {post : List UInt8 → List String → α → Prop}

theorem AgreeWithin.refl (decoder : Decoder α) : AgreeWithin bound decoder decoder :=
  fun _ _ => rfl

theorem AgreeWithin.symm {first second : Decoder α} (hagree : AgreeWithin bound first second) :
    AgreeWithin bound second first :=
  fun before hbefore => (hagree before hbefore).symm

theorem AgreeWithin.trans {first second third : Decoder α} (hfirst : AgreeWithin bound first second)
    (hsecond : AgreeWithin bound second third) : AgreeWithin bound first third :=
  fun before hbefore => (hfirst before hbefore).trans (hsecond before hbefore)

theorem AgreeWithin.mono {less : Nat} {first second : Decoder α}
    (hagree : AgreeWithin bound first second) (hless : less ≤ bound) :
    AgreeWithin less first second :=
  fun before hbefore => hagree before (Nat.le_trans hbefore hless)

/-- What follows a decoder has no more octets left. -/
theorem AgreeWithin.bind {first second : Decoder α} {next others : α → Decoder β}
    (hagree : AgreeWithin bound first second)
    (hensures : Ensures (fun _ => True) first post)
    (hnext : ∀ value, AgreeWithin bound (next value) (others value)) :
    AgreeWithin bound (first >>= next) (second >>= others) := by
  intro before hbefore
  simp only [Bind.bind, EStateM.bind, ← hagree before hbefore]
  cases hfirst : first before with
  | error fault after => rfl
  | ok value after =>
      obtain ⟨taken, met, -, hpasses, -⟩ := hensures.ok hfirst
      have hless : after.rest.length ≤ before.rest.length := by
        rw [hpasses.rest, List.length_append]
        exact Nat.le_add_left _ _
      exact hnext value after (Nat.le_trans hless hbefore)

theorem AgreeWithin.after {decoder : Decoder α} {next others : α → Decoder β}
    (hensures : Ensures (fun _ => True) decoder post)
    (hnext : ∀ value, AgreeWithin bound (next value) (others value)) :
    AgreeWithin bound (decoder >>= next) (decoder >>= others) :=
  (AgreeWithin.refl decoder).bind hensures hnext

theorem AgreeWithin.map {first second : Decoder α} (hagree : AgreeWithin bound first second)
    (make : α → β) :
    AgreeWithin bound (do return make (← first)) (do return make (← second)) := by
  intro before hbefore
  simp only [Bind.bind, EStateM.bind, hagree before hbefore]

theorem AgreeWithin.timesOnto {first second : Decoder α} (hagree : AgreeWithin bound first second)
    (hensures : Ensures (fun _ => True) first post) (count : Nat) (before : List α) :
    AgreeWithin bound (timesOnto first count before) (timesOnto second count before) := by
  induction count generalizing before with
  | zero => exact .refl _
  | succ count ih => exact hagree.bind hensures fun value => ih (value :: before)

theorem AgreeWithin.table {first second : Decoder α} (hagree : AgreeWithin bound first second)
    (hensures : Ensures (fun _ => True) first post) :
    AgreeWithin bound (table first) (table second) :=
  .after ensures_u2 fun count => hagree.timesOnto hensures count.toNat []

theorem AgreeWithin.shortTable {first second : Decoder α} (hagree : AgreeWithin bound first second)
    (hensures : Ensures (fun _ => True) first post) :
    AgreeWithin bound (shortTable first) (shortTable second) :=
  .after ensures_u1 fun count => hagree.timesOnto hensures count.toNat []

end

section

variable {bound : Nat} {first second : Decoder Attribute}
variable {post : List UInt8 → List String → Attribute → Prop}
variable (hagree : AgreeWithin bound first second)
variable (hensures : Ensures (fun _ => True) first post)

include hagree hensures

theorem AgreeWithin.code : AgreeWithin bound (code tables first) (code tables second) := by
  refine .after ensures_u2 fun maxStack => .after ensures_u2 fun maxLocals => ?_
  refine .after ensures_u4 fun length => .after (ensures_run _ length.toNat) fun octets => ?_
  refine .after (silent_exceptionHandler.table _) fun handlers => ?_
  exact (hagree.table hensures).map _

theorem AgreeWithin.recordComponents :
    AgreeWithin bound (Decoder.table (recordComponent tables first))
      (Decoder.table (recordComponent tables second)) := by
  have hcomponent : AgreeWithin bound (recordComponent tables first)
      (recordComponent tables second) := by
    refine .after (silent_textAt _) fun name => ?_
    refine .after (ensures_descriptorAt fun _ => trivial) fun descriptor => ?_
    exact (hagree.table hensures).map _
  have hfirst : Ensures (fun _ => True) (recordComponent tables first) fun _ _ _ => True := by
    refine (silent_textAt _).bind fun _ _ name _ => ?_
    refine (ensures_descriptorAt fun _ => trivial).bind fun _ _ descriptor _ => ?_
    exact (ensures_table hensures).bind fun _ _ attributes _ => ensures_pure trivial
  exact hcomponent.table hfirst

/-- Bodies agree where the attributes in them do. -/
theorem AgreeWithin.attributeBodyOf (kind : AttributeKind) :
    AgreeWithin bound (attributeBodyOf tables first kind) (attributeBodyOf tables second kind) := by
  cases kind
  case code => exact (hagree.code hensures).map Attribute.code
  case record => exact (hagree.recordComponents hensures).map Attribute.record
  all_goals exact .refl _

end

/-- An attribute that can be taken has a shorter body than there are octets left. -/
theorem AgreeWithin.attributeWith {bound : Nat}
    {first second : RawAttribute → Attribute × List String}
    (hmeaning : ∀ raw : RawAttribute, raw.octets.length < bound → first raw = second raw) :
    AgreeWithin bound (attributeWith first) (attributeWith second) := by
  intro before hbefore
  simp only [Decoder.attributeWith, Bind.bind, EStateM.bind]
  cases hraw : rawAttribute before with
  | error fault after => rfl
  | ok raw after =>
      have hensures : Ensures (fun _ => True) rawAttribute _ := ensures_rawAttribute
      obtain ⟨_, _, -, hpasses, rfl, -, -⟩ := hensures.ok hraw
      have hless : raw.octets.length < bound := by
        have hlength := congrArg List.length hpasses.rest
        rw [List.length_append, RawAttribute.length_written] at hlength
        omega
      simp only [hmeaning raw hless]

theorem ensures_nested (meaning : RawAttribute → Attribute × List String) :
    Ensures (fun _ => True) (attributeWith meaning) fun taken met found =>
      ∃ raw : RawAttribute, raw.Fits ∧ taken = raw.written ∧ (found, met) = meaning raw :=
  ensures_attributeWith fun _ _ _ => trivial

theorem attributeOf_congr {first second : AttributeKind → Decoder Attribute} {raw : RawAttribute}
    (hbody : ∀ kind, first kind (.start raw.octets) = second kind (.start raw.octets)) :
    attributeOf tables first raw = attributeOf tables second raw := by
  simp only [attributeOf, hbody]

/-- An attribute is the same at all depths that are greater than the length of its body. -/
theorem attributeOf_of_lt {depth : Nat} {raw : RawAttribute} (hdepth : raw.octets.length < depth) :
    attributeOf tables (attributeBody tables depth) raw = raw.meaning tables := by
  induction depth using Nat.strongRecOn generalizing raw with
  | ind depth ih =>
      obtain ⟨less, rfl⟩ : ∃ less, depth = less + 1 := ⟨depth - 1, by omega⟩
      -- A nested attribute is shorter than this one, so it is the same at both depths below.
      have hagree : AgreeWithin raw.octets.length
          (attributeWith (attributeOf tables (attributeBody tables less)))
          (attributeWith (attributeOf tables (attributeBody tables raw.octets.length))) :=
        .attributeWith fun nested hnested => by
          rw [ih less (by omega) (by omega), ih raw.octets.length hdepth hnested]
      exact attributeOf_congr fun kind =>
        hagree.attributeBodyOf (ensures_nested _) kind (.start raw.octets) (Nat.le_refl _)

theorem agreeWithin_attributeEntry (bound : Nat) :
    AgreeWithin bound (attributeWith (attributeOf tables (attributeBody tables bound)))
      (attributeEntry tables) :=
  .attributeWith fun _ hless => attributeOf_of_lt hless

/-- The attributes that nest in a body are what their own octets make them. -/
theorem attributeBody_eq (octets : List UInt8) (kind : AttributeKind) :
    attributeBody tables (octets.length + 1) kind (.start octets) =
      attributeBodyOf tables (attributeEntry tables) kind (.start octets) :=
  (agreeWithin_attributeEntry octets.length).attributeBodyOf (ensures_nested _) kind
    (.start octets) (Nat.le_refl _)

theorem attributeBody_code (octets : List UInt8) :
    attributeBody tables (octets.length + 1) .code (.start octets) =
      (do return Attribute.code (← code tables (attributeEntry tables))) (.start octets) :=
  attributeBody_eq octets .code

theorem attributeBody_record (octets : List UInt8) :
    attributeBody tables (octets.length + 1) .record (.start octets) =
      (do return Attribute.record (← table (recordComponent tables (attributeEntry tables))))
        (.start octets) :=
  attributeBody_eq octets .record

/-! ## The layout of code and of records -/

theorem reads_exceptionHandler (handler : ExceptionHandler) :
    Reads exceptionHandler handler.written handler :=
  (reads_u2 handler.start).bind _ <| (reads_u2 handler.stop).bind _ <|
    (reads_u2 handler.handler).bind _ <| (reads_u2 handler.catchType).map _

theorem takes_exceptionHandler :
    Takes exceptionHandler (fun _ => True) ExceptionHandler.written id := by
  refine ensures_u2.bind ?_
  rintro _ _ start ⟨rfl, rfl⟩
  refine ensures_u2.bind ?_
  rintro _ _ stop ⟨rfl, rfl⟩
  refine ensures_u2.bind ?_
  rintro _ _ handler ⟨rfl, rfl⟩
  refine ensures_u2.bind ?_
  rintro _ _ catchType ⟨rfl, rfl⟩
  apply ensures_pure
  exact ⟨⟨start, stop, handler, catchType⟩, trivial, by simp [ExceptionHandler.written], rfl⟩

theorem reads_code {raw : RawCode} (hfits : raw.Fits) :
    Reads (code tables (attributeEntry tables)) raw.written (raw.code tables) := by
  obtain ⟨hoctets, hhandlers, hattributes⟩ := hfits
  have hlength : (UInt32.ofNat raw.octets.length).toNat = raw.octets.length := by
    rw [UInt32.toNat_ofNat', Nat.mod_eq_of_lt hoctets]
  have hcount := reads_u4 (UInt32.ofNat raw.octets.length)
  rw [hlength] at hcount
  have htable := reads_table hhandlers fun handler _ => reads_exceptionHandler handler
  rw [List.map_id'] at htable
  refine (reads_u2 raw.maxStack).bind _ ((reads_u2 raw.maxLocals).bind _ (hcount.bind _ ?_))
  rw [hlength]
  refine (reads_chunk raw.octets).bind _ (htable.bind _ ?_)
  exact (reads_attributes hattributes.1 hattributes.2).map _

theorem takes_code :
    Takes (code tables (attributeEntry tables)) RawCode.Fits RawCode.written
      (RawCode.code tables) := by
  refine ensures_u2.bind ?_
  rintro _ _ maxStack ⟨rfl, rfl⟩
  refine ensures_u2.bind ?_
  rintro _ _ maxLocals ⟨rfl, rfl⟩
  refine ensures_u4.bind ?_
  rintro _ _ length ⟨rfl, rfl⟩
  refine (ensures_run .runCutShort length.toNat).bind ?_
  rintro octets _ _ ⟨rfl, hlength, rfl⟩
  refine takes_exceptionHandler.table.bind ?_
  rintro _ _ _ ⟨handlers, ⟨hhandlers, -⟩, rfl, rfl⟩
  refine takes_attributeEntry.table.bind ?_
  rintro _ _ _ ⟨attributes, hattributes, rfl, rfl⟩
  apply ensures_pure
  refine ⟨⟨maxStack, maxLocals, octets, handlers, attributes⟩,
    ⟨hlength ▸ length.toNat_lt, hhandlers, hattributes⟩, ?_, ?_⟩
  · simp [RawCode.written, hlength]
  · simp [RawCode.code]

theorem reads_recordComponent {raw : RawRecordComponent} (hfits : raw.Fits) :
    Reads (recordComponent tables (attributeEntry tables)) raw.written (raw.component tables) := by
  refine (reads_resolved tables.pool.textOrEmpty raw.nameIndex).bind _ ?_
  refine (reads_descriptorAt raw.descriptorIndex).bind _ ?_
  exact (reads_attributes hfits.1 hfits.2).map _

theorem takes_recordComponent :
    Takes (recordComponent tables (attributeEntry tables)) RawRecordComponent.Fits
      RawRecordComponent.written (RawRecordComponent.component tables) := by
  refine (takes_resolved tables.pool.textOrEmpty).bind ?_
  rintro _ _ _ ⟨nameIndex, -, rfl, rfl⟩
  refine (ensures_descriptorAt fun _ => trivial).bind ?_
  rintro _ _ _ ⟨descriptorIndex, rfl, rfl, rfl⟩
  refine takes_attributeEntry.table.bind ?_
  rintro _ _ _ ⟨attributes, hattributes, rfl, rfl⟩
  apply ensures_pure
  exact ⟨⟨nameIndex, descriptorIndex, attributes⟩, hattributes,
    by simp [RawRecordComponent.written], rfl⟩

/-- A decoder that takes written forms, and reads each of them, answers just what they mean. -/
theorem Takes.exists_ok_iff {decoder : Decoder α} {fits : β → Prop} {write : β → List UInt8}
    {mean : β → α} (htakes : Takes decoder fits write mean)
    (hreads : ∀ raw, fits raw → Reads decoder (write raw) (mean raw)) (octets : List UInt8)
    (value : α) :
    (∃ after, decoder (.start octets) = .ok value after) ↔
      ∃ raw rest, fits raw ∧ octets = write raw ++ rest ∧ value = mean raw := by
  have hinverts := htakes.inverts hreads
  constructor
  · rintro ⟨⟨rest, stop, metAfter⟩, hok⟩
    obtain ⟨raw, hfits, hoctets, -, hvalue⟩ := (hinverts _ _ _ _ _ _).mp ⟨metAfter, hok⟩
    exact ⟨raw, rest, hfits, hoctets, hvalue⟩
  · rintro ⟨raw, rest, hfits, hoctets, hvalue⟩
    obtain ⟨metAfter, hok⟩ :=
      (hinverts octets 0 [] value rest _).mpr ⟨raw, hfits, hoctets, rfl, hvalue⟩
    exact ⟨_, hok⟩

theorem exists_map_ok_iff {decoder : Decoder α} {make : α → β}
    (hmake : Function.Injective make) (before : Cursor) (value : α) :
    (∃ after, (do return make (← decoder) : Decoder β) before = .ok (make value) after) ↔
      ∃ after, decoder before = .ok value after := by
  simp only [Bind.bind, EStateM.bind]
  cases decoder before with
  | error fault after => simp
  | ok found after => simp [pure, EStateM.pure, hmake.eq_iff]

end Decoder

namespace RawAttribute

variable {tables : Tables} {raw : RawAttribute}

/-- An attribute is of a kind exactly if it has its name and a body that fits. -/
theorem decoded_eq_iff {found : Attribute} {kind : AttributeKind}
    (hkind : found.kind? = some kind) :
    raw.decoded tables = found ↔
      AttributeKind.ofName? (tables.pool.textOrEmpty raw.nameIndex) = some kind ∧
        ∃ after, Decoder.attributeBody tables (raw.octets.length + 1) kind (.start raw.octets) =
          .ok found after := by
  rw [decoded, meaning]
  rcases Decoder.attributeOf_cases (Decoder.attributeBody tables (raw.octets.length + 1)) raw with
    ⟨hname, hraw⟩ | ⟨other, decoded, after, hname, hbody, hraw⟩ |
    ⟨other, reason, after, hname, hbody, hraw⟩
  · rw [hraw, hname]
    constructor
    · rintro rfl
      cases hkind
    · rintro ⟨hnone, -⟩
      cases hnone
  · rw [hraw, hname]
    constructor
    · rintro rfl
      have hother := (Decoder.kind?_of_attributeBody hbody).symm.trans hkind
      cases hother
      exact ⟨rfl, after, hbody⟩
    · rintro ⟨hother, stop, hfound⟩
      cases hother
      rw [hbody] at hfound
      cases hfound
      rfl
  · rw [hraw, hname]
    constructor
    · rintro rfl
      cases hkind
    · rintro ⟨hother, stop, hfound⟩
      cases hother
      rw [hbody] at hfound
      cases hfound

theorem meaning_of_ok {found : Attribute} {kind : AttributeKind} {after : Cursor}
    (hname : AttributeKind.ofName? (tables.pool.textOrEmpty raw.nameIndex) = some kind)
    (hbody : Decoder.attributeBody tables (raw.octets.length + 1) kind (.start raw.octets) =
      .ok found after) :
    raw.meaning tables = (found, after.met) := by
  simp only [meaning, Decoder.attributeOf, hname, hbody]

theorem decoded_of_error {kind : AttributeKind} {reason : Fault} {after : Cursor}
    (hname : AttributeKind.ofName? (tables.pool.textOrEmpty raw.nameIndex) = some kind)
    (hbody : Decoder.attributeBody tables (raw.octets.length + 1) kind (.start raw.octets) =
      .error reason after) :
    raw.decoded tables =
      .malformed (tables.pool.textOrEmpty raw.nameIndex) reason raw.octets := by
  simp only [decoded, meaning, Decoder.attributeOf, hname, hbody]

/-- An attribute is malformed if the start of its body leads to a fault. -/
theorem decoded_eq_malformed {kind : AttributeKind} {start others : List UInt8}
    {fault : Fault}
    (hkind : AttributeKind.ofName? (tables.pool.textOrEmpty raw.nameIndex) = some kind)
    (hleads : Decoder.Leads (Decoder.attributeBody tables (raw.octets.length + 1) kind) start
      (throw fault))
    (hoctets : raw.octets = start ++ others) :
    raw.decoded tables =
      .malformed (tables.pool.textOrEmpty raw.nameIndex) fault raw.octets := by
  obtain ⟨more, hthrow⟩ := hleads others 0 []
  rw [← hoctets] at hthrow
  exact decoded_of_error hkind hthrow

theorem decoded_eq_code_iff {body : Code Attribute} :
    raw.decoded tables = .code body ↔
      AttributeKind.ofName? (tables.pool.textOrEmpty raw.nameIndex) = some .code ∧
        ∃ (inner : RawCode) (rest : List UInt8), inner.Fits ∧
          raw.octets = inner.written ++ rest ∧ body = inner.code tables := by
  rw [decoded_eq_iff rfl, Decoder.attributeBody_code,
    Decoder.exists_map_ok_iff fun _ _ => Attribute.code.inj,
    Decoder.takes_code.exists_ok_iff fun _ => Decoder.reads_code]

theorem decoded_eq_record_iff {components : List (RecordComponent Attribute)} :
    raw.decoded tables = .record components ↔
      AttributeKind.ofName? (tables.pool.textOrEmpty raw.nameIndex) = some .record ∧
        ∃ (inners : List RawRecordComponent) (rest : List UInt8),
          (inners.length < 65536 ∧ ∀ inner ∈ inners, inner.Fits) ∧
          raw.octets = writtenTable RawRecordComponent.written inners ++ rest ∧
          components = inners.map (RawRecordComponent.component tables) := by
  rw [decoded_eq_iff rfl, Decoder.attributeBody_record,
    Decoder.exists_map_ok_iff fun _ _ => Attribute.record.inj,
    Decoder.takes_recordComponent.table.exists_ok_iff fun inners hfits =>
      Decoder.reads_table hfits.1 fun inner hinner =>
        Decoder.reads_recordComponent (hfits.2 inner hinner)]

end RawAttribute

end ClassCensus
