import ClassCensus.Proofs.ClassFile.AnnotationFormat
import ClassCensus.Proofs.ClassFile.Nesting
import ClassCensus.Proofs.Octets.Forward

/-!
# Bodies of attributes are prefix-free

The octets that the body of an attribute takes settle what the attribute is: nothing behind them
matters, and no part of them is a body.  The one exception is the body that takes all octets there
are.

Bodies that nest are decoded with a depth, which is another one for each part of the octets.  So
two decoders that differ in their depth are shown to do the same as long as neither depth is
exceeded by the number of octets that are left.
-/

namespace ClassCensus

namespace Decoder

variable {α β : Type} {tables : Tables}

/-! ## Depths that make no difference -/

section

variable {bound : Nat}

/-- Behind a tag fewer octets are left. -/
theorem AgreeWithin.after_tag {next others : UInt8 → Decoder β}
    (hnext : ∀ less < bound, ∀ tag, AgreeWithin less (next tag) (others tag)) :
    AgreeWithin bound (u1 >>= next) (u1 >>= others) := by
  intro before hbefore
  simp only [Bind.bind, EStateM.bind]
  cases htag : u1 before with
  | error fault after => rfl
  | ok tag after =>
      have hensures : Ensures (fun _ => True) u1 _ := ensures_u1
      obtain ⟨_, _, -, hpasses, rfl, -⟩ := hensures.ok htag
      have hless : after.rest.length < bound := by
        rw [hpasses.rest, List.length_append, length_bigEndian] at hbefore
        omega
      exact hnext after.rest.length hless tag after (Nat.le_refl _)

theorem AgreeWithin.ite {condition : Prop} [Decidable condition]
    {first second third fourth : Decoder α} (hthen : AgreeWithin bound first third)
    (helse : AgreeWithin bound second fourth) :
    AgreeWithin bound (if condition then first else second)
      (if condition then third else fourth) := by
  by_cases hcondition : condition
  · rwa [if_pos hcondition, if_pos hcondition]
  · rwa [if_neg hcondition, if_neg hcondition]

/-- Annotations agree where the values in them do. -/
theorem AgreeWithin.annotationUseOf {first second : Decoder ElementValue}
    {post : List UInt8 → List String → ElementValue → Prop}
    (hagree : AgreeWithin bound first second) (hensures : Ensures (fun _ => True) first post) :
    AgreeWithin bound (annotationUseOf tables first) (annotationUseOf tables second) := by
  have helement : AgreeWithin bound (do
        let name ← textAt tables
        return (name, ← first))
      (do
        let name ← textAt tables
        return (name, ← second)) :=
    .after (silent_textAt _) fun name => hagree.map _
  have hfirst : Ensures (fun _ => True) (do
        let name ← textAt tables
        return (name, ← first)) fun _ _ _ => True :=
    (silent_textAt _).bind fun _ _ _ _ => hensures.bind fun _ _ _ _ => ensures_pure trivial
  refine .after (ensures_descriptorAt fun _ => trivial) fun type => ?_
  exact (helement.table hfirst).map _

/-- Annotations on uses of types agree where the annotations in them do. -/
theorem AgreeWithin.typeAnnotationUseOf {first second : Decoder AnnotationUse}
    (hagree : AgreeWithin bound first second) :
    AgreeWithin bound (typeAnnotationUseOf first) (typeAnnotationUseOf second) := by
  refine .after ensures_u1 fun type => .after (takes_annotationTarget type) fun target => ?_
  refine .after takes_typePathStep.shortTable fun path => ?_
  exact hagree.map _

/-- Element values agree where the values in them do, which have fewer octets. -/
theorem AgreeWithin.elementValueOf {first second : Decoder ElementValue}
    {post : List UInt8 → List String → ElementValue → Prop}
    (hagree : ∀ less < bound, AgreeWithin less first second)
    (hensures : Ensures (fun _ => True) first post) :
    AgreeWithin bound (elementValueOf tables first) (elementValueOf tables second) := by
  refine .after_tag fun less hless tag => ?_
  refine .ite (.refl _) (.ite (.refl _) (.ite (.refl _) (.ite ?_ (.ite ?_ (.refl _)))))
  · exact ((hagree less hless).annotationUseOf hensures).map fun found : AnnotationUse =>
      ElementValue.nested found.type found.elements
  · exact ((hagree less hless).table hensures).map ElementValue.array

end

/-- Element values are the same at all depths that are greater than the number of octets. -/
theorem agreeWithin_elementValueIn {bound first second : Nat} (hfirst : bound < first)
    (hsecond : bound < second) :
    AgreeWithin bound (elementValueIn tables first) (elementValueIn tables second) := by
  induction bound using Nat.strongRecOn generalizing first second with
  | ind bound ih =>
      obtain ⟨first, rfl⟩ : ∃ less, first = less + 1 := ⟨first - 1, by omega⟩
      obtain ⟨second, rfl⟩ : ∃ less, second = less + 1 := ⟨second - 1, by omega⟩
      exact .elementValueOf (fun less hless => ih less hless (by omega) (by omega))
        (takes_elementValueIn first)

section

variable {decoder : Nat → Decoder α} {post : List UInt8 → List String → α → Prop}
variable (hforward : ∀ depth, Settling (decoder depth))
variable (hagree : ∀ bound first second, bound < first → bound < second →
  AgreeWithin bound (decoder first) (decoder second))

include hforward hagree

/-- What settles an answer at one depth settles it at all depths that are great enough. -/
theorem settles_of_depth {first second : Nat} {octets : List UInt8} {met : List String} {value : α}
    (hfirst : octets.length < first) (hsecond : octets.length < second)
    (hsettles : Settles (decoder first) octets met value) :
    Settles (decoder second) octets met value := by
  have hok : decoder second (.start octets) = .ok value ⟨[], octets.length, met⟩ := by
    rw [← hagree octets.length first second hfirst hsecond (.start octets) (Nat.le_refl _)]
    simpa [Cursor.start] using hsettles.whole [] 0 []
  obtain ⟨taken, found, hpasses, hfound⟩ := (hforward second).ok hok
  have htaken : octets = taken := by simpa [Cursor.start] using hpasses.rest
  have hmet : met = found := by simpa [Cursor.start] using hpasses.met
  rwa [htaken, hmet]

/-- Supplying the depth from the number of octets that are left does not look behind them. -/
theorem settling_deep : Settling (deep decoder) := by
  intro before
  obtain ⟨taken, met, hresult⟩ := hforward (before.rest.length + 1) before
  refine ⟨taken, met, ?_⟩
  rw [deep]
  split at hresult
  next value after hok =>
    obtain ⟨hpasses, hsettles⟩ := hresult
    refine ⟨hpasses, ?_, ?_⟩
    · intro rest position others
      have henough : taken.length < (taken ++ rest).length + 1 := by
        rw [List.length_append]
        omega
      have hless : taken.length < before.rest.length + 1 := by
        rw [hpasses.rest, List.length_append]
        omega
      exact (settles_of_depth hforward hagree hless henough hsettles).whole rest position others
    · intro front others hsplit hothers position earlier
      have hless : front.length < before.rest.length + 1 := by
        rw [hpasses.rest, hsplit, List.length_append, List.length_append]
        omega
      rw [deep, hagree front.length (front.length + 1) (before.rest.length + 1)
        (Nat.lt_succ_self _) hless _ (Nat.le_refl _)]
      exact hsettles.part front others hsplit hothers position earlier
  next fault after herror => exact hresult

end

/-! ## Bodies that refuse nothing -/

theorem plain_descriptorAt : Plain (descriptorAt tables) :=
  (plain_u2.map _).bind fun descriptor => (plain_meetAll [descriptor]).bind fun _ => forward_pure _

/-- However an attribute is decoded, taking it fails only where the octets end. -/
theorem plain_attributeWith (meaning : RawAttribute → Attribute × List String) :
    Plain (attributeWith meaning) := by
  have hraw : Plain rawAttribute :=
    plain_u2.bind fun _ => plain_u4.bind fun length => (plain_chunk length.toNat).map _
  exact hraw.bind fun raw => (plain_meetAll (meaning raw).2).bind fun _ => forward_pure _

theorem plain_classNames : Plain (classNames tables) :=
  plain_table (plain_u2.map _)

theorem plain_exceptionHandler : Plain exceptionHandler :=
  plain_u2.bind fun _ => plain_u2.bind fun _ => plain_u2.bind fun _ => plain_u2.map _

theorem plain_code : Plain (code tables (attributeEntry tables)) := by
  refine plain_u2.bind fun maxStack => plain_u2.bind fun maxLocals => ?_
  refine plain_u4.bind fun length => (plain_chunk length.toNat).bind fun octets => ?_
  refine (plain_table plain_exceptionHandler).bind fun handlers => ?_
  exact (plain_table (plain_attributeWith _)).map _

theorem plain_recordComponent : Plain (recordComponent tables (attributeEntry tables)) :=
  (plain_u2.map _).bind fun _ => plain_descriptorAt.bind fun _ =>
    (plain_table (plain_attributeWith _)).map _

theorem plain_innerClass : Plain (innerClass tables) :=
  (plain_u2.map _).bind fun _ => (plain_u2.map _).bind fun _ => (plain_u2.map _).bind fun _ =>
    plain_u2.map _

theorem plain_enclosingMethod : Plain (enclosingMethod tables) :=
  (plain_u2.map _).bind fun _ => plain_u2.map _

theorem plain_lineNumber : Plain lineNumber :=
  plain_u2.bind fun _ => plain_u2.map _

theorem plain_localVariable : Plain (localVariable tables) := by
  refine plain_u2.bind fun start => plain_u2.bind fun length => (plain_u2.map _).bind fun name => ?_
  refine plain_u2.bind fun descriptorIndex => plain_u2.bind fun index => ?_
  exact (plain_meetAll [tables.pool.textOrEmpty descriptorIndex]).map _

theorem plain_bootstrapMethod : Plain bootstrapMethod :=
  plain_u2.bind fun _ => (plain_table plain_u2).map _

theorem plain_methodParameter : Plain (methodParameter tables) :=
  (plain_u2.map _).bind fun _ => plain_u2.map _

/-! ## Stack maps -/

theorem settling_verificationType : Settling verificationType := by
  refine plain_u1.forward.bind fun _ _ tag _ => ?_
  refine .ite (forward_pure _) (.ite (forward_pure _) (.ite (forward_pure _) ?_))
  refine .ite (forward_pure _) (.ite (forward_pure _) (.ite (forward_pure _) ?_))
  refine .ite (forward_pure _) (.ite (plain_u2.map _).forward ?_)
  exact .ite (plain_u2.map _).forward (forward_throw trivial)

theorem settling_stackMapFrame : Settling stackMapFrame := by
  have htypes : Settling (table verificationType) := settling_verificationType.table
  refine plain_u1.forward.bind fun _ _ type _ => ?_
  refine .ite (forward_pure _) (.ite (settling_verificationType.map _) ?_)
  refine .ite (forward_throw trivial) (.ite ?_ (.ite (plain_u2.map _).forward ?_))
  · exact Settling.bind plain_u2.forward fun delta => settling_verificationType.map _
  refine .ite (plain_u2.map _).forward (.ite ?_ ?_)
  · refine Settling.bind plain_u2.forward fun delta => Settling.map ?_ _
    exact forward_timesOnto settling_verificationType (fun _ _ _ => id) _ []
  · exact Settling.bind plain_u2.forward fun delta => htypes.bind fun locals => htypes.map _

/-! ## Annotations -/

theorem settling_annotationUseOf {value : Decoder ElementValue} (hsettling : Settling value) :
    Settling (annotationUseOf tables value) := by
  have helement : Settling (do
        let name ← textAt tables
        return (name, ← value)) :=
    (plain_u2.map _).forward.bind fun _ _ name _ => hsettling.map _
  exact plain_descriptorAt.forward.bind fun _ _ type _ => helement.table.map _

theorem settling_elementValueIn (depth : Nat) : Settling (elementValueIn tables depth) := by
  induction depth with
  | zero => exact forward_throw trivial
  | succ depth ih =>
      refine plain_u1.forward.bind fun _ _ tag _ => ?_
      refine .ite (plain_u2.map _).forward (.ite ?_ (.ite (plain_descriptorAt.map _).forward ?_))
      · refine Settling.bind plain_u2.forward fun typeIndex => ?_
        refine Settling.bind (plain_u2.map _).forward fun name => ?_
        exact Settling.map (plain_meetAll [tables.pool.textOrEmpty typeIndex]).forward _
      · refine .ite ?_ (.ite (ih.table.map _) (forward_throw trivial))
        exact Settling.map (settling_annotationUseOf ih) fun found =>
          ElementValue.nested found.type found.elements

theorem agreeWithin_annotationUseIn {bound first second : Nat} (hfirst : bound < first)
    (hsecond : bound < second) :
    AgreeWithin bound (annotationUseOf tables (elementValueIn tables first))
      (annotationUseOf tables (elementValueIn tables second)) :=
  (agreeWithin_elementValueIn hfirst hsecond).annotationUseOf (takes_elementValueIn first)

theorem settling_annotationUseIn (depth : Nat) :
    Settling (annotationUseOf tables (elementValueIn tables depth)) :=
  settling_annotationUseOf (settling_elementValueIn depth)

theorem plain_localRange : Plain localRange :=
  plain_u2.bind fun _ => plain_u2.bind fun _ => plain_u2.map _

theorem settling_annotationTarget (type : UInt8) : Settling (annotationTarget type) := by
  unfold annotationTarget
  refine .ite (plain_u1.map _).forward (.ite (plain_u2.map _).forward (.ite ?_ ?_))
  · exact Plain.forward (plain_u1.bind fun parameter => plain_u1.map _)
  refine .ite (forward_pure _) (.ite (plain_u1.map _).forward (.ite (plain_u2.map _).forward ?_))
  refine .ite ((plain_table plain_localRange).map _).forward (.ite (plain_u2.map _).forward ?_)
  refine .ite (plain_u2.map _).forward (.ite ?_ (forward_throw trivial))
  exact Plain.forward (plain_u2.bind fun place => plain_u1.map _)

theorem settling_typePathStep : Settling typePathStep := by
  refine plain_u1.forward.bind fun _ _ kind _ => plain_u1.forward.bind fun _ _ argument _ => ?_
  refine .ite (forward_pure _) (.ite (forward_throw trivial) (.ite (forward_pure _) ?_))
  exact .ite (forward_pure _) (.ite (forward_pure _) (forward_throw trivial))

theorem settling_typeAnnotationUseIn (depth : Nat) :
    Settling (typeAnnotationUseOf (annotationUseOf tables (elementValueIn tables depth))) := by
  refine plain_u1.forward.bind fun _ _ type _ => ?_
  refine (settling_annotationTarget type).bind fun target => ?_
  exact settling_typePathStep.shortTable.bind fun path => (settling_annotationUseIn depth).map _

theorem agreeWithin_typeAnnotationUseIn {bound first second : Nat} (hfirst : bound < first)
    (hsecond : bound < second) :
    AgreeWithin bound (typeAnnotationUseOf (annotationUseOf tables (elementValueIn tables first)))
      (typeAnnotationUseOf (annotationUseOf tables (elementValueIn tables second))) :=
  (agreeWithin_annotationUseIn hfirst hsecond).typeAnnotationUseOf

theorem settling_elementValue : Settling (elementValue tables) :=
  settling_deep settling_elementValueIn fun _ _ _ => agreeWithin_elementValueIn

theorem settling_annotations : Settling (annotations tables) := by
  refine settling_deep (fun depth => (settling_annotationUseIn depth).table) ?_
  intro bound first second hfirst hsecond
  exact (agreeWithin_annotationUseIn hfirst hsecond).table (takes_annotationUseIn first)

theorem settling_parameterAnnotations : Settling (parameterAnnotations tables) := by
  refine settling_deep (fun depth => (settling_annotationUseIn depth).table.shortTable) ?_
  intro bound first second hfirst hsecond
  have hagree : AgreeWithin bound (annotationUseOf tables (elementValueIn tables first)) _ :=
    agreeWithin_annotationUseIn hfirst hsecond
  exact (hagree.table (takes_annotationUseIn first)).shortTable (takes_annotationUseIn first).table

theorem settling_typeAnnotations : Settling (typeAnnotations tables) := by
  refine settling_deep (fun depth => (settling_typeAnnotationUseIn depth).table) ?_
  intro bound first second hfirst hsecond
  exact (agreeWithin_typeAnnotationUseIn hfirst hsecond).table (takes_typeAnnotationUseIn first)

/-! ## Bodies of all kinds -/

/-- A body of any kind but one does what a decoder does that does not look behind what it takes. -/
theorem exists_settling_attributeBody (tables : Tables) {kind : AttributeKind}
    (hkind : kind ≠ .sourceDebugExtension) :
    ∃ decoder : Decoder Attribute, Settling decoder ∧ ∀ octets,
      attributeBody tables (octets.length + 1) kind (.start octets) = decoder (.start octets) := by
  cases kind with
  | sourceDebugExtension => exact absurd rfl hkind
  | constantValue => exact ⟨_, (plain_u2.map _).forward, fun _ => rfl⟩
  | code => exact ⟨_, (plain_code.map _).forward, attributeBody_code⟩
  | stackMapTable => exact ⟨_, settling_stackMapFrame.table.map _, fun _ => rfl⟩
  | exceptions => exact ⟨_, (plain_classNames.map _).forward, fun _ => rfl⟩
  | innerClasses => exact ⟨_, ((plain_table plain_innerClass).map _).forward, fun _ => rfl⟩
  | enclosingMethod => exact ⟨_, plain_enclosingMethod.forward, fun _ => rfl⟩
  | synthetic => exact ⟨_, forward_pure _, fun _ => rfl⟩
  | deprecated => exact ⟨_, forward_pure _, fun _ => rfl⟩
  | signature => exact ⟨_, (plain_descriptorAt.map _).forward, fun _ => rfl⟩
  | sourceFile => exact ⟨_, (Plain.map (plain_u2.map _) _).forward, fun _ => rfl⟩
  | lineNumberTable => exact ⟨_, ((plain_table plain_lineNumber).map _).forward, fun _ => rfl⟩
  | localVariableTable =>
      exact ⟨_, ((plain_table plain_localVariable).map _).forward, fun _ => rfl⟩
  | localVariableTypeTable =>
      exact ⟨_, ((plain_table plain_localVariable).map _).forward, fun _ => rfl⟩
  | annotationDefault => exact ⟨_, settling_elementValue.map _, fun _ => rfl⟩
  | runtimeVisibleAnnotations => exact ⟨_, settling_annotations.map _, fun _ => rfl⟩
  | runtimeInvisibleAnnotations => exact ⟨_, settling_annotations.map _, fun _ => rfl⟩
  | runtimeVisibleParameterAnnotations =>
      exact ⟨_, settling_parameterAnnotations.map _, fun _ => rfl⟩
  | runtimeInvisibleParameterAnnotations =>
      exact ⟨_, settling_parameterAnnotations.map _, fun _ => rfl⟩
  | runtimeVisibleTypeAnnotations => exact ⟨_, settling_typeAnnotations.map _, fun _ => rfl⟩
  | runtimeInvisibleTypeAnnotations => exact ⟨_, settling_typeAnnotations.map _, fun _ => rfl⟩
  | bootstrapMethods =>
      exact ⟨_, ((plain_table plain_bootstrapMethod).map _).forward, fun _ => rfl⟩
  | methodParameters =>
      exact ⟨_, ((plain_shortTable plain_methodParameter).map _).forward, fun _ => rfl⟩
  | nestHost => exact ⟨_, (Plain.map (plain_u2.map _) _).forward, fun _ => rfl⟩
  | nestMembers => exact ⟨_, (plain_classNames.map _).forward, fun _ => rfl⟩
  | permittedSubclasses => exact ⟨_, (plain_classNames.map _).forward, fun _ => rfl⟩
  | record =>
      exact ⟨_, ((plain_table plain_recordComponent).map _).forward, attributeBody_record⟩

end Decoder

/-- The octets that the body of an attribute takes settle what it is and what is met in it: both
stay the same whatever follows these octets, and all that follows is left over.  A body that is any
shorter is malformed, for the reason that octets are missing. -/
theorem attributeBody_prefix_free (tables : Tables) (raw : RawAttribute) {kind : AttributeKind}
    {found : Attribute} {after : Cursor}
    (hname : AttributeKind.ofName? (tables.pool.textOrEmpty raw.nameIndex) = some kind)
    (hkind : kind ≠ .sourceDebugExtension)
    (hbody : Decoder.attributeBody tables (raw.octets.length + 1) kind (.start raw.octets) =
      .ok found after) :
    after.position ≤ raw.octets.length ∧ after.rest = raw.octets.drop after.position ∧
    (∀ others : List UInt8,
      Decoder.attributeBody tables ((raw.octets.take after.position ++ others).length + 1) kind
          (.start (raw.octets.take after.position ++ others)) =
        .ok found ⟨others, after.position, after.met⟩ ∧
      (RawAttribute.mk raw.nameIndex (raw.octets.take after.position ++ others)).meaning tables =
        (found, after.met)) ∧
    ∀ length < after.position, ∃ reason : Fault, reason.IsShort ∧
      (RawAttribute.mk raw.nameIndex (raw.octets.take length)).decoded tables =
        .malformed (tables.pool.textOrEmpty raw.nameIndex) reason (raw.octets.take length) := by
  obtain ⟨decoder, hsettling, hdecoder⟩ :=
    Decoder.exists_settling_attributeBody tables hkind
  rw [hdecoder] at hbody
  obtain ⟨taken, met, hpasses, hsettles⟩ := hsettling.ok hbody
  have hoctets : raw.octets = taken ++ after.rest := hpasses.rest
  have hposition : after.position = taken.length := by simpa [Cursor.start] using hpasses.position
  have hmet : after.met = met := by simpa [Cursor.start] using hpasses.met
  have htake : raw.octets.take after.position = taken := by
    rw [hoctets, hposition, List.take_left]
  refine ⟨?_, ?_, ?_, ?_⟩
  · rw [hposition, hoctets, List.length_append]
    exact Nat.le_add_right _ _
  · rw [hposition, hoctets, List.drop_left]
  · intro others
    have hwhole : decoder (.start (taken ++ others)) =
        .ok found ⟨others, after.position, after.met⟩ := by
      simpa [Cursor.start, hposition, hmet] using hsettles.whole others 0 []
    rw [← hdecoder] at hwhole
    have hmeaning : (RawAttribute.mk raw.nameIndex (taken ++ others)).meaning tables = _ :=
      RawAttribute.meaning_of_ok hname hwhole
    rw [htake]
    exact ⟨hwhole, hmeaning⟩
  · intro length hless
    -- The cut lies in what is taken, and something is cut off.
    have hfront : raw.octets.take length = taken.take length := by
      rw [hoctets, List.take_append_of_le_length (by omega)]
    have hothers : taken.drop length ≠ [] := by
      intro hnil
      have hle := List.drop_eq_nil_iff.mp hnil
      omega
    obtain ⟨reason, more, hshort, hstop⟩ := hsettles.part (taken.take length) (taken.drop length)
      (List.take_append_drop length taken).symm hothers 0 []
    rw [← hfront] at hstop
    have hcut : decoder (.start (raw.octets.take length)) = .error reason _ := hstop
    rw [← hdecoder] at hcut
    exact ⟨reason, hshort, RawAttribute.decoded_of_error hname hcut⟩

/-- Tables whose pool holds the name of a record, a descriptor, and the name of a signature. -/
def recordTables : Tables :=
  ⟨⟨#[none, some ⟨1, 1, .utf8, [⟨"bytes", .text "Record"⟩]⟩,
    some ⟨1, 2, .utf8, [⟨"bytes", .text "Lp/A;"⟩]⟩,
    some ⟨1, 3, .utf8, [⟨"bytes", .text "Signature"⟩]⟩]⟩, .new [] [] []⟩

/-- A record with one component, in which a signature nests, and an octet behind it. -/
def recordAttribute : RawAttribute :=
  ⟨1, [0, 1, 0, 2, 0, 2, 0, 1, 0, 3, 0, 0, 0, 2, 0, 2, 9]⟩

theorem attributeBody_recordAttribute :
    Decoder.attributeBody recordTables (recordAttribute.octets.length + 1) .record
        (.start recordAttribute.octets) =
      .ok (.record [⟨"Lp/A;", "Lp/A;", [.signature "Lp/A;"]⟩]) ⟨[9], 16, ["Lp/A;", "Lp/A;"]⟩ :=
  rfl

/-- A cut in the signature is a cut in the record. -/
theorem attributeBody_prefix_free_record :
    AttributeKind.ofName? (recordTables.pool.textOrEmpty recordAttribute.nameIndex) =
      some .record ∧
    AttributeKind.record ≠ .sourceDebugExtension ∧
    (∀ others : List UInt8,
      (RawAttribute.mk 1 (recordAttribute.octets.take 16 ++ others)).meaning recordTables =
        (.record [⟨"Lp/A;", "Lp/A;", [.signature "Lp/A;"]⟩], ["Lp/A;", "Lp/A;"])) ∧
    ∃ reason : Fault, reason.IsShort ∧
      (RawAttribute.mk 1 (recordAttribute.octets.take 15)).decoded recordTables =
        .malformed "Record" reason (recordAttribute.octets.take 15) := by
  obtain ⟨-, -, hwhole, hpart⟩ := attributeBody_prefix_free recordTables recordAttribute rfl
    (by decide) attributeBody_recordAttribute
  exact ⟨rfl, by decide, fun others => (hwhole others).2, hpart 15 (by decide)⟩

end ClassCensus
