import ClassCensus.ClassFile.Parts
import ClassCensus.Proofs.ClassFile.Instructions
import ClassCensus.Proofs.ClassFile.Places
import ClassCensus.Proofs.ClassFile.Termination
import ClassCensus.Proofs.Octets.Affords

/-!
# Sizes of attributes

Counts in a body announce parts, but only octets make them: every part of an attribute, at any
depth, takes an octet that no other part takes.  So an attribute has no more parts than its body has
octets, and an attribute that is nested in another one leaves six of them for its name and length.
-/

namespace ClassCensus

/-! ## Parts of rows -/

namespace ElementValue

theorem elementParts_eq (elements : List (String × ElementValue)) :
    elementParts elements = (elements.map fun element => 1 + element.2.parts).sum := by
  induction elements with
  | nil => rfl
  | cons element elements ih => rw [elementParts, ih, List.map_cons, List.sum_cons]

theorem valueParts_eq (values : List ElementValue) :
    valueParts values = (values.map parts).sum := by
  induction values with
  | nil => rfl
  | cons value values ih => rw [valueParts, ih, List.map_cons, List.sum_cons]

end ElementValue

namespace Attribute

theorem partsIn_eq (attributes : List Attribute) :
    partsIn attributes = (attributes.map fun found => 1 + found.parts).sum := by
  induction attributes with
  | nil => rfl
  | cons found attributes ih => rw [partsIn, ih, List.map_cons, List.sum_cons]

theorem componentParts_eq (components : List (RecordComponent Attribute)) :
    componentParts components =
      (components.map fun component => 1 + partsIn component.attributes).sum := by
  induction components with
  | nil => rfl
  | cons component components ih => rw [componentParts, ih, List.map_cons, List.sum_cons]

end Attribute

namespace Decoder

variable {α : Type} {tables : Tables}

/-! ## Names -/

theorem affords_resolved (resolve : UInt16 → α) :
    Affords 0 (fun _ => 2) (do return resolve (← u2)) :=
  affords_u2.map resolve fun _ => Nat.le_refl 2

theorem affords_textAt : Affords 0 (fun _ => 2) (textAt tables) :=
  affords_resolved tables.pool.textOrEmpty

theorem affords_classNames : Affords 0 List.length (classNames tables) :=
  affords_rows ((affords_resolved tables.pool.classNameOrEmpty).lower fun _ => by omega)

theorem affords_descriptorAt : Affords 0 (fun _ => 2) (descriptorAt tables) :=
  affords_textAt.bind fun descriptor =>
    (affords_meet descriptor).bind fun _ => affords_pure (Nat.le_refl 2)

/-! ## Stack maps -/

theorem affords_verificationType : Affords 0 (fun _ => 1) verificationType := by
  refine affords_u1.bind fun tag => ?_
  have hpure (type : VerificationType) : Affords (0 + 1) (fun _ => 1) (pure type) :=
    affords_pure (Nat.le_refl 1)
  have hindex (make : UInt16 → VerificationType) :
      Affords (0 + 1) (fun _ => 1) (do return make (← u2)) :=
    affords_u2.map make (by simp)
  refine .ite (hpure _) (.ite (hpure _) (.ite (hpure _) (.ite (hpure _) (.ite (hpure _) ?_))))
  exact .ite (hpure _) (.ite (hpure _) (.ite (hindex _) (.ite (hindex _) (affords_throw _))))

theorem affords_stackMapFrame : Affords 0 StackMapFrame.parts stackMapFrame := by
  have htypes : Affords 0 List.length (table verificationType) :=
    affords_rows affords_verificationType
  refine affords_u1.bind fun type => ?_
  refine .ite (affords_pure (Nat.le_refl 1)) (.ite ?_ (.ite (affords_throw _) ?_))
  · exact affords_verificationType.map _ fun _ => Nat.le_refl 2
  refine .ite ?_ (.ite ?_ (.ite ?_ (.ite ?_ ?_)))
  · refine affords_u2.bind fun delta => affords_verificationType.map _ fun _ => ?_
    simp [StackMapFrame.parts]
  · exact affords_u2.map _ fun delta => by simp [StackMapFrame.parts]
  · exact affords_u2.map _ fun delta => by simp [StackMapFrame.parts]
  · refine affords_u2.bind fun delta => ?_
    refine (affords_length affords_verificationType _).map _ fun locals => ?_
    simp only [StackMapFrame.parts]
    omega
  · refine affords_u2.bind fun delta => htypes.bind fun locals => ?_
    refine htypes.map _ fun stack => ?_
    simp only [StackMapFrame.parts]
    omega

/-! ## Annotations -/

theorem affords_annotationUseOf {value : Decoder ElementValue}
    (hvalue : Affords 0 ElementValue.parts value) :
    Affords 0 (fun use => 3 + use.parts) (annotationUseOf tables value) := by
  have helement : Affords 0 (fun element : String × ElementValue => 1 + element.2.parts) (do
      let name ← textAt tables
      return (name, ← value)) := by
    refine affords_textAt.bind fun name => hvalue.map _ fun found => ?_
    simp only
    omega
  refine affords_descriptorAt.bind fun type => (affords_table helement).map _ fun elements => ?_
  simp only [AnnotationUse.parts, ElementValue.elementParts_eq]
  omega

theorem affords_elementValueIn (depth : Nat) :
    Affords 0 ElementValue.parts (elementValueIn tables depth) := by
  induction depth with
  | zero => exact affords_throw _
  | succ depth ih =>
      rw [elementValueIn, elementValueOf]
      refine affords_u1.bind fun tag => ?_
      refine .ite ?constant (.ite ?enumConstant (.ite ?classLiteral (.ite ?nested
        (.ite ?array (affords_throw _)))))
      case constant => exact affords_u2.map _ fun _ => by simp [ElementValue.parts]
      case enumConstant =>
        refine affords_u2.bind fun typeIndex => affords_textAt.bind fun name => ?_
        refine (affords_meet _).bind fun _ => affords_pure ?_
        simp [ElementValue.parts]
      case classLiteral => exact affords_descriptorAt.map _ fun _ => by simp [ElementValue.parts]
      case nested =>
        refine (affords_annotationUseOf ih).map _ fun found => ?_
        simp only [ElementValue.parts, AnnotationUse.parts]
        omega
      case array =>
        refine (affords_table ih).map _ fun values => ?_
        simp only [ElementValue.parts, ElementValue.valueParts_eq]
        omega

theorem affords_annotationUseIn (depth : Nat) :
    Affords 0 AnnotationUse.parts (annotationUseOf tables (elementValueIn tables depth)) :=
  (affords_annotationUseOf (affords_elementValueIn depth)).lower fun _ => Nat.le_add_left _ _

theorem affords_annotations :
    Affords 0 (fun uses => (uses.map AnnotationUse.parts).sum) (annotations tables) :=
  affords_deep fun depth => affords_entries (affords_annotationUseIn depth)

theorem length_add_sum_flatten (cost : α → Nat) (rows : List (List α)) :
    rows.length + (rows.flatten.map cost).sum =
      (rows.map fun values => 1 + (values.map cost).sum).sum := by
  induction rows with
  | nil => rfl
  | cons row rows ih =>
      rw [List.flatten_cons, List.map_append, List.sum_append, List.map_cons, List.sum_cons, ← ih,
        List.length_cons]
      omega

theorem affords_parameterAnnotations :
    Affords 0 (fun parameters : List (List AnnotationUse) =>
      parameters.length + (parameters.flatten.map AnnotationUse.parts).sum)
      (parameterAnnotations tables) := by
  refine affords_deep fun depth => ?_
  have hrow : Affords 0 (fun uses => 1 + (uses.map AnnotationUse.parts).sum)
      (table (annotationUseOf tables (elementValueIn tables depth))) :=
    (affords_table (affords_annotationUseIn depth)).lower fun uses => by omega
  refine (affords_shortTable hrow).lower fun parameters => ?_
  rw [length_add_sum_flatten]
  exact Nat.le_add_left _ _

theorem affords_localRange : Affords 0 (fun _ => 1) localRange :=
  affords_u2.bind fun _ => affords_u2.bind fun _ => affords_u2.map _ fun _ => by omega

theorem affords_annotationTarget (type : UInt8) :
    Affords 0 AnnotationTarget.parts (annotationTarget type) := by
  unfold annotationTarget
  refine .ite (affords_u1.map _ fun _ => Nat.zero_le _) ?_
  refine .ite (affords_u2.map _ fun _ => Nat.zero_le _) ?_
  refine .ite (affords_u1.bind fun _ => affords_u1.map _ fun _ => Nat.zero_le _) ?_
  refine .ite (affords_pure (Nat.le_refl 0)) (.ite (affords_u1.map _ fun _ => Nat.zero_le _) ?_)
  refine .ite (affords_u2.map _ fun _ => Nat.zero_le _) (.ite ?localVariable ?_)
  case localVariable =>
    exact (affords_rows affords_localRange).map _ fun ranges => by simp [AnnotationTarget.parts]
  refine .ite (affords_u2.map _ fun _ => Nat.zero_le _) ?_
  refine .ite (affords_u2.map _ fun _ => Nat.zero_le _) ?_
  refine .ite (affords_u2.bind fun _ => affords_u1.map _ fun _ => Nat.zero_le _) ?_
  exact affords_throw _

theorem affords_typePathStep : Affords 0 (fun _ => 1) typePathStep := by
  refine affords_u1.bind fun kind => affords_u1.bind fun argument => ?_
  have hpure (step : TypePathStep) : Affords (0 + 1 + 1) (fun _ => 1) (pure step) :=
    affords_pure (by omega)
  refine .ite (hpure _) (.ite (affords_throw _) (.ite (hpure _) ?_))
  exact .ite (hpure _) (.ite (hpure _) (affords_throw _))

theorem affords_typeAnnotationUseIn (depth : Nat) :
    Affords 0 TypeAnnotationUse.parts
      (typeAnnotationUseOf (annotationUseOf tables (elementValueIn tables depth))) := by
  refine affords_u1.bind fun type => (affords_annotationTarget type).bind fun target => ?_
  refine (affords_shortRows affords_typePathStep).bind fun path => ?_
  exact (affords_annotationUseIn depth).map _ fun use => by simp [TypeAnnotationUse.parts]

theorem affords_typeAnnotations :
    Affords 0 (fun uses => (uses.map TypeAnnotationUse.parts).sum) (typeAnnotations tables) :=
  affords_deep fun depth => affords_entries (affords_typeAnnotationUseIn depth)

/-! ## Other tables -/

theorem affords_innerClass : Affords 0 (fun _ => 1) (innerClass tables) := by
  refine (affords_resolved _).bind fun _ => (affords_resolved _).bind fun _ => ?_
  exact (affords_resolved _).bind fun _ => affords_u2.map _ fun _ => by omega

theorem affords_lineNumber : Affords 0 (fun _ => 1) lineNumber :=
  affords_u2.bind fun _ => affords_u2.map _ fun _ => by omega

theorem affords_localVariable : Affords 0 (fun _ => 1) (localVariable tables) := by
  refine affords_u2.bind fun start => affords_u2.bind fun length => ?_
  refine affords_textAt.bind fun name => affords_u2.bind fun descriptorIndex => ?_
  refine affords_u2.bind fun index => ?_
  exact (affords_meet _).bind fun _ => affords_pure (by omega)

theorem affords_bootstrapMethod : Affords 0 BootstrapMethod.parts bootstrapMethod := by
  refine affords_u2.bind fun method => ?_
  refine (affords_rows (affords_u2.lower fun _ => by omega)).map _ fun arguments => ?_
  simp only [BootstrapMethod.parts]
  omega

theorem affords_methodParameter : Affords 0 (fun _ => 1) (methodParameter tables) :=
  (affords_resolved _).bind fun _ => affords_u2.map _ fun _ => by omega

theorem affords_exceptionHandler : Affords 0 (fun _ => 1) exceptionHandler := by
  refine affords_u2.bind fun _ => affords_u2.bind fun _ => affords_u2.bind fun _ => ?_
  exact affords_u2.map _ fun _ => by omega

/-! ## Bodies -/

theorem affords_remaining : Affords 0 (fun _ => 0) remaining :=
  (silent_remaining _).mono fun _ _ _ _ => Nat.zero_le _

section

variable {entry : Decoder Attribute}
variable (hentry : Affords 0 (fun found => 1 + found.parts) entry)

include hentry

theorem affords_code :
    Affords 0 (fun body => body.instructions.length + body.handlers.length +
      Attribute.partsIn body.attributes) (code tables entry) := by
  refine affords_u2.bind fun maxStack => affords_u2.bind fun maxLocals => ?_
  refine affords_u4.bind fun length => (affords_run .runCutShort _).bind fun octets => ?_
  refine (affords_rows affords_exceptionHandler).bind fun handlers => ?_
  refine (affords_table hentry).map _ fun attributes => ?_
  have hinstructions :=
    (Instruction.parts_disassemble tables.specification octets).length_le
  simp only [Attribute.partsIn_eq]
  omega

theorem affords_recordComponent :
    Affords 0 (fun component => 1 + Attribute.partsIn component.attributes)
      (recordComponent tables entry) := by
  refine affords_textAt.bind fun name => affords_descriptorAt.bind fun descriptor => ?_
  refine (affords_table hentry).map _ fun attributes => ?_
  simp only [Attribute.partsIn_eq]
  omega

end

/-- Whether its body fits or not, an attribute has no more parts than its body has octets. -/
theorem parts_attributeOf_le {body : AttributeKind → Decoder Attribute}
    (hbody : ∀ kind, Affords 0 Attribute.parts (body kind)) (raw : RawAttribute) :
    (attributeOf tables body raw).1.parts ≤ raw.octets.length := by
  rcases attributeOf_cases body raw with ⟨-, hraw⟩ | ⟨kind, found, after, -, hfound, hraw⟩ |
    ⟨kind, reason, after, -, -, hraw⟩
  · rw [hraw]
    exact Nat.zero_le _
  · obtain ⟨taken, _, _, hpasses, hparts⟩ := Ensures.ok (hbody kind) hfound
    have hoctets : raw.octets = taken ++ after.rest := hpasses.rest
    rw [Nat.zero_add] at hparts
    rw [hraw, hoctets, List.length_append]
    exact Nat.le_trans hparts (Nat.le_add_right _ _)
  · rw [hraw]
    exact Nat.zero_le _

/-- The name and the length of an attribute pay for the attribute itself. -/
theorem affords_attributeWith {meaning : RawAttribute → Attribute × List String}
    (hmeaning : ∀ raw, (meaning raw).1.parts ≤ raw.octets.length) :
    Affords 0 (fun found => 1 + found.parts) (attributeWith meaning) := by
  refine (ensures_nested meaning).mono ?_
  rintro _ _ found ⟨raw, -, rfl, hraw⟩
  have hparts : found.parts ≤ raw.octets.length := by
    simpa only [← hraw] using hmeaning raw
  simp only [RawAttribute.length_written]
  omega

/-- Bodies have no more parts than octets, at any depth. -/
theorem affords_attributeBody (depth : Nat) (kind : AttributeKind) :
    Affords 0 Attribute.parts (attributeBody tables depth kind) := by
  induction depth generalizing kind with
  | zero => exact affords_throw _
  | succ depth ih =>
      -- What nests in a body is decoded one step less deep.
      have hentry : Affords 0 (fun found => 1 + found.parts)
          (attributeWith (attributeOf tables (attributeBody tables depth))) :=
        affords_attributeWith (parts_attributeOf_le ih)
      cases kind with
      | code => exact (affords_code hentry).make _ fun _ => Nat.le_refl _
      | record =>
          refine (affords_entries (affords_recordComponent hentry)).make _ fun components => ?_
          exact Nat.le_of_eq (Attribute.componentParts_eq components)
      | stackMapTable => exact (affords_entries affords_stackMapFrame).make _ fun _ => Nat.le_refl _
      | exceptions => exact affords_classNames.make _ fun _ => Nat.le_refl _
      | innerClasses => exact (affords_rows affords_innerClass).make _ fun _ => Nat.le_refl _
      | lineNumberTable => exact (affords_rows affords_lineNumber).make _ fun _ => Nat.le_refl _
      | localVariableTable =>
          exact (affords_rows affords_localVariable).make _ fun _ => Nat.le_refl _
      | localVariableTypeTable =>
          exact (affords_rows affords_localVariable).make _ fun _ => Nat.le_refl _
      | annotationDefault =>
          exact (affords_deep affords_elementValueIn).make _ fun _ => Nat.le_refl _
      | runtimeVisibleAnnotations => exact affords_annotations.make _ fun _ => Nat.le_refl _
      | runtimeInvisibleAnnotations => exact affords_annotations.make _ fun _ => Nat.le_refl _
      | runtimeVisibleParameterAnnotations =>
          exact affords_parameterAnnotations.make _ fun _ => Nat.le_refl _
      | runtimeInvisibleParameterAnnotations =>
          exact affords_parameterAnnotations.make _ fun _ => Nat.le_refl _
      | runtimeVisibleTypeAnnotations => exact affords_typeAnnotations.make _ fun _ => Nat.le_refl _
      | runtimeInvisibleTypeAnnotations =>
          exact affords_typeAnnotations.make _ fun _ => Nat.le_refl _
      | bootstrapMethods =>
          exact (affords_entries affords_bootstrapMethod).make _ fun _ => Nat.le_refl _
      | methodParameters =>
          exact (affords_shortRows affords_methodParameter).make _ fun _ => Nat.le_refl _
      | nestMembers => exact affords_classNames.make _ fun _ => Nat.le_refl _
      | permittedSubclasses => exact affords_classNames.make _ fun _ => Nat.le_refl _
      | constantValue => exact affords_u2.make _ fun _ => Nat.zero_le _
      | enclosingMethod =>
          exact (affords_resolved _).bind fun _ => affords_u2.map _ fun _ => Nat.zero_le _
      | synthetic => exact affords_pure (Nat.le_refl 0)
      | deprecated => exact affords_pure (Nat.le_refl 0)
      | signature => exact affords_descriptorAt.make _ fun _ => Nat.zero_le _
      | sourceFile => exact affords_textAt.make _ fun _ => Nat.zero_le _
      | sourceDebugExtension => exact affords_remaining.make _ fun _ => Nat.zero_le _
      | nestHost => exact (affords_resolved _).make _ fun _ => Nat.zero_le _

end Decoder

/-! ## Attributes in attributes -/

theorem infix_writtenTable {α : Type} {write : α → List UInt8} {entries : List α} {entry : α}
    (hentry : entry ∈ entries) : write entry <:+: writtenTable write entries := by
  rw [writtenTable, List.flatMap_def]
  exact List.infix_append_of_infix_right
    (List.infix_of_mem_flatten (List.mem_map_of_mem hentry))

namespace RawAttribute

variable {tables : Tables} {raw : RawAttribute}

theorem infix_written (raw : RawAttribute) : raw.octets <:+: raw.written := by
  iterate 2 apply List.infix_append_of_infix_right
  exact List.infix_refl _

/-- The attributes that are nested in another one stand in its body as a table. -/
theorem exists_attributesIn? {slot : AttributeSlot} {attributes : List Attribute}
    (hattributes : (raw.decoded tables).attributesIn? slot = some attributes) :
    ∃ inners : List RawAttribute, attributes = inners.map (decoded tables) ∧
      writtenTable written inners <:+: raw.octets := by
  generalize hdecoded : raw.decoded tables = found at hattributes
  revert hattributes
  fun_cases Attribute.attributesIn? slot found with
  | case1 body =>
      rintro ⟨⟩
      obtain ⟨-, code, rest, -, hoctets, rfl⟩ := decoded_eq_code_iff.mp hdecoded
      refine ⟨code.attributes, rfl, ?_⟩
      rw [hoctets]
      apply List.infix_append_of_infix_left
      iterate 5 apply List.infix_append_of_infix_right
      exact List.infix_refl _
  | case2 index components =>
      intro hattributes
      obtain ⟨component, hcomponent, rfl⟩ := Option.map_eq_some_iff.mp hattributes
      obtain ⟨-, inners, rest, -, hoctets, rfl⟩ := decoded_eq_record_iff.mp hdecoded
      obtain ⟨inner, hinner, rfl⟩ := List.mem_map.mp (List.mem_of_getElem? hcomponent)
      refine ⟨inner.attributes, rfl, ?_⟩
      rw [hoctets]
      apply List.infix_append_of_infix_left
      refine List.IsInfix.trans ?_ (infix_writtenTable hinner)
      iterate 2 apply List.infix_append_of_infix_right
      exact List.infix_refl _
  | case3 => rintro ⟨⟩

/-- An attribute that is nested in another one stands in its body with its name and its length. -/
theorem exists_nested? {step : AttributeStep} {found : Attribute}
    (hfound : (raw.decoded tables).nested? step = some found) :
    ∃ inner : RawAttribute, inner.decoded tables = found ∧ inner.written <:+: raw.octets := by
  obtain ⟨attributes, hattributes, hfound⟩ := Option.bind_eq_some_iff.mp hfound
  obtain ⟨inners, rfl, htable⟩ := exists_attributesIn? hattributes
  obtain ⟨inner, hinner, rfl⟩ := List.mem_map.mp (List.mem_of_getElem? hfound)
  exact ⟨inner, rfl, (infix_writtenTable hinner).trans htable⟩

/-- Every step into an attribute leads to one that stands in its body and is six octets shorter. -/
theorem exists_at? {steps : List AttributeStep} {found : Attribute}
    (hfound : (raw.decoded tables).at? steps = some found) :
    ∃ inner : RawAttribute, inner.decoded tables = found ∧
      (inner = raw ∨ inner.written <:+: raw.octets) ∧
      inner.octets.length + 6 * steps.length ≤ raw.octets.length := by
  induction steps generalizing raw with
  | nil => exact ⟨raw, Option.some.inj hfound, .inl rfl, Nat.le_refl _⟩
  | cons step steps ih =>
      obtain ⟨nested, hnested, hfound⟩ := Option.bind_eq_some_iff.mp hfound
      obtain ⟨middle, rfl, hmiddle⟩ := exists_nested? hnested
      obtain ⟨inner, hdecoded, hinner, hlength⟩ := ih hfound
      refine ⟨inner, hdecoded, .inr ?_, ?_⟩
      · rcases hinner with rfl | hinner
        · exact hmiddle
        · exact hinner.trans (middle.infix_written.trans hmiddle)
      · have hless := hmiddle.length_le
        rw [length_written] at hless
        rw [List.length_cons]
        omega

end RawAttribute

/-! ## Decoding within the octets -/

/-- Decoding makes no more of an attribute than the octets of its body hold.  It ends: decoders of
one level that are applied more often than there are octets decode the attribute, whatever they
leave deeper levels to.  An attribute nested in it stands in its body with its name and length, and
has six octets less for each level that it is deeper.  All parts at all depths are no more than the
octets of the body, whatever counts it declares. -/
theorem decoded_within_octets (tables : Tables) (raw : RawAttribute) :
    (∀ (last : LevelDecoders) (depth : Nat),
      (raw.octets.length + 1 < depth →
        ((LevelDecoders.around tables)^[depth] last).meaning raw = raw.meaning tables) ∧
      ∀ before : Cursor, before.rest.length < depth →
        ((LevelDecoders.around tables)^[depth] last).value before =
          Decoder.elementValue tables before) ∧
    (∀ steps found, (raw.decoded tables).at? steps = some found →
      ∃ inner : RawAttribute, inner.decoded tables = found ∧
        (inner = raw ∨ inner.written <:+: raw.octets) ∧
        inner.octets.length + 6 * steps.length ≤ raw.octets.length) ∧
    (raw.decoded tables).parts ≤ raw.octets.length := by
  refine ⟨fun last depth => ⟨LevelDecoders.meaning_iterate last, fun before hdepth => ?_⟩,
    fun steps found => RawAttribute.exists_at?, ?_⟩
  · exact (LevelDecoders.agreeWithin_value last hdepth before (Nat.le_refl _)).symm
  · exact Decoder.parts_attributeOf_le (Decoder.affords_attributeBody _) raw

/-- The signature in the component of a record is decoded, whatever deeper levels would do. -/
theorem decoded_within_octets_record :
    (∀ last : LevelDecoders,
      ((LevelDecoders.around recordTables)^[19] last).meaning recordAttribute =
        (.record [⟨"Lp/A;", "Lp/A;", [.signature "Lp/A;"]⟩], ["Lp/A;", "Lp/A;"])) ∧
    (∀ last : LevelDecoders,
      ((LevelDecoders.around recordTables)^[7] last).value (.start [0x5B, 0, 1, 0x42, 0, 2]) =
        .ok (.array [.constant 'B' 2]) ⟨[], 6, []⟩) ∧
    (∃ inner : RawAttribute, inner.decoded recordTables = .signature "Lp/A;" ∧
      (inner = recordAttribute ∨ inner.written <:+: recordAttribute.octets) ∧
      inner.octets.length + 6 ≤ 17) ∧
    (recordAttribute.decoded recordTables).parts ≤ 17 := by
  obtain ⟨hlevels, hnested, hparts⟩ := decoded_within_octets recordTables recordAttribute
  refine ⟨fun last => ?_, fun last => ?_, hnested [⟨.component 0, 0⟩] _ rfl, hparts⟩
  · exact ((hlevels last 19).1 (by decide)).trans rfl
  · exact ((hlevels last 7).2 (.start [0x5B, 0, 1, 0x42, 0, 2]) (by decide)).trans rfl

end ClassCensus
