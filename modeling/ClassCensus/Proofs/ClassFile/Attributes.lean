import ClassCensus.ClassFile.Written
import ClassCensus.Proofs.ClassFile.Annotations

/-!
# What decoding attributes meets

An attribute meets the descriptors that stand in it, at any depth.  An attribute that does not fit
its name keeps no descriptors, but what its body met stays met; so what is met agrees with the
answer as far as the answer is sound.
-/

namespace ClassCensus

namespace Attribute

theorem descriptorsIn_eq (attributes : List Attribute) :
    descriptorsIn attributes = attributes.flatMap descriptors := by
  induction attributes with
  | nil => rfl
  | cons found attributes ih => rw [descriptorsIn, ih, List.flatMap_cons]

theorem componentDescriptors_eq (components : List (RecordComponent Attribute)) :
    componentDescriptors components =
      components.flatMap fun component =>
        component.descriptor :: component.attributes.flatMap descriptors := by
  induction components with
  | nil => rfl
  | cons component components ih =>
      rw [componentDescriptors, ih, descriptorsIn_eq, List.flatMap_cons, List.cons_append]

theorem areSound_iff {attributes : List Attribute} :
    AreSound attributes ↔ ∀ found ∈ attributes, found.IsSound := by
  induction attributes with
  | nil => simp [AreSound]
  | cons found attributes ih => simp [AreSound, ih]

theorem componentsAreSound_iff {components : List (RecordComponent Attribute)} :
    ComponentsAreSound components ↔
      ∀ component ∈ components, ∀ found ∈ component.attributes, found.IsSound := by
  induction components with
  | nil => simp [ComponentsAreSound]
  | cons component components ih => simp [ComponentsAreSound, ih, areSound_iff]

end Attribute

/-- The name of an attribute and its length take six octets. -/
theorem RawAttribute.length_written (raw : RawAttribute) :
    raw.written.length = raw.octets.length + 6 := by
  simp only [written, List.length_append, length_bigEndian]
  omega

namespace Decoder

variable {tables : Tables}

/-! ## Bodies without descriptors -/

theorem silent_remaining : Silent remaining := by
  intro known before
  exact ⟨before.rest, [], by simp, ⟨by simp, rfl, rfl⟩, rfl⟩

theorem silent_verificationType : Silent verificationType := by
  refine Silent.u1.bind fun tag => ?_
  refine .ite (.pure _) (.ite (.pure _) (.ite (.pure _) (.ite (.pure _) (.ite (.pure _) ?_))))
  refine .ite (.pure _) (.ite (.pure _) ?_)
  refine .ite (Silent.u2.bind fun _ => .pure _) ?_
  exact .ite (Silent.u2.bind fun _ => .pure _) (.throw _)

theorem silent_stackMapFrame : Silent stackMapFrame := by
  refine Silent.u1.bind fun type => ?_
  refine .ite (.pure _) ?_
  refine .ite (silent_verificationType.bind fun _ => .pure _) (.ite (.throw _) ?_)
  refine .ite (Silent.u2.bind fun _ => silent_verificationType.bind fun _ => .pure _) ?_
  refine .ite (Silent.u2.bind fun _ => .pure _) (.ite (Silent.u2.bind fun _ => .pure _) ?_)
  have hlist := silent_verificationType.table
  refine .ite ?_ ?_
  · exact Silent.u2.bind fun _ => (silent_verificationType.times _).bind fun _ => .pure _
  · exact Silent.u2.bind fun _ => hlist.bind fun _ => hlist.bind fun _ => .pure _

theorem silent_innerClass : Silent (innerClass tables) :=
  silent_classNameAt.bind fun _ => silent_optionalClassNameAt.bind fun _ =>
    silent_optionalTextAt.bind fun _ => Silent.u2.bind fun _ => .pure _

theorem silent_lineNumber : Silent lineNumber :=
  Silent.u2.bind fun _ => Silent.u2.bind fun _ => .pure _

theorem silent_bootstrapMethod : Silent bootstrapMethod :=
  Silent.u2.bind fun _ => Silent.u2.table.bind fun _ => .pure _

theorem silent_methodParameter : Silent (methodParameter tables) :=
  silent_optionalTextAt.bind fun _ => Silent.u2.bind fun _ => .pure _

theorem silent_exceptionHandler : Silent exceptionHandler :=
  Silent.u2.bind fun _ => Silent.u2.bind fun _ => Silent.u2.bind fun _ =>
    Silent.u2.bind fun _ => .pure _

/-! ## Bodies with descriptors -/

theorem meets_localVariable :
    Meets tables (localVariable tables) (fun found => [found.descriptor]) fun _ => True := by
  refine Silent.u2.then_ensures fun start => Silent.u2.then_ensures fun length => ?_
  refine silent_textAt.then_ensures fun name => Silent.u2.then_ensures fun descriptorIndex => ?_
  refine Silent.u2.then_ensures fun index => ?_
  refine (ensures_meet (tables.pool.knows_textOrEmpty descriptorIndex)).bind ?_
  rintro _ _ _ ⟨rfl, rfl⟩
  exact ensures_pure (.single _)

theorem meets_localVariables :
    Meets tables (table (localVariable tables)) (fun locals => locals.map LocalVariable.descriptor)
      fun _ => True := by
  refine (meets_table meets_localVariable).mono fun _ _ locals hagrees => ?_
  dsimp only
  rw [List.map_eq_flatMap]
  exact hagrees.of_imp (by simp)

section

variable {entry : Decoder Attribute}
variable (hentry : Meets tables entry Attribute.descriptors Attribute.IsSound)

include hentry

theorem meets_code :
    Meets tables (code tables entry)
      (fun found => found.attributes.flatMap Attribute.descriptors)
      (fun found => ∀ nested ∈ found.attributes, nested.IsSound) := by
  refine Silent.u2.then_ensures fun maxStack => Silent.u2.then_ensures fun maxLocals => ?_
  refine Silent.u4.then_ensures fun length => ?_
  refine (Silent.run .runCutShort length.toNat).then_ensures fun octets => ?_
  refine silent_exceptionHandler.table.then_ensures fun handlers => ?_
  exact (meets_table hentry).map _ (fun _ => rfl) (fun _ => id)

theorem meets_recordComponent :
    Meets tables (recordComponent tables entry)
      (fun found => found.descriptor :: found.attributes.flatMap Attribute.descriptors)
      (fun found => ∀ nested ∈ found.attributes, nested.IsSound) := by
  refine silent_textAt.then_ensures fun name => ?_
  refine Ensures.bind meets_descriptorAt fun _ met descriptor hdescriptor => ?_
  refine Ensures.bind (meets_table hentry) fun _ more attributes hattributes => ?_
  exact ensures_pure ((hdescriptor.append hattributes).of_imp fun hsound => ⟨trivial, hsound⟩)

end

/-- An attribute is of no known name, or its body fits its name, or its body does not. -/
theorem attributeOf_cases (body : AttributeKind → Decoder Attribute) (raw : RawAttribute) :
    (AttributeKind.ofName? (tables.pool.textOrEmpty raw.nameIndex) = none ∧
      attributeOf tables body raw =
        (.unrecognized (tables.pool.textOrEmpty raw.nameIndex) raw.octets, [])) ∨
    (∃ kind found after,
      AttributeKind.ofName? (tables.pool.textOrEmpty raw.nameIndex) = some kind ∧
      body kind (.start raw.octets) = .ok found after ∧
      attributeOf tables body raw = (found, after.met)) ∨
    (∃ kind reason after,
      AttributeKind.ofName? (tables.pool.textOrEmpty raw.nameIndex) = some kind ∧
      body kind (.start raw.octets) = .error reason after ∧
      attributeOf tables body raw =
        (.malformed (tables.pool.textOrEmpty raw.nameIndex) reason raw.octets, after.met)) := by
  cases hkind : AttributeKind.ofName? (tables.pool.textOrEmpty raw.nameIndex) with
  | none => exact .inl ⟨rfl, by simp [attributeOf, hkind]⟩
  | some kind =>
      cases hbody : body kind (.start raw.octets) with
      | ok found after =>
          exact .inr (.inl ⟨kind, found, after, rfl, hbody, by simp [attributeOf, hkind, hbody]⟩)
      | error reason after =>
          exact .inr (.inr ⟨kind, reason, after, rfl, hbody, by simp [attributeOf, hkind, hbody]⟩)

/-- What an attribute is agrees with what was met in its body, whether the body fits or not. -/
theorem agrees_attributeOf {body : AttributeKind → Decoder Attribute}
    (hbody : ∀ kind, Meets tables (body kind) Attribute.descriptors Attribute.IsSound)
    (raw : RawAttribute) :
    (∀ text ∈ (attributeOf tables body raw).2, tables.pool.Knows text) ∧
      Agrees (attributeOf tables body raw).1.descriptors (attributeOf tables body raw).1.IsSound
        (attributeOf tables body raw).2 := by
  rcases attributeOf_cases body raw with ⟨-, hraw⟩ | ⟨kind, found, after, -, hfound, hraw⟩ |
    ⟨kind, reason, after, -, hreason, hraw⟩
  · rw [hraw]
    exact ⟨by simp, .nil⟩
  · obtain ⟨taken, met, hknown, hpasses, hagrees⟩ := Ensures.ok (hbody kind) hfound
    have hmet : after.met = met := by simpa [Cursor.start] using hpasses.met
    rw [hraw, hmet]
    exact ⟨hknown, hagrees⟩
  · obtain ⟨taken, met, hknown, hresult⟩ := hbody kind (.start raw.octets)
    rw [hreason] at hresult
    have hmet : after.met = met := by simpa [Cursor.start] using hresult.met
    rw [hraw, hmet]
    exact ⟨hknown, by simp [Attribute.descriptors], by simp [Attribute.IsSound]⟩

theorem ensures_rawAttribute {known : String → Prop} :
    Ensures known rawAttribute fun taken met raw =>
      taken = raw.written ∧ raw.Fits ∧ met = [] := by
  refine ensures_u2.bind ?_
  rintro _ _ nameIndex ⟨rfl, rfl⟩
  refine ensures_u4.bind ?_
  rintro _ _ length ⟨rfl, rfl⟩
  refine (ensures_run .runCutShort length.toNat).bind ?_
  rintro _ _ octets ⟨rfl, hlength, rfl⟩
  apply ensures_pure
  refine ⟨?_, ?_, rfl⟩
  · simp [RawAttribute.written, hlength]
  · rw [RawAttribute.Fits, hlength]
    exact length.toNat_lt

/-- An attribute takes its octets and meets what is met in its body, which it is all decided by. -/
theorem ensures_attributeWith {known : String → Prop}
    {meaning : RawAttribute → Attribute × List String}
    (hknown : ∀ raw, ∀ text ∈ (meaning raw).2, known text) :
    Ensures known (attributeWith meaning) fun taken met found =>
      ∃ raw : RawAttribute, raw.Fits ∧ taken = raw.written ∧ (found, met) = meaning raw := by
  refine ensures_rawAttribute.bind ?_
  rintro _ _ raw ⟨rfl, hfits, rfl⟩
  intro before
  refine ⟨[], (meaning raw).2, hknown raw, ⟨rfl, rfl, rfl⟩, raw, hfits, by simp, by simp⟩

theorem meets_attributeWith {meaning : RawAttribute → Attribute × List String}
    (hmeaning : ∀ raw, (∀ text ∈ (meaning raw).2, tables.pool.Knows text) ∧
      Agrees (meaning raw).1.descriptors (meaning raw).1.IsSound (meaning raw).2) :
    Meets tables (attributeWith meaning) Attribute.descriptors Attribute.IsSound := by
  refine (ensures_attributeWith fun raw => (hmeaning raw).1).mono ?_
  rintro taken met found ⟨raw, -, -, hraw⟩
  have hagrees := (hmeaning raw).2
  rw [← hraw] at hagrees
  exact hagrees

/-- Bodies meet the descriptors of the attribute that they answer, at any depth. -/
theorem meets_attributeBody (depth : Nat) (kind : AttributeKind) :
    Meets tables (attributeBody tables depth kind) Attribute.descriptors Attribute.IsSound := by
  induction depth generalizing kind with
  | zero => exact ensures_throw _
  | succ depth ih =>
      -- Code and records hold attributes, which are one step less deep.
      have hnested := meets_attributeWith (agrees_attributeOf ih)
      cases kind with
      | constantValue => exact Silent.u2.meets.map _ (fun _ => rfl) (fun _ => id)
      | code =>
          refine (meets_code hnested).map _ (fun found => ?_) (fun found => ?_)
          · exact Attribute.descriptorsIn_eq found.attributes
          · exact Attribute.areSound_iff.mp
      | stackMapTable =>
          exact silent_stackMapFrame.table.meets.map _ (fun _ => rfl) (fun _ => id)
      | exceptions => exact silent_classNames.meets.map _ (fun _ => rfl) (fun _ => id)
      | innerClasses => exact silent_innerClass.table.meets.map _ (fun _ => rfl) (fun _ => id)
      | enclosingMethod =>
          refine silent_classNameAt.then_ensures fun className => ?_
          exact Silent.u2.then_ensures fun methodIndex => ensures_pure .nil
      | synthetic => exact ensures_pure .nil
      | deprecated => exact ensures_pure .nil
      | signature => exact meets_descriptorAt.map _ (fun _ => rfl) (fun _ => id)
      | sourceFile => exact silent_textAt.meets.map _ (fun _ => rfl) (fun _ => id)
      | sourceDebugExtension => exact silent_remaining.meets.map _ (fun _ => rfl) (fun _ => id)
      | lineNumberTable => exact silent_lineNumber.table.meets.map _ (fun _ => rfl) (fun _ => id)
      | localVariableTable => exact meets_localVariables.map _ (fun _ => rfl) (fun _ => id)
      | localVariableTypeTable => exact meets_localVariables.map _ (fun _ => rfl) (fun _ => id)
      | annotationDefault => exact meets_elementValue.map _ (fun _ => rfl) (fun _ => id)
      | runtimeVisibleAnnotations => exact meets_annotations.map _ (fun _ => rfl) (fun _ => id)
      | runtimeInvisibleAnnotations => exact meets_annotations.map _ (fun _ => rfl) (fun _ => id)
      | runtimeVisibleParameterAnnotations =>
          exact meets_parameterAnnotations.map _ (fun _ => rfl) (fun _ => id)
      | runtimeInvisibleParameterAnnotations =>
          exact meets_parameterAnnotations.map _ (fun _ => rfl) (fun _ => id)
      | runtimeVisibleTypeAnnotations =>
          exact meets_typeAnnotations.map _ (fun _ => rfl) (fun _ => id)
      | runtimeInvisibleTypeAnnotations =>
          exact meets_typeAnnotations.map _ (fun _ => rfl) (fun _ => id)
      | bootstrapMethods =>
          exact silent_bootstrapMethod.table.meets.map _ (fun _ => rfl) (fun _ => id)
      | methodParameters =>
          exact silent_methodParameter.shortTable.meets.map _ (fun _ => rfl) (fun _ => id)
      | nestHost => exact silent_classNameAt.meets.map _ (fun _ => rfl) (fun _ => id)
      | nestMembers => exact silent_classNames.meets.map _ (fun _ => rfl) (fun _ => id)
      | permittedSubclasses => exact silent_classNames.meets.map _ (fun _ => rfl) (fun _ => id)
      | record =>
          refine (meets_table (meets_recordComponent hnested)).map _ (fun components => ?_)
            (fun components => ?_)
          · exact Attribute.componentDescriptors_eq components
          · exact Attribute.componentsAreSound_iff.mp

theorem meets_attributeEntry :
    Meets tables (attributeEntry tables) Attribute.descriptors Attribute.IsSound :=
  meets_attributeWith fun raw => agrees_attributeOf (meets_attributeBody _) raw

end Decoder

end ClassCensus
