import ClassCensus.ClassFile.Annotations.Decoder
import ClassCensus.ClassFile.Parts
import ClassCensus.Proofs.ClassFile.Meeting

/-!
# What decoding annotations meets

Annotations meet the types in them, however deep they nest.  They hold nothing that can be
malformed on its own, so the descriptors that are met are exactly those of the answer.
-/

namespace ClassCensus.Decoder

variable {known : String → Prop} {tables : Tables}

theorem ensures_descriptorAt (hknown : ∀ index, known (tables.pool.textOrEmpty index)) :
    Ensures known (descriptorAt tables) fun taken met value =>
      ∃ index : UInt16, taken = bigEndian 2 index.toNat ∧
        value = tables.pool.textOrEmpty index ∧ met = [value] := by
  unfold descriptorAt textAt
  refine (ensures_resolved tables.pool.textOrEmpty).bind ?_
  rintro _ _ _ ⟨index, rfl, rfl, rfl⟩
  refine (ensures_meet (hknown index)).bind ?_
  rintro _ _ _ ⟨rfl, rfl⟩
  exact ensures_pure ⟨index, by simp, rfl, by simp⟩

theorem meets_descriptorAt :
    Meets tables (descriptorAt tables) (fun text => [text]) (fun _ => True) := by
  refine (ensures_descriptorAt tables.pool.knows_textOrEmpty).mono ?_
  rintro _ _ text ⟨_, _, _, rfl⟩
  exact .single text

theorem elementDescriptors_eq (elements : List (String × ElementValue)) :
    ElementValue.elementDescriptors elements =
      elements.flatMap fun element => element.2.descriptors := by
  induction elements with
  | nil => rfl
  | cons element elements ih => rw [ElementValue.elementDescriptors, ih, List.flatMap_cons]

theorem valueDescriptors_eq (values : List ElementValue) :
    ElementValue.valueDescriptors values = values.flatMap ElementValue.descriptors := by
  induction values with
  | nil => rfl
  | cons value values ih => rw [ElementValue.valueDescriptors, ih, List.flatMap_cons]

theorem meets_annotationUseOf {value : Decoder ElementValue}
    (hvalue : Meets tables value ElementValue.descriptors fun _ => True) :
    Meets tables (annotationUseOf tables value) AnnotationUse.descriptors fun _ => True := by
  have helement : Meets tables (do
        let name ← textAt tables
        return (name, ← value))
      (fun element => element.2.descriptors) (fun _ => True) := by
    refine silent_textAt.then_ensures fun name => ?_
    refine Ensures.bind hvalue fun _ met found hfound => ?_
    exact ensures_pure hfound
  refine Ensures.bind meets_descriptorAt fun _ met type htype => ?_
  refine Ensures.bind (meets_table helement) fun _ more elements helements => ?_
  apply ensures_pure
  rw [AnnotationUse.descriptors, elementDescriptors_eq]
  exact (htype.append helements).of_imp (by simp)

/-- Element values meet the descriptors in them, however deep they nest. -/
theorem meets_elementValueIn (depth : Nat) :
    Meets tables (elementValueIn tables depth) ElementValue.descriptors fun _ => True := by
  induction depth with
  | zero => exact ensures_throw _
  | succ depth ih =>
      rw [elementValueIn, elementValueOf]
      refine Silent.u1.then_ensures fun tag => ?_
      split
      · exact Silent.u2.meets.map _ (fun _ => rfl) (fun _ => id)
      split
      · refine Silent.u2.then_ensures fun typeIndex => ?_
        refine silent_textAt.then_ensures fun name => ?_
        refine (ensures_meet (tables.pool.knows_textOrEmpty typeIndex)).bind ?_
        rintro _ _ _ ⟨rfl, rfl⟩
        exact ensures_pure (.single _)
      split
      · exact meets_descriptorAt.map _ (fun _ => rfl) (fun _ => id)
      split
      · exact (meets_annotationUseOf ih).map _ (fun _ => rfl) (fun _ => id)
      split
      · exact (meets_table ih).map _ (fun values => valueDescriptors_eq values) (by simp)
      · exact ensures_throw _

theorem meets_elementValue :
    Meets tables (elementValue tables) ElementValue.descriptors fun _ => True :=
  ensures_deep meets_elementValueIn

theorem meets_annotations :
    Meets tables (annotations tables) (fun uses => uses.flatMap AnnotationUse.descriptors)
      fun _ => True := by
  refine ensures_deep fun depth => ?_
  exact (meets_table (meets_annotationUseOf (meets_elementValueIn depth))).mono
    fun _ _ _ hagrees => hagrees.of_imp (by simp)

theorem meets_parameterAnnotations :
    Meets tables (parameterAnnotations tables)
      (fun parameters => parameters.flatten.flatMap AnnotationUse.descriptors)
      fun _ => True := by
  refine ensures_deep fun depth => ?_
  refine (meets_shortTable (meets_table
    (meets_annotationUseOf (meets_elementValueIn depth)))).mono fun _ _ parameters hagrees => ?_
  have hflatten : parameters.flatten.flatMap AnnotationUse.descriptors =
      parameters.flatMap fun uses => uses.flatMap AnnotationUse.descriptors := by
    rw [← List.flatMap_id, List.flatMap_assoc]
    rfl
  dsimp only
  rw [hflatten]
  exact hagrees.of_imp (by simp)

theorem silent_localRange : Silent localRange :=
  Silent.u2.bind fun _ => Silent.u2.bind fun _ => Silent.u2.bind fun _ => .pure _

theorem silent_annotationTarget (type : UInt8) : Silent (annotationTarget type) := by
  unfold annotationTarget
  refine .ite (Silent.u1.bind fun _ => .pure _) ?_
  refine .ite (Silent.u2.bind fun _ => .pure _) ?_
  refine .ite (Silent.u1.bind fun _ => Silent.u1.bind fun _ => .pure _) ?_
  refine .ite (.pure _) ?_
  refine .ite (Silent.u1.bind fun _ => .pure _) ?_
  refine .ite (Silent.u2.bind fun _ => .pure _) ?_
  refine .ite (silent_localRange.table.bind fun _ => .pure _) ?_
  refine .ite (Silent.u2.bind fun _ => .pure _) ?_
  refine .ite (Silent.u2.bind fun _ => .pure _) ?_
  exact .ite (Silent.u2.bind fun _ => Silent.u1.bind fun _ => .pure _) (.throw _)

theorem silent_typePathStep : Silent typePathStep := by
  refine Silent.u1.bind fun kind => Silent.u1.bind fun argument => ?_
  refine .ite (.pure _) (.ite (.throw _) ?_)
  exact .ite (.pure _) (.ite (.pure _) (.ite (.pure _) (.throw _)))

theorem meets_typeAnnotationUseOf {use : Decoder AnnotationUse}
    (huse : Meets tables use AnnotationUse.descriptors fun _ => True) :
    Meets tables (typeAnnotationUseOf use) (fun found => found.use.descriptors)
      fun _ => True := by
  refine Silent.u1.then_ensures fun type => ?_
  refine (silent_annotationTarget type).then_ensures fun target => ?_
  refine silent_typePathStep.shortTable.then_ensures fun path => ?_
  exact Meets.map huse _ (fun _ => rfl) (fun _ => id)

theorem meets_typeAnnotations :
    Meets tables (typeAnnotations tables)
      (fun uses => uses.flatMap fun found => found.use.descriptors) fun _ => True := by
  refine ensures_deep fun depth => ?_
  have huse := meets_typeAnnotationUseOf
    (meets_annotationUseOf (@meets_elementValueIn tables depth))
  exact (meets_table huse).mono fun _ _ _ hagrees => hagrees.of_imp (by simp)

end ClassCensus.Decoder
