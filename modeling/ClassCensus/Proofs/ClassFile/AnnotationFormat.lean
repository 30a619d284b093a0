import ClassCensus.ClassFile.Annotations.Written
import ClassCensus.Proofs.ClassFile.Layout

/-!
# The format of annotations

Decoding annotations undoes their format, however deep they nest.  The depth that bounds the
nesting is never in the way: an element value that nests in another one is shorter, and the depth
that `Decoder.deep` supplies exceeds the number of octets that are left.
-/

namespace ClassCensus

/-! ## Elements and arrays as lists -/

namespace RawElementValue

variable {elements : List (UInt16 × RawElementValue)} {values : List RawElementValue}

theorem writtenElements_eq (elements : List (UInt16 × RawElementValue)) :
    writtenElements elements =
      elements.flatMap fun element => bigEndian 2 element.1.toNat ++ element.2.written := by
  induction elements with
  | nil => rfl
  | cons element elements ih =>
      rw [writtenElements, ih, List.flatMap_cons, List.append_assoc]

theorem writtenValues_eq (values : List RawElementValue) :
    writtenValues values = values.flatMap written := by
  induction values with
  | nil => rfl
  | cons value values ih => rw [writtenValues, ih, List.flatMap_cons]

theorem elementsFit_iff : ElementsFit elements ↔ ∀ element ∈ elements, element.2.Fits := by
  induction elements with
  | nil => simp [ElementsFit]
  | cons element elements ih => rw [ElementsFit, ih, List.forall_mem_cons]

theorem valuesFit_iff : ValuesFit values ↔ ∀ value ∈ values, value.Fits := by
  induction values with
  | nil => simp [ValuesFit]
  | cons value values ih => rw [ValuesFit, ih, List.forall_mem_cons]

theorem elementValues_eq (pool : ConstantPool) (elements : List (UInt16 × RawElementValue)) :
    elementValues pool elements =
      elements.map fun element => (pool.textOrEmpty element.1, element.2.value pool) := by
  induction elements with
  | nil => rfl
  | cons element elements ih => rw [elementValues, ih, List.map_cons]

theorem arrayValues_eq (pool : ConstantPool) (values : List RawElementValue) :
    arrayValues pool values = values.map (value pool) := by
  induction values with
  | nil => rfl
  | cons value values ih => rw [arrayValues, ih, List.map_cons]

/-- A value in an annotation is shorter than the annotation. -/
theorem length_lt_nested (typeIndex : UInt16) {element : UInt16 × RawElementValue}
    (hmem : element ∈ elements) :
    element.2.written.length < (nested typeIndex elements).written.length := by
  obtain ⟨before, behind, rfl⟩ := List.append_of_mem hmem
  simp only [written, writtenElements_eq, List.flatMap_append, List.flatMap_cons,
    List.length_cons, List.length_append]
  omega

/-- A value in an array is shorter than the array. -/
theorem length_lt_array {found : RawElementValue} (hmem : found ∈ values) :
    found.written.length < (array values).written.length := by
  obtain ⟨before, behind, rfl⟩ := List.append_of_mem hmem
  simp only [written, writtenValues_eq, List.flatMap_append, List.flatMap_cons,
    List.length_cons, List.length_append]
  omega

end RawElementValue

namespace RawAnnotationUse

theorem written_eq (raw : RawAnnotationUse) :
    raw.written = bigEndian 2 raw.typeIndex.toNat ++
      writtenTable (fun element => bigEndian 2 element.1.toNat ++ element.2.written)
        raw.elements := by
  rw [written, RawElementValue.writtenElements_eq, writtenTable]

theorem fits_iff {raw : RawAnnotationUse} :
    raw.Fits ↔ raw.elements.length < 65536 ∧ ∀ element ∈ raw.elements, element.2.Fits := by
  rw [Fits, RawElementValue.elementsFit_iff]

theorem use_eq (pool : ConstantPool) (raw : RawAnnotationUse) :
    raw.use pool = ⟨pool.textOrEmpty raw.typeIndex,
      raw.elements.map fun element => (pool.textOrEmpty element.1, element.2.value pool)⟩ := by
  rw [use, RawElementValue.elementValues_eq]

end RawAnnotationUse

theorem length_le_of_mem_flatMap {α : Type} {write : α → List UInt8} {entries : List α} {entry : α}
    (hmem : entry ∈ entries) : (write entry).length ≤ (entries.flatMap write).length := by
  obtain ⟨before, behind, rfl⟩ := List.append_of_mem hmem
  rw [List.flatMap_append, List.flatMap_cons, List.length_append, List.length_append]
  omega

theorem length_le_of_mem_writtenTable {α : Type} {write : α → List UInt8} {entries : List α}
    {entry : α} (hmem : entry ∈ entries) :
    (write entry).length ≤ (writtenTable write entries).length := by
  rw [writtenTable, List.length_append]
  exact Nat.le_add_left_of_le (length_le_of_mem_flatMap hmem)

namespace Decoder

variable {α β : Type} {tables : Tables} {type : UInt8}

/-! ## Annotations and element values -/

theorem takes_annotationUseOf {value : Decoder ElementValue}
    (htakes : Takes value RawElementValue.Fits RawElementValue.written
      (RawElementValue.value tables.pool)) :
    Takes (annotationUseOf tables value) RawAnnotationUse.Fits RawAnnotationUse.written
      (RawAnnotationUse.use tables.pool) := by
  have helement : Takes (do
        let name ← textAt tables
        return (name, ← value))
      (fun element : UInt16 × RawElementValue => element.2.Fits)
      (fun element => bigEndian 2 element.1.toNat ++ element.2.written)
      (fun element => (tables.pool.textOrEmpty element.1, element.2.value tables.pool)) := by
    refine (takes_resolved tables.pool.textOrEmpty).bind ?_
    rintro _ _ _ ⟨nameIndex, -, rfl, rfl⟩
    apply Ensures.map htakes
    rintro _ _ _ ⟨found, hfits, rfl, rfl⟩
    exact ⟨(nameIndex, found), hfits, rfl, rfl⟩
  refine (ensures_descriptorAt fun _ => trivial).bind ?_
  rintro _ _ _ ⟨typeIndex, rfl, rfl, rfl⟩
  apply Ensures.map helement.table
  rintro _ _ _ ⟨elements, helements, rfl, rfl⟩
  refine ⟨⟨typeIndex, elements⟩, RawAnnotationUse.fits_iff.mpr helements, ?_, ?_⟩
  · rw [RawAnnotationUse.written_eq]
  · rw [RawAnnotationUse.use_eq]

theorem reads_annotationUseOf {value : Decoder ElementValue} (raw : RawAnnotationUse)
    (hlength : raw.elements.length < 65536)
    (hreads : ∀ element ∈ raw.elements,
      Reads value element.2.written (element.2.value tables.pool)) :
    Reads (annotationUseOf tables value) raw.written (raw.use tables.pool) := by
  rw [RawAnnotationUse.written_eq, RawAnnotationUse.use_eq]
  refine (reads_descriptorAt raw.typeIndex).bind _ ((reads_table hlength ?_).map _)
  intro element helement
  exact (reads_resolved tables.pool.textOrEmpty element.1).bind _ ((hreads element helement).map _)

theorem takes_elementValueIn (depth : Nat) :
    Takes (elementValueIn tables depth) RawElementValue.Fits RawElementValue.written
      (RawElementValue.value tables.pool) := by
  induction depth with
  | zero => exact ensures_throw _
  | succ depth ih =>
      rw [elementValueIn, elementValueOf]
      refine ensures_u1.bind ?_
      rintro _ _ tag ⟨rfl, rfl⟩
      rw [bigEndian_one]
      refine .ite (fun hconstant => ?constant) fun _ => .ite (fun henum => ?enumConstant) fun _ =>
        .ite (fun hclass => ?classLiteral) fun _ => .ite (fun hnested => ?nested) fun _ =>
        .ite (fun harray => ?array) fun _ => ensures_throw _
      case constant =>
        apply ensures_u2.map (ElementValue.constant (Char.ofNat tag.toNat))
        rintro _ _ index ⟨rfl, rfl⟩
        exact ⟨.constant tag index, List.contains_iff_mem.mp hconstant, rfl, rfl⟩
      case enumConstant =>
        subst henum
        refine ensures_u2.bind ?_
        rintro _ _ typeIndex ⟨rfl, rfl⟩
        refine (takes_resolved tables.pool.textOrEmpty).bind ?_
        rintro _ _ _ ⟨nameIndex, -, rfl, rfl⟩
        refine (ensures_meet trivial).bind ?_
        rintro _ _ _ ⟨rfl, rfl⟩
        exact ensures_pure ⟨.enumConstant typeIndex nameIndex, trivial,
          by simp [RawElementValue.written], rfl⟩
      case classLiteral =>
        subst hclass
        apply (ensures_descriptorAt fun _ => trivial).map ElementValue.classLiteral
        rintro _ _ _ ⟨index, rfl, rfl, rfl⟩
        exact ⟨.classLiteral index, trivial, rfl, rfl⟩
      case nested =>
        subst hnested
        apply Ensures.map (takes_annotationUseOf ih) fun found =>
          ElementValue.nested found.type found.elements
        rintro _ _ _ ⟨raw, hfits, rfl, rfl⟩
        exact ⟨.nested raw.typeIndex raw.elements, hfits, rfl, rfl⟩
      case array =>
        subst harray
        apply Ensures.map ih.table ElementValue.array
        rintro _ _ _ ⟨values, ⟨hlength, hfits⟩, rfl, rfl⟩
        refine ⟨.array values, ⟨hlength, RawElementValue.valuesFit_iff.mpr hfits⟩, ?_, ?_⟩
        · rw [RawElementValue.written, RawElementValue.writtenValues_eq, writtenTable]
          rfl
        · rw [RawElementValue.value, RawElementValue.arrayValues_eq]

/-- An element value is read at any depth that its length does not exceed. -/
theorem reads_elementValueIn {depth : Nat} {raw : RawElementValue} (hfits : raw.Fits)
    (hdepth : raw.written.length ≤ depth) :
    Reads (elementValueIn tables depth) raw.written (raw.value tables.pool) := by
  induction depth generalizing raw with
  | zero =>
      have hpos : 0 < raw.written.length := by
        cases raw <;> rw [RawElementValue.written] <;> exact Nat.zero_lt_succ _
      exact absurd hdepth (Nat.not_le.mpr hpos)
  | succ depth ih =>
      -- The tag is taken first, so what nests behind it has an octet less and a step less to go.
      cases raw with
      | constant tag index =>
          have hleads : Leads (elementValueIn tables (depth + 1)) (bigEndian 1 tag.toNat) _ :=
            (reads_u1 tag).leads _
          rw [if_pos (List.contains_iff_mem.mpr hfits), bigEndian_one] at hleads
          exact hleads.reads ((reads_u2 index).map _)
      | enumConstant typeIndex nameIndex =>
          have hmeet : Reads (do
                meet (tables.pool.textOrEmpty typeIndex)
                return ElementValue.enumConstant (tables.pool.textOrEmpty typeIndex)
                  (tables.pool.textOrEmpty nameIndex)) [] _ :=
            (reads_meet _).bind _ (reads_pure _)
          have hname := (reads_resolved tables.pool.textOrEmpty nameIndex).bind (fun name => do
            meet (tables.pool.textOrEmpty typeIndex)
            return ElementValue.enumConstant (tables.pool.textOrEmpty typeIndex) name) hmeet
          rw [List.append_nil] at hname
          exact (reads_u1 0x65).bind _ ((reads_u2 typeIndex).bind _ hname)
      | classLiteral index => exact (reads_u1 0x63).bind _ ((reads_descriptorAt index).map _)
      | nested typeIndex elements =>
          have hleads : Leads (elementValueIn tables (depth + 1)) [0x40] _ :=
            (reads_u1 0x40).leads _
          obtain ⟨hlength, hvalues⟩ := hfits
          rw [RawElementValue.elementsFit_iff] at hvalues
          have hless : ∀ element ∈ elements, element.2.written.length ≤ depth := by
            intro element helement
            have hlittle := RawElementValue.length_lt_nested typeIndex helement
            omega
          have huse := reads_annotationUseOf ⟨typeIndex, elements⟩ hlength
            fun element helement => ih (hvalues element helement) (hless element helement)
          have hnested := huse.map fun use : AnnotationUse =>
            ElementValue.nested use.type use.elements
          exact hleads.reads hnested
      | array values =>
          have hleads : Leads (elementValueIn tables (depth + 1)) [0x5B] _ :=
            (reads_u1 0x5B).leads _
          obtain ⟨hlength, hvalues⟩ := hfits
          rw [RawElementValue.valuesFit_iff] at hvalues
          have hless : ∀ value ∈ values, value.written.length ≤ depth := by
            intro value hvalue
            have hlittle := RawElementValue.length_lt_array hvalue
            omega
          have htable := reads_table hlength fun value hvalue =>
            ih (hvalues value hvalue) (hless value hvalue)
          rw [writtenTable, ← RawElementValue.writtenValues_eq,
            ← RawElementValue.arrayValues_eq] at htable
          exact hleads.reads (htable.map ElementValue.array)

theorem reads_annotationUseIn {depth : Nat} {raw : RawAnnotationUse} (hfits : raw.Fits)
    (hdepth : raw.written.length ≤ depth) :
    Reads (annotationUseOf tables (elementValueIn tables depth)) raw.written
      (raw.use tables.pool) := by
  obtain ⟨hlength, hvalues⟩ := RawAnnotationUse.fits_iff.mp hfits
  refine reads_annotationUseOf raw hlength fun element helement => ?_
  refine reads_elementValueIn (hvalues element helement) (Nat.le_trans ?_ hdepth)
  exact Nat.le_of_lt_succ (RawElementValue.length_lt_nested raw.typeIndex helement)

theorem takes_annotationUseIn (depth : Nat) :
    Takes (annotationUseOf tables (elementValueIn tables depth)) RawAnnotationUse.Fits
      RawAnnotationUse.written (RawAnnotationUse.use tables.pool) :=
  takes_annotationUseOf (takes_elementValueIn depth)

/-! ## Targets and paths -/

def writtenRange (range : LocalRange) : List UInt8 :=
  bigEndian 2 range.start.toNat ++
    (bigEndian 2 range.length.toNat ++ bigEndian 2 range.index.toNat)

theorem takes_localRange : Takes localRange (fun _ => True) writtenRange id := by
  refine ensures_u2.bind ?_
  rintro _ _ start ⟨rfl, rfl⟩
  refine ensures_u2.bind ?_
  rintro _ _ length ⟨rfl, rfl⟩
  apply ensures_u2.map (LocalRange.mk start length)
  rintro _ _ index ⟨rfl, rfl⟩
  exact ⟨⟨start, length, index⟩, trivial, rfl, rfl⟩

theorem reads_localRange (range : LocalRange) : Reads localRange (writtenRange range) range :=
  (reads_u2 range.start).bind _ <| (reads_u2 range.length).bind _ <| (reads_u2 range.index).map _

theorem takes_annotationTarget (type : UInt8) :
    Takes (annotationTarget type) (AnnotationTarget.Suits type) AnnotationTarget.written id := by
  have hone : ∀ make : UInt8 → AnnotationTarget, (∀ index, (make index).Suits type) →
      (∀ index, (make index).written = bigEndian 1 index.toNat) →
      Takes (do return make (← u1)) (AnnotationTarget.Suits type) AnnotationTarget.written id := by
    intro make hsuits hwritten
    apply ensures_u1.map make
    rintro _ _ index ⟨rfl, rfl⟩
    exact ⟨make index, hsuits index, (hwritten index).symm, rfl⟩
  have htwo : ∀ make : UInt16 → AnnotationTarget, (∀ index, (make index).Suits type) →
      (∀ index, (make index).written = bigEndian 2 index.toNat) →
      Takes (do return make (← u2)) (AnnotationTarget.Suits type) AnnotationTarget.written id := by
    intro make hsuits hwritten
    apply ensures_u2.map make
    rintro _ _ index ⟨rfl, rfl⟩
    exact ⟨make index, hsuits index, (hwritten index).symm, rfl⟩
  unfold annotationTarget
  refine .ite (fun hparameter => ?typeParameter) fun _ =>
    .ite (fun hsuper => htwo .superType (fun _ => hsuper) fun _ => rfl) fun _ =>
    .ite (fun hbound => ?typeParameterBound) fun _ => .ite (fun hempty => ?empty) fun _ =>
    .ite (fun hformal => hone .formalParameter (fun _ => hformal) fun _ => rfl) fun _ =>
    .ite (fun hthrows => htwo .throwsClause (fun _ => hthrows) fun _ => rfl) fun _ =>
    .ite (fun hlocal => ?localVariable) fun _ =>
    .ite (fun hcatch => htwo .catchClause (fun _ => hcatch) fun _ => rfl) fun _ =>
    .ite (fun hoffset => htwo .offset (fun _ => hoffset) fun _ => rfl) fun _ =>
    .ite (fun hargument => ?typeArgument) fun _ => ensures_throw _
  case typeParameter =>
    have htype : type = 0x00 ∨ type = 0x01 := by grind
    exact hone .typeParameter (fun _ => htype) fun _ => rfl
  case typeParameterBound =>
    refine ensures_u1.bind ?_
    rintro _ _ parameter ⟨rfl, rfl⟩
    apply ensures_u1.map (AnnotationTarget.typeParameterBound parameter)
    rintro _ _ bound ⟨rfl, rfl⟩
    exact ⟨.typeParameterBound parameter bound, hbound, rfl, rfl⟩
  case empty =>
    have htype : type = 0x13 ∨ type = 0x14 ∨ type = 0x15 := by grind
    exact ensures_pure ⟨.empty, htype, rfl, rfl⟩
  case localVariable =>
    apply Ensures.map takes_localRange.table AnnotationTarget.localVariable
    rintro _ _ _ ⟨ranges, ⟨hlength, -⟩, rfl, rfl⟩
    rw [List.map_id]
    exact ⟨.localVariable ranges, ⟨hlocal, hlength⟩, rfl, rfl⟩
  case typeArgument =>
    refine ensures_u2.bind ?_
    rintro _ _ place ⟨rfl, rfl⟩
    apply ensures_u1.map (AnnotationTarget.typeArgument place)
    rintro _ _ index ⟨rfl, rfl⟩
    exact ⟨.typeArgument place index, hargument, rfl, rfl⟩

/-- A target is read behind each type that announces its shape. -/
theorem reads_annotationTarget {target : AnnotationTarget} (hsuits : target.Suits type) :
    Reads (annotationTarget type) target.written target := by
  cases target with
  | typeParameter index =>
      obtain rfl | rfl := hsuits <;> exact (reads_u1 index).map _
  | superType index =>
      obtain rfl := hsuits
      exact (reads_u2 index).map _
  | typeParameterBound parameter bound =>
      obtain rfl | rfl := hsuits <;>
        exact (reads_u1 parameter).bind _ ((reads_u1 bound).map _)
  | empty => obtain rfl | rfl | rfl := hsuits <;> exact reads_pure _
  | formalParameter index =>
      obtain rfl := hsuits
      exact (reads_u1 index).map _
  | throwsClause index =>
      obtain rfl := hsuits
      exact (reads_u2 index).map _
  | localVariable ranges =>
      have hranges := reads_table hsuits.2 fun range _ => reads_localRange range
      rw [List.map_id'] at hranges
      obtain rfl | rfl := hsuits.1 <;> exact hranges.map _
  | catchClause index =>
      obtain rfl := hsuits
      exact (reads_u2 index).map _
  | offset place =>
      have htype : type = 0x43 ∨ type = 0x44 ∨ type = 0x45 ∨ type = 0x46 := by
        grind [AnnotationTarget.Suits]
      obtain rfl | rfl | rfl | rfl := htype <;> exact (reads_u2 place).map _
  | typeArgument place index =>
      have htype : type = 0x47 ∨ type = 0x48 ∨ type = 0x49 ∨ type = 0x4A ∨ type = 0x4B := by
        grind [AnnotationTarget.Suits]
      obtain rfl | rfl | rfl | rfl | rfl := htype <;>
        exact (reads_u2 place).bind _ ((reads_u1 index).map _)

theorem takes_typePathStep : Takes typePathStep (fun _ => True) TypePathStep.written id := by
  refine ensures_u1.bind ?_
  rintro _ _ kind ⟨rfl, rfl⟩
  refine ensures_u1.bind ?_
  rintro _ _ argument ⟨rfl, rfl⟩
  rw [bigEndian_one, bigEndian_one]
  have hstep : ∀ step : TypePathStep, step.written = [kind, argument] →
      Ensures (fun _ => True) (pure step) fun taken _ value =>
        ∃ raw : TypePathStep, True ∧ [kind] ++ ([argument] ++ taken) = raw.written ∧
          value = id raw :=
    fun step hwritten => ensures_pure ⟨step, trivial, hwritten.symm, rfl⟩
  refine .ite (fun hkind => hstep (.typeArgument argument) (by rw [hkind]; rfl)) fun _ => ?_
  refine .ite (fun _ => ensures_throw _) fun hzero => ?_
  obtain rfl : argument = 0 := Decidable.not_not.mp hzero
  refine .ite (fun hkind => hstep .array (by rw [hkind]; rfl)) fun _ => ?_
  refine .ite (fun hkind => hstep .nested (by rw [hkind]; rfl)) fun _ => ?_
  exact .ite (fun hkind => hstep .bound (by rw [hkind]; rfl)) fun _ => ensures_throw _

theorem reads_typePathStep (step : TypePathStep) : Reads typePathStep step.written step := by
  cases step with
  | array => exact (reads_u1 0).bind _ ((reads_u1 0).bind _ (reads_pure _))
  | nested => exact (reads_u1 1).bind _ ((reads_u1 0).bind _ (reads_pure _))
  | bound => exact (reads_u1 2).bind _ ((reads_u1 0).bind _ (reads_pure _))
  | typeArgument index =>
      have hindex := (reads_u1 index).bind (fun index => pure (TypePathStep.typeArgument index))
        (reads_pure _)
      rw [bigEndian_one] at hindex
      exact (reads_u1 3).bind _ hindex

/-! ## Annotations on uses of types -/

theorem takes_typeAnnotationUseOf {use : Decoder AnnotationUse}
    (htakes : Takes use RawAnnotationUse.Fits RawAnnotationUse.written
      (RawAnnotationUse.use tables.pool)) :
    Takes (typeAnnotationUseOf use) RawTypeAnnotationUse.Fits RawTypeAnnotationUse.written
      (RawTypeAnnotationUse.typeUse tables.pool) := by
  refine ensures_u1.bind ?_
  rintro _ _ type ⟨rfl, rfl⟩
  refine (takes_annotationTarget type).bind ?_
  rintro _ _ target ⟨_, hsuits, rfl, rfl⟩
  refine takes_typePathStep.shortTable.bind ?_
  rintro _ _ _ ⟨path, ⟨hlength, -⟩, rfl, rfl⟩
  rw [List.map_id]
  apply Ensures.map htakes (TypeAnnotationUse.mk type target path)
  rintro _ _ _ ⟨raw, hfits, rfl, rfl⟩
  exact ⟨⟨type, target, path, raw⟩, ⟨hsuits, hlength, hfits⟩,
    by simp [RawTypeAnnotationUse.written, bigEndian_one], rfl⟩

theorem reads_typePath {path : List TypePathStep} (hlength : path.length < 256) :
    Reads (shortTable typePathStep)
      (bigEndian 1 path.length ++ path.flatMap TypePathStep.written) path := by
  have hpath := reads_shortTable hlength fun step _ => reads_typePathStep step
  rwa [List.map_id'] at hpath

theorem reads_typeAnnotationUseOf {use : Decoder AnnotationUse} {raw : RawTypeAnnotationUse}
    (hfits : raw.Fits) (hreads : Reads use raw.use.written (raw.use.use tables.pool)) :
    Reads (typeAnnotationUseOf use) raw.written (raw.typeUse tables.pool) := by
  obtain ⟨hsuits, hlength, -⟩ := hfits
  have htype := reads_u1 raw.targetType
  have hpath := (reads_typePath hlength).bind
    (fun path => do return TypeAnnotationUse.mk raw.targetType raw.target path (← use))
    (hreads.map _)
  rw [bigEndian_one] at htype
  rw [List.append_assoc] at hpath
  exact htype.bind _ ((reads_annotationTarget hsuits).bind _ hpath)

theorem takes_typeAnnotationUseIn (depth : Nat) :
    Takes (typeAnnotationUseOf (annotationUseOf tables (elementValueIn tables depth)))
      RawTypeAnnotationUse.Fits RawTypeAnnotationUse.written
      (RawTypeAnnotationUse.typeUse tables.pool) :=
  takes_typeAnnotationUseOf (takes_annotationUseIn depth)

theorem reads_typeAnnotationUseIn {depth : Nat} {raw : RawTypeAnnotationUse} (hfits : raw.Fits)
    (hdepth : raw.written.length ≤ depth) :
    Reads (typeAnnotationUseOf (annotationUseOf tables (elementValueIn tables depth))) raw.written
      (raw.typeUse tables.pool) := by
  refine reads_typeAnnotationUseOf hfits (reads_annotationUseIn hfits.2.2 ?_)
  simp only [RawTypeAnnotationUse.written, List.length_cons, List.length_append] at hdepth
  omega

/-! ## What is outside the format -/

theorem leads_elementValue_throw {tag : UInt8} (hconstant : tag ∉ constantTags)
    (henum : tag ≠ 0x65) (hclass : tag ≠ 0x63) (hnested : tag ≠ 0x40) (harray : tag ≠ 0x5B) :
    Leads (elementValue tables) [tag] (throw (.unknownElementTag tag)) := by
  apply leads_deep
  intro depth hdepth
  obtain ⟨less, rfl⟩ : ∃ less, depth = less + 1 := ⟨depth - 1, by omega⟩
  have hleads : Leads (elementValueIn tables (less + 1)) (bigEndian 1 tag.toNat) _ :=
    (reads_u1 tag).leads _
  have hnone : ¬ constantTags.contains tag = true := by simpa using hconstant
  rwa [bigEndian_one, if_neg hnone, if_neg henum, if_neg hclass, if_neg hnested,
    if_neg harray] at hleads

theorem annotationTarget_eq_throw (hnone : ∀ target : AnnotationTarget, ¬ target.Suits type) :
    annotationTarget type = throw (.unknownTargetType type) := by
  have hparameter : ¬ type ≤ 0x01 := by
    intro hle
    have htype : type = 0x00 ∨ type = 0x01 := by grind
    exact hnone (.typeParameter 0) htype
  have hempty : ¬ (0x13 ≤ type ∧ type ≤ 0x15) := by
    intro hrange
    have htype : type = 0x13 ∨ type = 0x14 ∨ type = 0x15 := by grind
    exact hnone .empty htype
  have hlocal : ¬ (type = 0x40 ∨ type = 0x41) := by
    intro htype
    exact hnone (.localVariable []) ⟨htype, by decide⟩
  have hsuper : ¬ type = 0x10 := hnone (.superType 0)
  have hbound : ¬ (type = 0x11 ∨ type = 0x12) := hnone (.typeParameterBound 0 0)
  have hformal : ¬ type = 0x16 := hnone (.formalParameter 0)
  have hthrows : ¬ type = 0x17 := hnone (.throwsClause 0)
  have hcatch : ¬ type = 0x42 := hnone (.catchClause 0)
  have hoffset : ¬ (0x43 ≤ type ∧ type ≤ 0x46) := hnone (.offset 0)
  have hargument : ¬ (0x47 ≤ type ∧ type ≤ 0x4B) := hnone (.typeArgument 0 0)
  rw [annotationTarget, if_neg hparameter, if_neg hsuper, if_neg hbound, if_neg hempty,
    if_neg hformal, if_neg hthrows, if_neg hlocal, if_neg hcatch, if_neg hoffset, if_neg hargument]

theorem leads_typeAnnotationUseOf_target {use : Decoder AnnotationUse}
    (hnone : ∀ target : AnnotationTarget, ¬ target.Suits type) :
    Leads (typeAnnotationUseOf use) [type] (throw (.unknownTargetType type)) := by
  have hleads : Leads (typeAnnotationUseOf use) (bigEndian 1 type.toNat) _ :=
    (reads_u1 type).leads _
  rwa [bigEndian_one, annotationTarget_eq_throw hnone] at hleads

theorem leads_typePathStep_throw {kind argument : UInt8}
    (hnone : ∀ step : TypePathStep, step.written ≠ [kind, argument]) :
    Leads typePathStep [kind, argument] (throw (.unknownPathKind kind)) := by
  have hleads : Leads typePathStep (bigEndian 1 kind.toNat ++ bigEndian 1 argument.toNat) _ :=
    ((reads_u1 kind).leads _).trans ((reads_u1 argument).leads _)
  have htype : kind ≠ 3 := by
    rintro rfl
    exact hnone (.typeArgument argument) rfl
  rw [bigEndian_one, bigEndian_one, if_neg htype] at hleads
  by_cases hzero : argument = 0
  · subst hzero
    have harray : kind ≠ 0 := by
      rintro rfl
      exact hnone .array rfl
    have hnested : kind ≠ 1 := by
      rintro rfl
      exact hnone .nested rfl
    have hbound : kind ≠ 2 := by
      rintro rfl
      exact hnone .bound rfl
    rwa [if_neg (fun hne => hne rfl), if_neg harray, if_neg hnested, if_neg hbound] at hleads
  · rwa [if_pos hzero] at hleads

theorem leads_typeAnnotationUseOf_path {use : Decoder AnnotationUse} {target : AnnotationTarget}
    {count kind argument : UInt8} {path : List TypePathStep} (hsuits : target.Suits type)
    (hless : path.length < count.toNat)
    (hnone : ∀ step : TypePathStep, step.written ≠ [kind, argument]) :
    Leads (typeAnnotationUseOf use)
      ([type] ++ (target.written ++ (bigEndian 1 count.toNat ++
        (path.flatMap TypePathStep.written ++ [kind, argument]))))
      (throw (.unknownPathKind kind)) := by
  have htype := (reads_u1 type).leads fun type => do
    let target ← annotationTarget type
    let path ← shortTable typePathStep
    return TypeAnnotationUse.mk type target path (← use)
  have hpath := leads_shortTable_throw (fun step (_ : step ∈ path) => reads_typePathStep step) hless
    (leads_typePathStep_throw hnone)
  rw [bigEndian_one] at htype
  exact htype.trans (((reads_annotationTarget hsuits).leads _).trans (hpath.bind_throw _))

/-! ## Decoding undoes the format -/

/-- Annotations, element values and annotations on uses of types, and the tables of them that
attributes hold, decode exactly where they are written in the format, however deep they nest.
Nothing behind them is taken, and each index is answered as the text it leads to.  A tag, a target
type or a step of a path that is outside the format is refused. -/
theorem annotations_invert_format (tables : Tables) :
    Inverts (elementValue tables) RawElementValue.Fits RawElementValue.written
      (RawElementValue.value tables.pool) ∧
    Inverts (annotationUse tables) RawAnnotationUse.Fits RawAnnotationUse.written
      (RawAnnotationUse.use tables.pool) ∧
    Inverts (typeAnnotationUse tables) RawTypeAnnotationUse.Fits RawTypeAnnotationUse.written
      (RawTypeAnnotationUse.typeUse tables.pool) ∧
    Inverts (annotations tables) (fun raws => raws.length < 65536 ∧ ∀ raw ∈ raws, raw.Fits)
      (writtenTable RawAnnotationUse.written) (List.map (RawAnnotationUse.use tables.pool)) ∧
    Inverts (parameterAnnotations tables)
      (fun parameters => parameters.length < 256 ∧
        ∀ raws ∈ parameters, raws.length < 65536 ∧ ∀ raw ∈ raws, raw.Fits)
      (fun parameters => bigEndian 1 parameters.length ++
        parameters.flatMap (writtenTable RawAnnotationUse.written))
      (List.map (List.map (RawAnnotationUse.use tables.pool))) ∧
    Inverts (typeAnnotations tables) (fun raws => raws.length < 65536 ∧ ∀ raw ∈ raws, raw.Fits)
      (writtenTable RawTypeAnnotationUse.written)
      (List.map (RawTypeAnnotationUse.typeUse tables.pool)) ∧
    (∀ tag, tag ∉ constantTags → tag ≠ 0x65 → tag ≠ 0x63 → tag ≠ 0x40 → tag ≠ 0x5B →
      Leads (elementValue tables) [tag] (throw (.unknownElementTag tag))) ∧
    (∀ type, (∀ target : AnnotationTarget, ¬ target.Suits type) →
      Leads (typeAnnotationUse tables) [type] (throw (.unknownTargetType type))) ∧
    (∀ type (target : AnnotationTarget) (count : UInt8) (path : List TypePathStep) kind argument,
      target.Suits type → path.length < count.toNat →
      (∀ step : TypePathStep, step.written ≠ [kind, argument]) →
      Leads (typeAnnotationUse tables)
        ([type] ++ (target.written ++ (bigEndian 1 count.toNat ++
          (path.flatMap TypePathStep.written ++ [kind, argument]))))
        (throw (.unknownPathKind kind))) := by
  refine ⟨?_, ?_, ?_, ?_, ?_, ?_, ?_, ?_, ?_⟩
  · refine inverts_deep takes_elementValueIn fun depth raw hfits hless => ?_
    exact reads_elementValueIn hfits (Nat.le_of_lt hless)
  · refine inverts_deep takes_annotationUseIn fun depth raw hfits hless => ?_
    exact reads_annotationUseIn hfits (Nat.le_of_lt hless)
  · refine inverts_deep takes_typeAnnotationUseIn fun depth raw hfits hless => ?_
    exact reads_typeAnnotationUseIn hfits (Nat.le_of_lt hless)
  · refine inverts_deep (fun depth => (takes_annotationUseIn depth).table) ?_
    rintro depth raws ⟨hlength, hfits⟩ hless
    refine reads_table hlength fun raw hraw => reads_annotationUseIn (hfits raw hraw) ?_
    exact Nat.le_trans (length_le_of_mem_writtenTable hraw) (Nat.le_of_lt hless)
  · refine inverts_deep (fun depth => (takes_annotationUseIn depth).table.shortTable) ?_
    rintro depth parameters ⟨hlength, hfits⟩ hless
    refine reads_shortTable hlength fun raws hraws => ?_
    have hparameter : (writtenTable RawAnnotationUse.written raws).length ≤ _ :=
      length_le_of_mem_flatMap hraws
    rw [List.length_append] at hless
    refine reads_table (hfits raws hraws).1 fun raw hraw => ?_
    have husage : raw.written.length ≤ _ := length_le_of_mem_writtenTable hraw
    exact reads_annotationUseIn ((hfits raws hraws).2 raw hraw) (by omega)
  · refine inverts_deep (fun depth => (takes_typeAnnotationUseIn depth).table) ?_
    rintro depth raws ⟨hlength, hfits⟩ hless
    refine reads_table hlength fun raw hraw => reads_typeAnnotationUseIn (hfits raw hraw) ?_
    exact Nat.le_trans (length_le_of_mem_writtenTable hraw) (Nat.le_of_lt hless)
  · intro tag hconstant henum hclass hnested harray
    exact leads_elementValue_throw hconstant henum hclass hnested harray
  · intro type hnone
    exact leads_deep fun depth _ => leads_typeAnnotationUseOf_target hnone
  · intro type target count path kind argument hsuits hless hnone
    exact leads_deep fun depth _ => leads_typeAnnotationUseOf_path hsuits hless hnone

/-- Tables whose pool holds a descriptor at index 1 and the name of an element at index 2. -/
def annotationTables : Tables :=
  ⟨⟨#[none, some ⟨1, 1, .utf8, [⟨"bytes", .text "Lp/A;"⟩]⟩,
    some ⟨1, 2, .utf8, [⟨"bytes", .text "value"⟩]⟩]⟩, .new [] [] []⟩

/-- An annotation with an array in which a constant and an annotation nest. -/
def nestedUse : RawAnnotationUse := ⟨1, [(2, .array [.constant 0x49 3, .nested 1 []])]⟩

theorem nestedUse_fits : nestedUse.Fits := by
  simp [nestedUse, RawAnnotationUse.Fits, RawElementValue.Fits, RawElementValue.ElementsFit,
    RawElementValue.ValuesFit, constantTags]

/-- The octet behind the annotation is not taken, and a target type without a target is refused. -/
theorem annotations_invert_format_nested :
    (∃ metAfter, annotationUse annotationTables
        ⟨[0, 1, 0, 1, 0, 2, 0x5B, 0, 2, 0x49, 0, 3, 0x40, 0, 1, 0, 0, 9], 10, []⟩ =
      .ok ⟨"Lp/A;", [("value", .array [.constant 'I' 3, .nested "Lp/A;" []])]⟩
        ⟨[9], 27, metAfter⟩) ∧
    Leads (typeAnnotationUse annotationTables) [0x18] (throw (.unknownTargetType 0x18)) := by
  obtain ⟨-, huse, -, -, -, -, -, htarget, -⟩ := annotations_invert_format annotationTables
  constructor
  · exact (huse _ 10 [] _ [9] 27).mpr ⟨nestedUse, nestedUse_fits, rfl, rfl, rfl⟩
  · refine htarget 0x18 fun target => ?_
    cases target <;> simp [AnnotationTarget.Suits]

end Decoder

end ClassCensus
