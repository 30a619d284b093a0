import ClassCensus.Proofs.ClassFile.Layout
import ClassCensus.Proofs.Signature.Extraction

/-!
# The references of a class body

Every descriptor and signature met in a class body adds the classes that it mentions to a set.  The
set ends up with all classes mentioned anywhere in the decoded class file.  More can only come from
attributes that do not fit their names, and then only from texts of the constant pool; a class file
without such attributes adds exactly what it mentions.
-/

namespace ClassCensus

/-! ## What a class body meets -/

namespace Decoder

variable {tables : Tables}

theorem meets_member {α : Type} {make : UInt16 → String → String → List Attribute → α}
    {describe : α → List String} {isSound : α → Prop}
    (hdescribe : ∀ flags name descriptor attributes,
      describe (make flags name descriptor attributes) =
        descriptor :: Attribute.descriptorsIn attributes)
    (hsound : ∀ flags name descriptor attributes,
      isSound (make flags name descriptor attributes) →
        ∀ found ∈ attributes, found.IsSound) :
    Meets tables (member tables make) describe isSound := by
  refine Silent.u2.then_ensures fun flags => silent_textAt.then_ensures fun name => ?_
  refine Ensures.bind meets_descriptorAt fun _ met descriptor hdescriptor => ?_
  refine Ensures.bind (meets_table meets_attributeEntry) fun _ more attributes hattributes => ?_
  apply ensures_pure
  rw [hdescribe, Attribute.descriptorsIn_eq]
  refine (hdescriptor.append hattributes).of_imp fun hmade => ?_
  exact ⟨trivial, hsound _ _ _ _ hmade⟩

theorem meets_classBody (version : ClassVersion) :
    Meets tables (classBody version tables) ClassFile.descriptors ClassFile.IsSound := by
  apply ensures_located
  refine Silent.u2.then_ensures fun flags => silent_classNameAt.then_ensures fun thisClass => ?_
  refine silent_optionalClassNameAt.then_ensures fun superClass => ?_
  refine silent_classNames.then_ensures fun interfaces => ?_
  have hfield : Meets tables (field tables) Field.descriptors
      fun found => ∀ nested ∈ found.attributes, nested.IsSound :=
    meets_member (fun _ _ _ _ => rfl) fun _ _ _ _ => id
  have hmethod : Meets tables (method tables) Method.descriptors
      fun found => ∀ nested ∈ found.attributes, nested.IsSound :=
    meets_member (fun _ _ _ _ => rfl) fun _ _ _ _ => id
  refine Ensures.bind (meets_table hfield) fun _ first fields hfields => ?_
  refine Ensures.bind (meets_table hmethod) fun _ second methods hmethods => ?_
  refine Ensures.bind (meets_table meets_attributeEntry) fun _ third attributes hattributes => ?_
  apply ensures_pure
  rw [ClassFile.descriptors, Attribute.descriptorsIn_eq, List.append_assoc]
  refine (hfields.append (hmethods.append hattributes)).of_imp fun hsound => ?_
  rw [ClassFile.IsSound, Attribute.areSound_iff] at hsound
  simp only [ClassFile.allAttributes, List.mem_append, List.mem_flatMap] at hsound
  refine ⟨fun found hfound nested hnested => ?_, fun found hfound nested hnested => ?_,
    fun nested hnested => ?_⟩
  · exact hsound nested (.inl (.inl ⟨found, hfound, hnested⟩))
  · exact hsound nested (.inl (.inr ⟨found, hfound, hnested⟩))
  · exact hsound nested (.inr hnested)

end Decoder

/-! ## Adding what was met -/

/-- The set after all texts were added in the order in which they were met; the latest is first. -/
def ClassNames.addMet (names : ClassNames) (met : List String) : ClassNames :=
  met.foldr (fun text names => (names.addMentioned text).2) names

theorem ClassNames.mem_addMet {names : ClassNames} {met : List String} {name : String} :
    name ∈ names.addMet met ↔ name ∈ names ∨ ∃ text ∈ met, name ∈ mentionedClasses text := by
  induction met with
  | nil => simp [addMet]
  | cons text met ih =>
      rw [addMet, List.foldr_cons, ← addMet, mem_addMentioned, ih]
      constructor
      · rintro ((hname | ⟨other, hother, hname⟩) | hname)
        · exact .inl hname
        · exact .inr ⟨other, List.mem_cons_of_mem text hother, hname⟩
        · exact .inr ⟨text, List.mem_cons_self, hname⟩
      · rintro (hname | ⟨other, hother, hname⟩)
        · exact .inl (.inl hname)
        · rcases List.mem_cons.mp hother with rfl | hother
          · exact .inr hname
          · exact .inl (.inr ⟨other, hother, hname⟩)

/-- Adding what a cursor has met, one text after the other, joins the classes that it mentions. -/
theorem ClassNames.addMet_eq_union (names : ClassNames) (cursor : Cursor) :
    names.addMet cursor.met = names ∪ cursor.mentioned := by
  apply ClassNames.ext
  intro name
  simp [mem_addMet, Cursor.mentioned, List.mem_flatMap]

theorem mentionedClasses_empty : mentionedClasses "" = [] := by
  rfl

/-- Decoding a class body adds the classes that the class file mentions to a set, adds nothing that
no text of the pool mentions, and nothing else at all if every attribute fits its name.  The set is
joined with the classes mentioned behind the body, which are those that an analysis takes. -/
theorem addMet_classBody (version : ClassVersion) (tables : Tables) (names : ClassNames)
    (octets : List UInt8) (position : Nat) {classFile : ClassFile} {after : Cursor}
    (hdecoded : Decoder.classBody version tables ⟨octets, position, []⟩ = .ok classFile after) :
    (∀ name ∈ names, name ∈ names.addMet after.met) ∧
    (∀ text ∈ classFile.descriptors, ∀ name ∈ mentionedClasses text,
      name ∈ names.addMet after.met) ∧
    (∀ name ∈ names.addMet after.met, name ∈ names ∨
      ∃ text ∈ tables.pool.texts, name ∈ mentionedClasses text) ∧
    (classFile.IsSound → ∀ name, name ∈ names.addMet after.met ↔
      name ∈ names ∨ ∃ text ∈ classFile.descriptors, name ∈ mentionedClasses text) ∧
    names.addMet after.met = names ∪ after.mentioned := by
  obtain ⟨taken, met, hknown, hpasses, hagrees⟩ :=
    Decoder.Ensures.ok (Decoder.meets_classBody version) hdecoded
  have hmet : after.met = met := by simpa using hpasses.met
  rw [hmet]
  have hcomplete : ∀ text ∈ classFile.descriptors, ∀ name ∈ mentionedClasses text,
      name ∈ names.addMet met := fun text htext name hname =>
    ClassNames.mem_addMet.mpr (.inr ⟨text, hagrees.complete text htext, hname⟩)
  refine ⟨fun name hname => ClassNames.mem_addMet.mpr (.inl hname), hcomplete, ?_, ?_, ?_⟩
  · intro name hname
    rcases ClassNames.mem_addMet.mp hname with hname | ⟨text, htext, hname⟩
    · exact .inl hname
    · rcases hknown text htext with rfl | hpool
      · simp [mentionedClasses_empty] at hname
      · exact .inr ⟨text, hpool, hname⟩
  · intro hsound name
    constructor
    · intro hname
      rcases ClassNames.mem_addMet.mp hname with hname | ⟨text, htext, hname⟩
      · exact .inl hname
      · exact .inr ⟨text, hagrees.exact hsound text htext, hname⟩
    · rintro (hname | ⟨text, htext, hname⟩)
      · exact ClassNames.mem_addMet.mpr (.inl hname)
      · exact hcomplete text htext name hname
  · rw [← hmet]
    exact names.addMet_eq_union after

/-- A field whose descriptor and signature are the same text adds one class to the empty set. -/
theorem addMet_classBody_field :
    ∃ classFile after,
      Decoder.classBody ⟨61, 0⟩ signatureTables ⟨signatureBody.written, 0, []⟩ =
        .ok classFile after ∧
      classFile.IsSound ∧ ∀ name, name ∈ (∅ : ClassNames).addMet after.met ↔ name = "p/A" := by
  obtain ⟨more, hdecoded⟩ :=
    Decoder.reads_classBody ⟨61, 0⟩ (@signatureBody_fits) [] 0 []
  rw [List.append_nil] at hdecoded
  have hsound : (signatureBody.classFile ⟨61, 0⟩ signatureTables).IsSound := ⟨trivial, trivial⟩
  have hdescriptors : (signatureBody.classFile ⟨61, 0⟩ signatureTables).descriptors =
      ["Lp/A;", "Lp/A;"] := by rfl
  have hmentioned : mentionedClasses "Lp/A;" = ["p/A"] := by rfl
  have hfinal := (addMet_classBody ⟨61, 0⟩ signatureTables ∅ _ 0 hdecoded).2.2.2.1 hsound
  refine ⟨_, _, hdecoded, hsound, fun name => ?_⟩
  rw [hfinal name, hdescriptors]
  simp [hmentioned]

end ClassCensus
