import ClassCensus.Proofs.Signature.Acceptance
import ClassCensus.Proofs.Signature.Extraction

/-!
# Extracted names are clean

Every name that is added from a text is one that can stand in a descriptor.  The texts that are
accepted are the written forms of trees that fit, and a tree that fits has names in all places; a
class and the classes it is nested in are joined by dollar signs, which end no name.  So each added
name is a name again, its plain descriptor is accepted, and nothing but that name comes out of it.
-/

namespace ClassCensus

open Signature (IsName nameEnds identifierEnds parse? parse?_eq_some_iff)

/-! ## Names in trees that fit -/

theorem Argument.Fits.of_mem {type : Reference} {argument : Argument} :
    ∀ {found : List Argument}, Argument.Fits found → argument ∈ found →
      argument.type? = some type → type.Fits
  | first :: others, hfits, hmem, htype => by
      have hboth : (∀ other, first.type? = some other → other.Fits) ∧ Argument.Fits others := by
        cases first with
        | any => exact ⟨by simp [type?], hfits⟩
        | exact other => exact ⟨by simpa [type?] using hfits.1, hfits.2⟩
        | upper bound => exact ⟨by simpa [type?] using hfits.1, hfits.2⟩
        | lower bound => exact ⟨by simpa [type?] using hfits.1, hfits.2⟩
      rcases List.mem_cons.mp hmem with rfl | hmem
      · exact hboth.1 type htype
      · exact of_mem hboth.2 hmem htype

theorem Suffix.Fits.of_arguments_mem {found : List Argument} :
    ∀ {suffixes : List Suffix}, Suffix.Fits suffixes → .arguments found ∈ suffixes →
      Argument.Fits found
  | .arguments first :: suffixes, hfits, hmem => by
      rcases List.mem_cons.mp hmem with heq | hmem
      · cases heq
        exact hfits.1
      · exact of_arguments_mem hfits.2 hmem
  | .inner name :: suffixes, hfits, hmem => by
      rcases List.mem_cons.mp hmem with heq | hmem
      · cases heq
      · exact of_arguments_mem hfits.2 hmem

theorem Suffix.Fits.isName_of_mem_inners {inner : List Char} :
    ∀ {suffixes : List Suffix}, Suffix.Fits suffixes → inner ∈ inners suffixes →
      IsName identifierEnds inner
  | .arguments _ :: _, hfits, hmem => isName_of_mem_inners hfits.2 hmem
  | .inner _ :: _, hfits, hmem => by
      rcases List.mem_cons.mp hmem with rfl | hmem
      · exact hfits.1
      · exact isName_of_mem_inners hfits.2 hmem

/-- What occurs in a reference that fits fits as well. -/
theorem Reference.OccursIn.fits {type other : Reference} (hoccurs : OccursIn type other)
    (hfits : other.Fits) : type.Fits := by
  induction hoccurs with
  | here => exact hfits
  | element _ ih => exact ih hfits
  | argument hsuffix hargument htype _ ih =>
      exact ih ((hfits.2.of_arguments_mem hsuffix).of_mem hargument htype)

theorem JavaType.Fits.of_mem_references {type : Reference} {types : List JavaType}
    (hfits : ∀ found ∈ types, found.Fits) (hmem : type ∈ types.filterMap JavaType.reference?) :
    type.Fits := by
  obtain ⟨found, hfound, htype⟩ := List.mem_filterMap.mp hmem
  cases found with
  | primitive => cases htype
  | reference other =>
      cases htype
      exact hfits _ hfound

theorem Shape.Fits.of_mem_references {shape : Shape} (hfits : shape.Fits) {type : Reference}
    (hmem : type ∈ shape.references) : type.Fits := by
  cases shape with
  | void => cases hmem
  | types first others => exact JavaType.Fits.of_mem_references hfits hmem
  | method parameters result throws =>
      rcases List.mem_append.mp hmem with hmem | hmem
      · exact JavaType.Fits.of_mem_references hfits.1 hmem
      · exact hfits.2 type hmem

theorem Signature.Fits.of_mem_references {signature : Signature} (hfits : signature.Fits)
    {type : Reference} (hmem : type ∈ signature.references) : type.Fits := by
  rcases List.mem_append.mp hmem with hmem | hmem
  · obtain ⟨parameter, hparameter, hbound⟩ := List.mem_flatMap.mp hmem
    exact (hfits.1 parameter hparameter).2 type hbound
  · exact hfits.2.2.of_mem_references hmem

/-! ## Joined names -/

/-- A dollar sign ends no name, and all that ends the name of a class ends that of a nested one,
too. -/
theorem isName_nestedName {name : List Char} {inners : List (List Char)}
    (hname : IsName nameEnds name) (hinners : ∀ inner ∈ inners, IsName identifierEnds inner) :
    IsName nameEnds (nestedName name inners) := by
  refine ⟨fun hnil => hname.1 (List.append_eq_nil_iff.mp hnil).1, fun c hc => ?_⟩
  rcases List.mem_append.mp hc with hc | hc
  · exact hname.2 c hc
  · obtain ⟨inner, hinner, hc⟩ := List.mem_flatMap.mp hc
    rcases List.mem_cons.mp hc with rfl | hc
    · decide
    · exact (hinners inner hinner).of_identifier.2.2 c hc

theorem Signature.Fits.isName_of_mem_mentions {signature : Signature} (hfits : signature.Fits)
    {className : List Char} (hmention : className ∈ signature.mentions) :
    IsName nameEnds className := by
  obtain ⟨type, htype, name, suffixes, hoccurs, inners, hinners, rfl⟩ :=
    Signature.mem_mentions_iff.mp hmention
  obtain ⟨hname, hsuffixes⟩ := hoccurs.fits (hfits.of_mem_references htype)
  exact isName_nestedName hname fun inner hinner =>
    hsuffixes.isName_of_mem_inners (hinners.subset hinner)

theorem isName_of_mem_mentionedClasses {text name : String} (hname : name ∈ mentionedClasses text) :
    IsName nameEnds name.toList := by
  cases hparse : parse? text with
  | none => simp [mentionedClasses, hparse] at hname
  | some signature =>
      simp only [mentionedClasses, hparse, List.mem_map] at hname
      obtain ⟨className, hmention, rfl⟩ := hname
      rw [String.toList_ofList]
      exact (parse?_eq_some_iff.mp hparse).1.isName_of_mem_mentions hmention

/-! ## Plain descriptors -/

/-- The tree of a plain descriptor: a class, without arguments and nested classes. -/
def Signature.ofClass (name : List Char) : Signature :=
  ⟨[], .types (.reference (.classType name [])) []⟩

theorem Signature.parse?_ofClass {name : String} (hname : IsName nameEnds name.toList) :
    parse? ("L" ++ name ++ ";") = some (ofClass name.toList) := by
  refine parse?_eq_some_iff.mpr ⟨⟨by simp [ofClass], trivial, ?_⟩, ?_⟩
  · simpa [ofClass, Shape.Fits, JavaType.Fits, Reference.Fits, Suffix.Fits] using hname
  · simp [ofClass, written, writtenParameters, Shape.written, JavaType.written, Reference.written,
      Suffix.written]

theorem Signature.mentions_ofClass (name : List Char) : (ofClass name).mentions = [name] := by
  simp [ofClass, mentions, Shape.mentions, JavaType.mentions, Reference.mentions, Suffix.mentions]

/-- A plain descriptor of a name adds that name. -/
theorem addMentioned_descriptor {name : String} (hname : IsName nameEnds name.toList)
    (names : ClassNames) :
    names.addMentioned ("L" ++ name ++ ";") = (true, names.insert name) := by
  simp only [ClassNames.addMentioned, Signature.parse?_ofClass hname, Signature.mentions_ofClass]
  refine Prod.ext rfl (ClassNames.ext fun other => ?_)
  simp only [ClassNames.mem_union, ClassNames.mem_ofList, ClassNames.mem_insert, List.map_cons,
    List.map_nil, String.ofList_toList, List.mem_singleton]
  exact Or.comm

/-- A name that any text adds is not empty and free of the characters that end names, and its plain
descriptor adds it and nothing else to any set. -/
theorem addMentioned_clean {names : ClassNames} {text name : String}
    (hadded : name ∈ (names.addMentioned text).2) (hnew : name ∉ names) :
    name ≠ "" ∧ (∀ c ∈ name.toList, c ∉ [';', '<', '>', '.', ':', '[']) ∧
      ∀ others : ClassNames,
        others.addMentioned ("L" ++ name ++ ";") = (true, others.insert name) := by
  have hname : IsName nameEnds name.toList :=
    isName_of_mem_mentionedClasses ((ClassNames.mem_addMentioned.mp hadded).resolve_left hnew)
  refine ⟨?_, hname.2, addMentioned_descriptor hname⟩
  rintro rfl
  exact hname.1 rfl

/-- The text has an empty and a repeated list of arguments, which the documented grammar has not. -/
theorem addMentioned_clean_loose :
    "é$b" ∈ ((∅ : ClassNames).addMentioned "Lé<>.b<*><*>;").2 ∧ "é$b" ∉ (∅ : ClassNames) ∧
    "é$b" ≠ "" ∧ (∀ c ∈ "é$b".toList, c ∉ [';', '<', '>', '.', ':', '[']) ∧
      ∀ others : ClassNames,
        others.addMentioned ("L" ++ "é$b" ++ ";") = (true, others.insert "é$b") := by
  have hadded : "é$b" ∈ ((∅ : ClassNames).addMentioned "Lé<>.b<*><*>;").2 := by
    rw [ClassNames.mem_addMentioned]
    have hmentioned : mentionedClasses "Lé<>.b<*><*>;" = ["é", "é$b"] := by rfl
    simp [hmentioned]
  exact ⟨hadded, ClassNames.not_mem_empty, addMentioned_clean hadded ClassNames.not_mem_empty⟩

end ClassCensus
