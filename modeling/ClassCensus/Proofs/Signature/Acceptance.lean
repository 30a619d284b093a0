import ClassCensus.Proofs.Signature.Grammar
import ClassCensus.Signature.Mentions
import Mathlib.Tactic.ByContra

/-!
# The reader against the documented grammar

The reader and the documented grammar differ in both directions, and this module says exactly
where.

The reader takes more: empty and repeated lists of type arguments, and names of type parameters
with characters that end other names.  These are the trees that fit without being documented.

It takes less: a type parameter without bounds, followed by one whose name looks like a bound.
There the grammar needs to look further ahead than the reader does, which takes the name for the
missing bound and then misses its end.
-/

namespace ClassCensus

open Signature (IsName nameEnds identifierEnds parameterEnds)

/-! ## Documented trees fit, but for the order of their type parameters -/

mutual

theorem Reference.Documented.fits : ∀ {type : Reference}, type.Documented → type.Fits
  | .classType _ _, hdocumented => ⟨hdocumented.1, Suffix.Documented.fits hdocumented.2⟩
  | .variable _, hdocumented => hdocumented
  | .array element, hdocumented => @Reference.Documented.fits element hdocumented
  | .primitiveArray _, _ => trivial

theorem Suffix.Documented.fits : ∀ {afterName : Bool} {suffixes : List Suffix},
    Suffix.Documented afterName suffixes → Suffix.Fits suffixes
  | _, [], _ => trivial
  | _, .arguments _ :: _, hdocumented =>
      ⟨Argument.Documented.fits hdocumented.2.2.1, Suffix.Documented.fits hdocumented.2.2.2⟩
  | _, .inner _ :: _, hdocumented => ⟨hdocumented.1, Suffix.Documented.fits hdocumented.2⟩

theorem Argument.Documented.fits : ∀ {found : List Argument},
    Argument.Documented found → Argument.Fits found
  | [], _ => trivial
  | .any :: found, hdocumented => @Argument.Documented.fits found hdocumented
  | .exact _ :: _, hdocumented =>
      ⟨Reference.Documented.fits hdocumented.1, Argument.Documented.fits hdocumented.2⟩
  | .upper _ :: _, hdocumented =>
      ⟨Reference.Documented.fits hdocumented.1, Argument.Documented.fits hdocumented.2⟩
  | .lower _ :: _, hdocumented =>
      ⟨Reference.Documented.fits hdocumented.1, Argument.Documented.fits hdocumented.2⟩

end

theorem JavaType.Documented.fits {type : JavaType} (hdocumented : type.Documented) :
    type.Fits := by
  cases type with
  | primitive primitive => trivial
  | reference type => exact Reference.Documented.fits hdocumented

theorem Signature.IsName.of_identifier {word : List Char} (hname : IsName identifierEnds word) :
    IsName parameterEnds word ∧ IsName nameEnds word := by
  constructor
  · refine ⟨hname.1, fun c hc hends => hname.2 c hc ?_⟩
    simp only [parameterEnds, identifierEnds, List.mem_cons, List.not_mem_nil, or_false] at *
    rcases hends with rfl | rfl <;> simp
  · refine ⟨hname.1, fun c hc hends => hname.2 c hc ?_⟩
    exact List.mem_append_left ['/'] hends

theorem TypeParameter.Documented.fits {parameter : TypeParameter}
    (hdocumented : parameter.Documented) : parameter.Fits :=
  ⟨hdocumented.1.of_identifier.1, fun bound hbound => (hdocumented.2 bound hbound).fits⟩

theorem Shape.Documented.fits {shape : Shape} (hdocumented : shape.Documented) : shape.Fits := by
  cases shape with
  | void => trivial
  | types first others => exact fun type htype => (hdocumented type htype).fits
  | method parameters found throws =>
      exact ⟨fun type htype => (hdocumented.1 type htype).fits,
        fun thrown hthrown => (hdocumented.2 thrown hthrown).fits⟩

theorem Signature.Documented.fits {signature : Signature} (hdocumented : signature.Documented)
    (hsequence : TypeParameter.Sequence signature.parameters) : signature.Fits :=
  ⟨fun parameter hparameter => (hdocumented.1 parameter hparameter).fits, hsequence,
    hdocumented.2.fits⟩

namespace Signature

/-! ## Names that are taken for bounds -/

theorem suffixes_colon (budget : Nat) (before : List Suffix) (rest : List Char) :
    suffixes budget before (':' :: rest) = none := by
  cases budget <;> rfl

theorem name_append_colon {ends word : List Char} (hword : ∀ c ∈ word, c ∉ ends)
    (hcolon : ':' ∈ ends) (rest : List Char) :
    name ends (word ++ ':' :: rest) = none ∨
      name ends (word ++ ':' :: rest) = some (word, ':' :: rest) := by
  by_cases hempty : word = []
  · subst hempty
    exact .inl (by simp [name, hcolon])
  · exact .inr (name_append ⟨hempty, hword⟩ (by simpa using hcolon))

/-- An identifier in front of a colon is no reference, whatever it starts with. -/
theorem reference_identifier {word : List Char} (hname : IsName identifierEnds word)
    (budget : Nat) (rest : List Char) : reference budget (word ++ ':' :: rest) = none := by
  obtain ⟨c, others, rfl⟩ := List.exists_cons_of_ne_nil hname.1
  by_cases hstart : c ∈ Reference.starts
  · cases budget with
    | zero => rfl
    | succ budget =>
        have hothers : ∀ d ∈ others, d ∉ identifierEnds := fun d hd =>
          hname.2 d (List.mem_cons_of_mem c hd)
        have hclass : ∀ d ∈ others, d ∉ nameEnds := fun d hd =>
          hname.of_identifier.2.2 d (List.mem_cons_of_mem c hd)
        simp only [Reference.starts, List.mem_cons, List.not_mem_nil, or_false] at hstart
        -- Behind the name stands the colon, which neither a class nor a variable goes on with.
        rcases hstart with rfl | rfl | rfl
        · rcases name_append_colon hclass (by simp [nameEnds]) rest with hread | hread <;>
            simp [reference, hread, suffixes_colon]
        · rcases name_append_colon hothers (by simp [identifierEnds]) rest with hread | hread <;>
            simp [reference, hread]
        · exact absurd (by simp [identifierEnds]) (hname.2 '[' (by simp))
  · exact reference_eq_none_of_head_not_mem (by simpa using hstart)

theorem typeParameter_of_not_canFollow {parameter next : TypeParameter}
    (hparameter : parameter.Documented) (hnext : next.Documented)
    (hfollow : ¬ parameter.CanFollow next) (budget : Nat) (rest : List Char) :
    typeParameter budget (parameter.written ++ (next.written ++ rest)) = none := by
  obtain ⟨word, bound, interfaces⟩ := parameter
  obtain ⟨hbounds, hhead⟩ := Classical.not_imp.mp hfollow
  rw [not_not] at hhead
  simp only [TypeParameter.bounds, List.append_eq_nil_iff, Option.toList_eq_nil_iff] at hbounds
  obtain ⟨rfl, rfl⟩ := hbounds
  obtain ⟨c, others, hword⟩ := List.exists_cons_of_ne_nil hnext.1.1
  have hstart : c ∈ Reference.starts := by simpa [hword, Reference.starts] using hhead
  have hname : name parameterEnds (word ++ ':' :: (next.written ++ rest)) =
      some (word, ':' :: (next.written ++ rest)) :=
    name_append hparameter.1.of_identifier.1 (by simp [parameterEnds])
  have hreference : reference budget (next.written ++ rest) = none := by
    rw [TypeParameter.written, List.append_assoc]
    exact reference_identifier hnext.1 budget _
  have hbound : classBound budget (next.written ++ rest) = none := by
    rw [TypeParameter.written, hword, List.cons_append, List.cons_append] at hreference ⊢
    rw [classBound_of_mem_starts hstart, hreference]
    rfl
  have htext : TypeParameter.written ⟨word, none, []⟩ ++ (next.written ++ rest) =
      word ++ ':' :: (next.written ++ rest) := by
    simp [TypeParameter.written, TypeParameter.writtenInterfaces]
  rw [htext]
  simp [typeParameter, hname, hbound]

/-- Documented type parameters, one of which hides the next, are not read. -/
theorem typeParameters_of_not_sequence {parameters : List TypeParameter}
    (hdocumented : ∀ parameter ∈ parameters, parameter.Documented)
    (hsequence : ¬ TypeParameter.Sequence parameters) (budget limit : Nat)
    (hbudget : 2 * (parameters.flatMap TypeParameter.written).length ≤ budget)
    (before : List TypeParameter) (rest : List Char) :
    typeParameters budget limit before
      (parameters.flatMap TypeParameter.written ++ '>' :: rest) = none := by
  induction parameters generalizing limit before with
  | nil => exact absurd trivial hsequence
  | cons parameter parameters ih =>
      cases limit with
      | zero => rfl
      | succ limit =>
          have hparameter := hdocumented parameter (by simp)
          cases parameters with
          | nil => exact absurd trivial hsequence
          | cons next others =>
              have hnext := hdocumented next (by simp)
              have htext : (next :: others).flatMap TypeParameter.written ++ '>' :: rest =
                  next.written ++ (others.flatMap TypeParameter.written ++ '>' :: rest) := by
                simp
              rw [List.flatMap_cons, List.append_assoc, htext]
              -- The parameters in front of the one that is hidden read back as they are.
              by_cases hfollow : parameter.CanFollow next
              · have hothers : ¬ TypeParameter.Sequence (next :: others) := fun hothers =>
                  hsequence ⟨hfollow, hothers⟩
                simp only [List.flatMap_cons, List.length_append] at hbudget
                have hfirst := typeParameter_written budget hparameter.fits (by omega)
                  (separates_written hfollow hnext.fits
                    (others.flatMap TypeParameter.written ++ '>' :: rest))
                rw [typeParameters_of_some (head?_written_ne_close hnext.fits _) hfirst, ← htext]
                exact ih (fun other hother => hdocumented other (by simp [hother])) hothers limit
                  (by simp only [List.flatMap_cons, List.length_append]; omega)
                  (parameter :: before)
              · simp [typeParameters, typeParameter_of_not_canFollow hparameter hnext hfollow]

theorem parse?_of_not_sequence {signature : Signature} (hdocumented : signature.Documented)
    (hsequence : ¬ TypeParameter.Sequence signature.parameters) {text : String}
    (htext : signature.written = text.toList) : parse? text = none := by
  obtain ⟨parameters, shape⟩ := signature
  cases parameters with
  | nil => exact absurd trivial hsequence
  | cons parameter others =>
      have hwritten : text.toList = '<' ::
          ((parameter :: others).flatMap TypeParameter.written ++ '>' :: shape.written) := by
        rw [← htext]
        simp [written, writtenParameters]
      have hnone := typeParameters_of_not_sequence hdocumented.1 hsequence
        (2 * text.toList.length + 2) (text.toList.length - 1)
        (by
          rw [hwritten]
          simp only [List.length_cons, List.length_append]
          omega) [] shape.written
      rw [hwritten, List.length_cons, Nat.add_sub_cancel] at hnone
      rw [parse?, hwritten]
      simp only [signature?, List.length_cons, hnone]
      rfl

/-! ## The accepted texts -/

/-- That a text is the written form of a tree that fits without being documented: it has type
arguments that are missing or repeated, or a type parameter whose name is no identifier. -/
def Loose (text : List Char) : Prop :=
  ∃ signature : Signature, signature.Fits ∧ ¬ signature.Documented ∧ signature.written = text

/-- That a text is the written form of a documented tree in which a type parameter without bounds
stands in front of one whose name starts like a bound. -/
def Shadowed (text : List Char) : Prop :=
  ∃ signature : Signature, signature.Documented ∧
    ¬ TypeParameter.Sequence signature.parameters ∧ signature.written = text

theorem addMentioned_fst_iff {names : ClassNames} {text : String} :
    (names.addMentioned text).1 = true ↔ ∃ signature, parse? text = some signature := by
  cases hparse : parse? text <;> simp [ClassNames.addMentioned, hparse]

/-- A documented tree is the one that its text is read as, if it is read. -/
theorem eq_of_documented {text : String} {documented signature : Signature}
    (hdocumented : documented.Documented) (htext : documented.written = text.toList)
    (hparse : parse? text = some signature) : documented = signature := by
  have hsequence : TypeParameter.Sequence documented.parameters := by
    by_contra hsequence
    rw [parse?_of_not_sequence hdocumented hsequence htext] at hparse
    cases hparse
  have hagain := parse?_eq_some_iff.mpr ⟨hdocumented.fits hsequence, htext⟩
  rw [hparse] at hagain
  exact (Option.some.inj hagain).symm

/-- A derived text is accepted unless a type parameter is shadowed in it. -/
theorem exists_parse?_iff_not_shadowed {text : String}
    (hderives : Derives .signature text.toList) :
    (∃ signature, parse? text = some signature) ↔ ¬ Shadowed text.toList := by
  constructor
  · rintro ⟨signature, hparse⟩ ⟨shadowed, hdocumented, hsequence, htext⟩
    have hfits := (parse?_eq_some_iff.mp hparse).1
    rw [← eq_of_documented hdocumented htext hparse] at hfits
    exact hsequence hfits.2.1
  · intro hshadowed
    obtain ⟨signature, hdocumented, htext⟩ := derives_iff_exists_documented.mp hderives
    have hsequence : TypeParameter.Sequence signature.parameters := by
      by_contra hsequence
      exact hshadowed ⟨signature, hdocumented, hsequence, htext⟩
    exact ⟨signature, parse?_eq_some_iff.mpr ⟨hdocumented.fits hsequence, htext⟩⟩

/-- An accepted text is derived unless it is loose. -/
theorem derives_iff_not_loose {text : String} {signature : Signature}
    (hparse : parse? text = some signature) :
    Derives .signature text.toList ↔ ¬ Loose text.toList := by
  obtain ⟨hfits, htext⟩ := parse?_eq_some_iff.mp hparse
  constructor
  · rintro hderives ⟨loose, hlooseFits, hloose, hwritten⟩
    obtain ⟨documented, hdocumented, hsame⟩ := derives_iff_exists_documented.mp hderives
    have hagain := parse?_eq_some_iff.mpr ⟨hlooseFits, hwritten⟩
    rw [← eq_of_documented hdocumented hsame hagain] at hloose
    exact hloose hdocumented
  · intro hloose
    refine derives_iff_exists_documented.mpr ⟨signature, ?_, htext⟩
    by_contra hdocumented
    exact hloose ⟨signature, hfits, hdocumented, htext⟩

/-- The reader accepts the derivable texts without shadowed type parameters and the loose ones, no
others, and adds nothing from a text that it does not accept.  So it follows the documented grammar
exactly on the texts that are neither loose nor shadowed. -/
theorem addMentioned_accepts (names : ClassNames) (text : String) :
    ((names.addMentioned text).1 = true ↔
      (Derives .signature text.toList ∧ ¬ Shadowed text.toList) ∨ Loose text.toList) ∧
    (((names.addMentioned text).1 = true ↔ Derives .signature text.toList) ↔
      ¬ Loose text.toList ∧ ¬ Shadowed text.toList) ∧
    (¬ Derives .signature text.toList → ¬ Loose text.toList →
      (names.addMentioned text).2 = names) ∧
    ((names.addMentioned text).1 = false → (names.addMentioned text).2 = names) := by
  have hunchanged : (¬ ∃ signature, parse? text = some signature) →
      (names.addMentioned text).2 = names := by
    intro hnone
    cases hparse : parse? text with
    | none => simp [ClassNames.addMentioned, hparse]
    | some signature => exact absurd ⟨signature, hparse⟩ hnone
  have hrejected : (names.addMentioned text).1 = false ↔ ¬ (names.addMentioned text).1 = true := by
    simp
  rw [hrejected, addMentioned_fst_iff]
  refine ⟨?_, ?_, ?_, hunchanged⟩
  · constructor
    · rintro ⟨signature, hparse⟩
      by_cases hloose : Loose text.toList
      · exact .inr hloose
      · have hderives := (derives_iff_not_loose hparse).mpr hloose
        exact .inl ⟨hderives, (exists_parse?_iff_not_shadowed hderives).mp ⟨signature, hparse⟩⟩
    · rintro (⟨hderives, hshadowed⟩ | ⟨signature, hfits, -, htext⟩)
      · exact (exists_parse?_iff_not_shadowed hderives).mpr hshadowed
      · exact ⟨signature, parse?_eq_some_iff.mpr ⟨hfits, htext⟩⟩
  · constructor
    · intro hagree
      constructor
      · intro hloose
        have ⟨signature, hfits, _, htext⟩ := hloose
        have hparse := parse?_eq_some_iff.mpr ⟨hfits, htext⟩
        exact (derives_iff_not_loose hparse).mp (hagree.mp ⟨signature, hparse⟩) hloose
      · intro hshadowed
        have ⟨signature, hdocumented, _, htext⟩ := hshadowed
        have hderives := derives_iff_exists_documented.mpr ⟨signature, hdocumented, htext⟩
        exact (exists_parse?_iff_not_shadowed hderives).mp (hagree.mpr hderives) hshadowed
    · rintro ⟨hloose, hshadowed⟩
      constructor
      · rintro ⟨signature, hparse⟩
        exact (derives_iff_not_loose hparse).mpr hloose
      · exact fun hderives => (exists_parse?_iff_not_shadowed hderives).mpr hshadowed
  · intro hderives hloose
    apply hunchanged
    rintro ⟨signature, hparse⟩
    exact hderives ((derives_iff_not_loose hparse).mpr hloose)

theorem not_derives_of_not_documented {text : String} {signature : Signature}
    (hparse : parse? text = some signature) (hloose : ¬ signature.Documented) :
    ¬ Derives .signature text.toList := by
  intro hderives
  obtain ⟨hfits, htext⟩ := parse?_eq_some_iff.mp hparse
  exact (derives_iff_not_loose hparse).mp hderives ⟨signature, hfits, hloose, htext⟩

/-- The reader departs from the grammar on four kinds of texts: where type arguments are missing
between their brackets, where they are repeated, where a type parameter is no identifier, and where
one is shadowed. -/
theorem departures :
    (((∅ : ClassNames).addMentioned "La<>;").1 = true ∧
      "a" ∈ ((∅ : ClassNames).addMentioned "La<>;").2 ∧
      ¬ Derives .signature "La<>;".toList) ∧
    (((∅ : ClassNames).addMentioned "La<*><*>;").1 = true ∧
      ¬ Derives .signature "La<*><*>;".toList) ∧
    (((∅ : ClassNames).addMentioned "<a.b:>V").1 = true ∧
      ¬ Derives .signature "<a.b:>V".toList) ∧
    (((∅ : ClassNames).addMentioned "<A:TB:>V").1 = false ∧
      Derives .signature "<A:TB:>V".toList) := by
  have hempty : parse? "La<>;" =
      some ⟨[], .types (.reference (.classType ['a'] [.arguments []])) []⟩ := by rfl
  have hrepeated : parse? "La<*><*>;" = some ⟨[], .types (.reference (.classType ['a']
      [.arguments [.any], .arguments [.any]])) []⟩ := by rfl
  have hparameter : parse? "<a.b:>V" = some ⟨[⟨['a', '.', 'b'], none, []⟩], .void⟩ := by rfl
  have hshadowed : parse? "<A:TB:>V" = none := by rfl
  have hderives : Derives .signature "<A:TB:>V".toList := by
    refine derives_iff_exists_documented.mpr
      ⟨⟨[⟨['A'], none, []⟩, ⟨['T', 'B'], none, []⟩], .void⟩, ?_, rfl⟩
    simp [Documented, Shape.Documented, TypeParameter.Documented, TypeParameter.bounds, IsName,
      identifierEnds]
  refine ⟨⟨?_, ?_, ?_⟩, ⟨?_, ?_⟩, ⟨?_, ?_⟩, ⟨?_, hderives⟩⟩
  · rw [ClassNames.addMentioned, hempty]
  · rw [ClassNames.addMentioned, hempty]
    simp [Signature.mentions, Shape.mentions, JavaType.mentions, Reference.mentions,
      Suffix.mentions, Argument.mentions]
  · apply not_derives_of_not_documented hempty
    simp [Documented, Shape.Documented, JavaType.Documented, Reference.Documented,
      Suffix.Documented]
  · rw [ClassNames.addMentioned, hrepeated]
  · apply not_derives_of_not_documented hrepeated
    simp [Documented, Shape.Documented, JavaType.Documented, Reference.Documented,
      Suffix.Documented]
  · rw [ClassNames.addMentioned, hparameter]
  · apply not_derives_of_not_documented hparameter
    simp [Documented, TypeParameter.Documented, IsName, identifierEnds]
  · rw [ClassNames.addMentioned, hshadowed]

end Signature

end ClassCensus
