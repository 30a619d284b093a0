import ClassCensus.Proofs.Signature.RoundTrip

/-!
# The documented grammar of signatures

The grammar that descriptors and signatures are documented by, as derivations of texts:

```text
Signature        := TypeParameters? ( MethodPart | JavaType+ | 'V' )
TypeParameters   := '<' ( Identifier ':' Reference? ( ':' Reference )* )+ '>'
MethodPart       := '(' JavaType* ')' ( JavaType | 'V' ) ( '^' Reference )*
JavaType         := 'B' | 'C' | 'D' | 'F' | 'I' | 'J' | 'S' | 'Z' | Reference
Reference        := ClassType | 'T' Identifier ';' | '[' JavaType
ClassType        := 'L' Name TypeArguments? ( '.' Identifier TypeArguments? )* ';'
TypeArguments    := '<' ( '*' | ( '+' | '-' )? Reference )+ '>'
```

The derivable texts are the written forms of the documented trees
(`Signature.derives_iff_exists_documented`), which lets the grammar be compared with the reader.
-/

namespace ClassCensus

namespace Signature

/-- The symbols that the grammar derives texts from; the last five name its bracketed groups. -/
inductive Symbol where
  | signature | typeParameters | methodPart | javaType | reference | classType | typeArguments
  | shape | result | typeParameter | innerPart | typeArgument

/-- The texts that the grammar derives from a symbol.  Parts that may be missing are given by an
option, and parts that may repeat by a list. -/
inductive Derives : Symbol → List Char → Prop where
  | signature (parameters : Option (List Char)) (text : List Char) :
    (∀ part ∈ parameters, Derives .typeParameters part) → Derives .shape text →
    Derives .signature (parameters.getD [] ++ text)
  | method (text : List Char) : Derives .methodPart text → Derives .shape text
  | types (parts : List (List Char)) : parts ≠ [] → (∀ part ∈ parts, Derives .javaType part) →
    Derives .shape parts.flatten
  | void : Derives .shape ['V']
  | typeParameters (parts : List (List Char)) : parts ≠ [] →
    (∀ part ∈ parts, Derives .typeParameter part) →
    Derives .typeParameters ('<' :: (parts.flatten ++ ['>']))
  | typeParameter (identifier : List Char) (bound : Option (List Char))
    (interfaces : List (List Char)) : IsName identifierEnds identifier →
    (∀ part ∈ bound, Derives .reference part) → (∀ part ∈ interfaces, Derives .reference part) →
    Derives .typeParameter
      (identifier ++ ':' :: (bound.getD [] ++ interfaces.flatMap fun part => ':' :: part))
  | methodPart (parameters : List (List Char)) (text : List Char) (throws : List (List Char)) :
    (∀ part ∈ parameters, Derives .javaType part) → Derives .result text →
    (∀ part ∈ throws, Derives .reference part) →
    Derives .methodPart ('(' :: (parameters.flatten ++ ')' ::
      (text ++ throws.flatMap fun part => '^' :: part)))
  | resultType (text : List Char) : Derives .javaType text → Derives .result text
  | resultVoid : Derives .result ['V']
  | primitive (c : Char) : c ∈ ['B', 'C', 'D', 'F', 'I', 'J', 'S', 'Z'] → Derives .javaType [c]
  | javaReference (text : List Char) : Derives .reference text → Derives .javaType text
  | classReference (text : List Char) : Derives .classType text → Derives .reference text
  | typeVariable (identifier : List Char) : IsName identifierEnds identifier →
    Derives .reference ('T' :: (identifier ++ [';']))
  | array (text : List Char) : Derives .javaType text → Derives .reference ('[' :: text)
  | classType (word : List Char) (arguments : Option (List Char)) (inners : List (List Char)) :
    IsName nameEnds word → (∀ part ∈ arguments, Derives .typeArguments part) →
    (∀ part ∈ inners, Derives .innerPart part) →
    Derives .classType ('L' :: (word ++ (arguments.getD [] ++ (inners.flatten ++ [';']))))
  | innerPart (identifier : List Char) (arguments : Option (List Char)) :
    IsName identifierEnds identifier → (∀ part ∈ arguments, Derives .typeArguments part) →
    Derives .innerPart ('.' :: (identifier ++ arguments.getD []))
  | typeArguments (parts : List (List Char)) : parts ≠ [] →
    (∀ part ∈ parts, Derives .typeArgument part) →
    Derives .typeArguments ('<' :: (parts.flatten ++ ['>']))
  | wildcard : Derives .typeArgument ['*']
  | upper (text : List Char) : Derives .reference text → Derives .typeArgument ('+' :: text)
  | lower (text : List Char) : Derives .reference text → Derives .typeArgument ('-' :: text)
  | plain (text : List Char) : Derives .reference text → Derives .typeArgument text

theorem mem_primitives_iff {c : Char} :
    c ∈ ['B', 'C', 'D', 'F', 'I', 'J', 'S', 'Z'] ↔
      ∃ primitive : Primitive, primitive.descriptor = c := by
  constructor
  · intro hc
    simp only [List.mem_cons, List.not_mem_nil, or_false] at hc
    rcases hc with rfl | rfl | rfl | rfl | rfl | rfl | rfl | rfl
    · exact ⟨.byte, rfl⟩
    · exact ⟨.char, rfl⟩
    · exact ⟨.double, rfl⟩
    · exact ⟨.float, rfl⟩
    · exact ⟨.int, rfl⟩
    · exact ⟨.long, rfl⟩
    · exact ⟨.short, rfl⟩
    · exact ⟨.boolean, rfl⟩
  · rintro ⟨primitive, rfl⟩
    cases primitive <;> simp [Primitive.descriptor]

/-! ## Documented trees are derived -/

mutual

theorem derives_reference : ∀ type : Reference, type.Documented → Derives .reference type.written
  | .classType word suffixes, hdocumented => by
      obtain ⟨hword, hsuffixes⟩ := hdocumented
      obtain ⟨arguments, inners, -, harguments, hinners, htext⟩ :=
        derives_suffixes suffixes true hsuffixes
      rw [Reference.written, htext]
      exact .classReference _ (.classType word arguments inners hword harguments hinners)
  | .variable word, hdocumented => .typeVariable word hdocumented
  | .array element, hdocumented =>
      .array _ (.javaReference _ (derives_reference element hdocumented))
  | .primitiveArray element, _ => .array _ (.primitive _ (mem_primitives_iff.mpr ⟨element, rfl⟩))

theorem derives_suffixes : ∀ (suffixes : List Suffix) (afterName : Bool),
    Suffix.Documented afterName suffixes →
      ∃ (arguments : Option (List Char)) (inners : List (List Char)),
        (afterName = false → arguments = none) ∧
        (∀ part ∈ arguments, Derives .typeArguments part) ∧
        (∀ part ∈ inners, Derives .innerPart part) ∧
        Suffix.written suffixes = arguments.getD [] ++ (inners.flatten ++ [';'])
  | [], _, _ => ⟨none, [], by simp, by simp, by simp, rfl⟩
  | .arguments found :: suffixes, afterName, hdocumented => by
      obtain ⟨rfl, hne, hfound, hsuffixes⟩ := hdocumented
      obtain ⟨arguments, inners, hnone, -, hinners, htext⟩ :=
        derives_suffixes suffixes false hsuffixes
      obtain ⟨parts, hparts, hlength, hwritten⟩ := derives_arguments found hfound
      have hpartsNe : parts ≠ [] := by
        rintro rfl
        exact hne (List.length_eq_zero_iff.mp hlength.symm)
      refine ⟨some ('<' :: (parts.flatten ++ ['>'])), inners, by simp, ?_, hinners, ?_⟩
      · rintro part ⟨⟩
        exact .typeArguments parts hpartsNe hparts
      · rw [hnone rfl] at htext
        simp [Suffix.written, hwritten, htext]
  | .inner word :: suffixes, afterName, hdocumented => by
      obtain ⟨hword, hsuffixes⟩ := hdocumented
      obtain ⟨arguments, inners, -, harguments, hinners, htext⟩ :=
        derives_suffixes suffixes true hsuffixes
      refine ⟨none, ('.' :: (word ++ arguments.getD [])) :: inners, by simp, by simp, ?_, ?_⟩
      · exact List.forall_mem_cons.mpr ⟨.innerPart word arguments hword harguments, hinners⟩
      · simp [Suffix.written, htext]

theorem derives_arguments : ∀ found : List Argument, Argument.Documented found →
    ∃ parts : List (List Char), (∀ part ∈ parts, Derives .typeArgument part) ∧
      parts.length = found.length ∧ Argument.written found = parts.flatten ++ ['>']
  | [], _ => ⟨[], by simp, rfl, rfl⟩
  | .any :: found, hdocumented => by
      obtain ⟨parts, hparts, hlength, htext⟩ := derives_arguments found hdocumented
      exact ⟨['*'] :: parts, List.forall_mem_cons.mpr ⟨.wildcard, hparts⟩, by simp [hlength],
        by simp [Argument.written, htext]⟩
  | .exact type :: found, hdocumented => by
      obtain ⟨parts, hparts, hlength, htext⟩ := derives_arguments found hdocumented.2
      have htype := derives_reference type hdocumented.1
      exact ⟨type.written :: parts, List.forall_mem_cons.mpr ⟨.plain _ htype, hparts⟩,
        by simp [hlength], by simp [Argument.written, htext]⟩
  | .upper bound :: found, hdocumented => by
      obtain ⟨parts, hparts, hlength, htext⟩ := derives_arguments found hdocumented.2
      have hbound := derives_reference bound hdocumented.1
      exact ⟨('+' :: bound.written) :: parts, List.forall_mem_cons.mpr ⟨.upper _ hbound, hparts⟩,
        by simp [hlength], by simp [Argument.written, htext]⟩
  | .lower bound :: found, hdocumented => by
      obtain ⟨parts, hparts, hlength, htext⟩ := derives_arguments found hdocumented.2
      have hbound := derives_reference bound hdocumented.1
      exact ⟨('-' :: bound.written) :: parts, List.forall_mem_cons.mpr ⟨.lower _ hbound, hparts⟩,
        by simp [hlength], by simp [Argument.written, htext]⟩

end

theorem derives_javaType {type : JavaType} (hdocumented : type.Documented) :
    Derives .javaType type.written := by
  cases type with
  | primitive primitive => exact .primitive _ (mem_primitives_iff.mpr ⟨primitive, rfl⟩)
  | reference type => exact .javaReference _ (derives_reference type hdocumented)

theorem derives_typeParameter {parameter : TypeParameter} (hdocumented : parameter.Documented) :
    Derives .typeParameter parameter.written := by
  obtain ⟨word, bound, interfaces⟩ := parameter
  obtain ⟨hword, hbounds⟩ := hdocumented
  simp only [TypeParameter.bounds, List.mem_append, Option.mem_toList] at hbounds
  have hbound : ∀ part ∈ bound.map Reference.written, Derives .reference part := by
    intro part hpart
    obtain ⟨type, htype, rfl⟩ := Option.map_eq_some_iff.mp hpart
    exact derives_reference type (hbounds type (.inl htype))
  have hinterfaces : ∀ part ∈ interfaces.map Reference.written, Derives .reference part :=
    List.forall_mem_map.mpr fun type htype => derives_reference type (hbounds type (.inr htype))
  have htext : (bound.map Reference.written).getD [] =
      bound.toList.flatMap Reference.written := by
    cases bound <;> simp
  have hderives := Derives.typeParameter word _ _ hword hbound hinterfaces
  rw [htext, List.flatMap_map] at hderives
  exact hderives

theorem derives_result {found : Option JavaType} (hdocumented : ∀ type ∈ found, type.Documented) :
    Derives .result (Shape.writtenResult found) := by
  cases found with
  | none => exact .resultVoid
  | some type => exact .resultType _ (derives_javaType (hdocumented type rfl))

theorem derives_shape {shape : Shape} (hdocumented : shape.Documented) :
    Derives .shape shape.written := by
  cases shape with
  | void => exact .void
  | types first others =>
      have hparts : ∀ part ∈ (first :: others).map JavaType.written, Derives .javaType part :=
        List.forall_mem_map.mpr fun type htype => derives_javaType (hdocumented type htype)
      rw [Shape.written, List.flatMap_def]
      exact .types _ (by simp) hparts
  | method parameters found throws =>
      obtain ⟨htypes, hthrows⟩ := hdocumented
      simp only [List.mem_append, Option.mem_toList] at htypes
      have hparameters : ∀ part ∈ parameters.map JavaType.written, Derives .javaType part :=
        List.forall_mem_map.mpr fun type htype => derives_javaType (htypes type (.inl htype))
      have hthrown : ∀ part ∈ throws.map Reference.written, Derives .reference part :=
        List.forall_mem_map.mpr fun type htype => derives_reference type (hthrows type htype)
      have hresult := derives_result fun type htype => htypes type (.inr htype)
      have hderives := Derives.methodPart _ _ _ hparameters hresult hthrown
      apply Derives.method
      rw [← List.flatMap_def, List.flatMap_map] at hderives
      exact hderives

/-- The written form of a documented tree is derived. -/
theorem derives_written {signature : Signature} (hdocumented : signature.Documented) :
    Derives .signature signature.written := by
  obtain ⟨parameters, shape⟩ := signature
  obtain ⟨hparameters, hshape⟩ := hdocumented
  cases parameters with
  | nil => exact .signature none _ (by simp) (derives_shape hshape)
  | cons parameter parameters =>
      have hparts : ∀ part ∈ (parameter :: parameters).map TypeParameter.written,
          Derives .typeParameter part :=
        List.forall_mem_map.mpr fun other hother =>
          derives_typeParameter (hparameters other hother)
      have hderives := Derives.typeParameters _ (by simp) hparts
      rw [← List.flatMap_def] at hderives
      exact .signature (some _) _ (by rintro part ⟨⟩; exact hderives) (derives_shape hshape)

/-! ## Derived texts have documented trees -/

/-- That a text derived from a symbol is the text of a documented tree.  The groups of the grammar
become lists of suffixes or arguments, whose texts are told by what they put in front of others. -/
def HasTree : Symbol → List Char → Prop
  | .signature, text => ∃ found : Signature, found.Documented ∧ found.written = text
  | .typeParameters, text => ∃ found, found ≠ [] ∧
    (∀ parameter ∈ found, parameter.Documented) ∧ writtenParameters found = text
  | .methodPart, text | .shape, text => ∃ found : Shape, found.Documented ∧ found.written = text
  | .result, text => ∃ found : Option JavaType, (∀ type ∈ found, type.Documented) ∧
    Shape.writtenResult found = text
  | .typeParameter, text => ∃ found : TypeParameter, found.Documented ∧ found.written = text
  | .javaType, text => ∃ found : JavaType, found.Documented ∧ found.written = text
  | .reference, text | .classType, text =>
    ∃ found : Reference, found.Documented ∧ found.written = text
  | .typeArguments, text => ∃ found, found ≠ [] ∧ Argument.Documented found ∧
    '<' :: Argument.written found = text
  | .innerPart, text => ∃ found : List Suffix, ∀ others, Suffix.Documented false others →
    (∀ afterName, Suffix.Documented afterName (found ++ others)) ∧
      Suffix.written (found ++ others) = text ++ Suffix.written others
  | .typeArgument, text => ∃ found : Argument, ∀ others, Argument.Documented others →
    Argument.Documented (found :: others) ∧
      Argument.written (found :: others) = text ++ Argument.written others

theorem exists_trees {α : Type} {fits : α → Prop} {write : α → List Char}
    {parts : List (List Char)} (htrees : ∀ part ∈ parts, ∃ tree, fits tree ∧ write tree = part) :
    ∃ trees : List α, (∀ tree ∈ trees, fits tree) ∧ trees.map write = parts := by
  induction parts with
  | nil => exact ⟨[], by simp⟩
  | cons part parts ih =>
      obtain ⟨tree, hfits, rfl⟩ := htrees part (by simp)
      obtain ⟨trees, hothers, rfl⟩ := ih fun other hother => htrees other (by simp [hother])
      exact ⟨tree :: trees, List.forall_mem_cons.mpr ⟨hfits, hothers⟩, rfl⟩

theorem exists_optional_tree {α : Type} {fits : α → Prop} {write : α → List Char}
    {part : Option (List Char)} (htree : ∀ text ∈ part, ∃ tree, fits tree ∧ write tree = text) :
    ∃ tree : Option α, (∀ found ∈ tree, fits found) ∧ tree.map write = part := by
  cases part with
  | none => exact ⟨none, by simp⟩
  | some text =>
      obtain ⟨tree, hfits, rfl⟩ := htree text rfl
      exact ⟨some tree, by simpa using hfits, rfl⟩

theorem documented_of_not_afterName {suffixes : List Suffix}
    (hdocumented : Suffix.Documented false suffixes) (afterName : Bool) :
    Suffix.Documented afterName suffixes := by
  match suffixes with
  | [] => trivial
  | .arguments found :: others => exact absurd hdocumented.1 (by simp)
  | .inner word :: others => exact hdocumented

/-- The arguments that may stand behind a name, in front of suffixes that are no arguments. -/
theorem exists_suffixes {arguments : Option (List Char)}
    (htree : ∀ part ∈ arguments, HasTree .typeArguments part) :
    ∃ found, ∀ others, Suffix.Documented false others →
      Suffix.Documented true (found ++ others) ∧
        Suffix.written (found ++ others) = arguments.getD [] ++ Suffix.written others := by
  cases arguments with
  | none => exact ⟨[], fun others hothers => ⟨documented_of_not_afterName hothers true, rfl⟩⟩
  | some part =>
      obtain ⟨found, hne, hfound, rfl⟩ := htree part rfl
      exact ⟨[.arguments found], fun others hothers =>
        ⟨⟨rfl, hne, hfound, hothers⟩, by simp [Suffix.written]⟩⟩

theorem exists_inner_suffixes {parts : List (List Char)}
    (htrees : ∀ part ∈ parts, HasTree .innerPart part) :
    ∃ found, Suffix.Documented false found ∧
      Suffix.written found = parts.flatten ++ [';'] := by
  induction parts with
  | nil => exact ⟨[], trivial, rfl⟩
  | cons part parts ih =>
      obtain ⟨first, hfirst⟩ := htrees part (by simp)
      obtain ⟨others, hothers, htext⟩ := ih fun other hother => htrees other (by simp [hother])
      obtain ⟨hdocumented, hwritten⟩ := hfirst others hothers
      exact ⟨first ++ others, hdocumented false, by simp [hwritten, htext]⟩

theorem exists_arguments {parts : List (List Char)}
    (htrees : ∀ part ∈ parts, HasTree .typeArgument part) :
    ∃ found, found.length = parts.length ∧ Argument.Documented found ∧
      Argument.written found = parts.flatten ++ ['>'] := by
  induction parts with
  | nil => exact ⟨[], rfl, trivial, rfl⟩
  | cons part parts ih =>
      obtain ⟨first, hfirst⟩ := htrees part (by simp)
      obtain ⟨others, hlength, hothers, htext⟩ :=
        ih fun other hother => htrees other (by simp [hother])
      obtain ⟨hdocumented, hwritten⟩ := hfirst others hothers
      exact ⟨first :: others, by simp [hlength], hdocumented, by simp [hwritten, htext]⟩

theorem hasTree_of_derives {symbol : Symbol} {text : List Char} (hderives : Derives symbol text) :
    HasTree symbol text := by
  induction hderives with
  | signature parameters text _ _ hparameters hshape =>
      obtain ⟨shape, hdocumented, rfl⟩ := hshape
      cases parameters with
      | none => exact ⟨⟨[], shape⟩, ⟨by simp, hdocumented⟩, rfl⟩
      | some part =>
          obtain ⟨found, -, hfound, rfl⟩ := hparameters part rfl
          exact ⟨⟨found, shape⟩, ⟨hfound, hdocumented⟩, rfl⟩
  | method text _ ih => exact ih
  | types parts hne _ ih =>
      obtain ⟨found, hfound, rfl⟩ := exists_trees ih
      obtain ⟨first, others, rfl⟩ := List.exists_cons_of_ne_nil (by simpa using hne)
      exact ⟨.types first others, hfound, by simp [Shape.written, List.flatMap_def]⟩
  | void => exact ⟨.void, trivial, rfl⟩
  | typeParameters parts hne _ ih =>
      obtain ⟨found, hfound, rfl⟩ := exists_trees ih
      obtain ⟨first, others, rfl⟩ := List.exists_cons_of_ne_nil (by simpa using hne)
      exact ⟨first :: others, by simp, hfound, by simp [writtenParameters, List.flatMap_def]⟩
  | typeParameter identifier bound interfaces hname _ _ hbound hinterfaces =>
      obtain ⟨bound, hboundDocumented, rfl⟩ := exists_optional_tree hbound
      obtain ⟨found, hfound, rfl⟩ := exists_trees hinterfaces
      refine ⟨⟨identifier, bound, found⟩, ⟨hname, ?_⟩, ?_⟩
      · intro type htype
        simp only [TypeParameter.bounds, List.mem_append, Option.mem_toList] at htype
        exact htype.elim (hboundDocumented type) (hfound type)
      · cases bound <;>
          simp [TypeParameter.written, TypeParameter.writtenInterfaces, List.flatMap_map]
  | methodPart parameters text throws _ _ _ hparameters hresult hthrows =>
      obtain ⟨parameters, hparametersDocumented, rfl⟩ := exists_trees hparameters
      obtain ⟨result, hresultDocumented, rfl⟩ := hresult
      obtain ⟨throws, hthrowsDocumented, rfl⟩ := exists_trees hthrows
      refine ⟨.method parameters result throws, ⟨?_, hthrowsDocumented⟩, ?_⟩
      · intro type htype
        simp only [List.mem_append, Option.mem_toList] at htype
        exact htype.elim (hparametersDocumented type) (hresultDocumented type)
      · simp [Shape.written, List.flatMap_def, Function.comp_def]
  | resultType text _ ih =>
      obtain ⟨type, hdocumented, rfl⟩ := ih
      exact ⟨some type, by simpa using hdocumented, rfl⟩
  | resultVoid => exact ⟨none, by simp, rfl⟩
  | primitive c hc =>
      obtain ⟨primitive, rfl⟩ := mem_primitives_iff.mp hc
      exact ⟨.primitive primitive, trivial, rfl⟩
  | javaReference text _ ih =>
      obtain ⟨type, hdocumented, rfl⟩ := ih
      exact ⟨.reference type, hdocumented, rfl⟩
  | classReference text _ ih => exact ih
  | typeVariable identifier hname => exact ⟨.variable identifier, hname, rfl⟩
  | array text _ ih =>
      obtain ⟨type, hdocumented, rfl⟩ := ih
      cases type with
      | primitive primitive => exact ⟨.primitiveArray primitive, trivial, rfl⟩
      | reference type => exact ⟨.array type, hdocumented, rfl⟩
  | classType word arguments inners hname _ _ harguments hinners =>
      obtain ⟨others, hothers, htext⟩ := exists_inner_suffixes hinners
      obtain ⟨found, hfound⟩ := exists_suffixes harguments
      obtain ⟨hdocumented, hwritten⟩ := hfound others hothers
      refine ⟨.classType word (found ++ others), ⟨hname, hdocumented⟩, ?_⟩
      rw [Reference.written, hwritten, htext]
  | innerPart identifier arguments hname _ harguments =>
      obtain ⟨found, hfound⟩ := exists_suffixes harguments
      refine ⟨.inner identifier :: found, fun others hothers => ?_⟩
      obtain ⟨hdocumented, hwritten⟩ := hfound others hothers
      exact ⟨fun _ => ⟨hname, hdocumented⟩, by simp [Suffix.written, hwritten]⟩
  | typeArguments parts hne _ ih =>
      obtain ⟨found, hlength, hdocumented, htext⟩ := exists_arguments ih
      have hfound : found ≠ [] := by
        rintro rfl
        exact hne (List.length_eq_zero_iff.mp hlength.symm)
      exact ⟨found, hfound, hdocumented, by rw [htext]⟩
  | wildcard => exact ⟨.any, fun others hothers => ⟨hothers, rfl⟩⟩
  | upper text _ ih =>
      obtain ⟨bound, hbound, rfl⟩ := ih
      exact ⟨.upper bound, fun others hothers => ⟨⟨hbound, hothers⟩, rfl⟩⟩
  | lower text _ ih =>
      obtain ⟨bound, hbound, rfl⟩ := ih
      exact ⟨.lower bound, fun others hothers => ⟨⟨hbound, hothers⟩, rfl⟩⟩
  | plain text _ ih =>
      obtain ⟨type, htype, rfl⟩ := ih
      exact ⟨.exact type, fun others hothers => ⟨⟨htype, hothers⟩, rfl⟩⟩

/-- The derivable texts are the written forms of the documented trees. -/
theorem derives_iff_exists_documented {text : List Char} :
    Derives .signature text ↔ ∃ signature : Signature,
      signature.Documented ∧ signature.written = text := by
  constructor
  · exact hasTree_of_derives
  · rintro ⟨signature, hdocumented, rfl⟩
    exact derives_written hdocumented

end Signature

end ClassCensus
