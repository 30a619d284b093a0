import ClassCensus.Proofs.Signature.RoundTrip
import ClassCensus.Signature.Mentions

/-!
# The classes taken from written signatures

Which classes a signature mentions, said without following the reader: a class type that occurs
anywhere in the tree names its class, and with each nested class behind it the names so far joined
by dollar signs.  `Signature.mentions` lists these names and no others, so reading the text of a
tree adds them and no others.
-/

namespace ClassCensus

/-! ## The class types of a tree -/

/-- The type in a type argument, if it is not the wildcard without bound. -/
def Argument.type? : Argument → Option Reference
  | .any => none
  | .exact type | .upper type | .lower type => some type

/-- That a reference occurs in another: it is the other one, or occurs in the element of an array
or in an argument of a class type. -/
inductive Reference.OccursIn : Reference → Reference → Prop where
  | here (type : Reference) : OccursIn type type
  | element {type element : Reference} : OccursIn type element → OccursIn type (.array element)
  | argument {type other : Reference} {name : List Char} {suffixes : List Suffix}
    {found : List Argument} {argument : Argument} : .arguments found ∈ suffixes →
    argument ∈ found → argument.type? = some other → OccursIn type other →
    OccursIn type (.classType name suffixes)

/-- The names of the nested classes behind the name of a class. -/
def Suffix.inners : List Suffix → List (List Char)
  | [] => []
  | .arguments _ :: suffixes => inners suffixes
  | .inner name :: suffixes => name :: inners suffixes

/-- A class and the classes that it is nested in, joined by dollar signs. -/
def nestedName (name : List Char) (inners : List (List Char)) : List Char :=
  name ++ inners.flatMap fun inner => '$' :: inner

/-- That a class type names a class: its own, or with some of the nested classes behind it, taken
from the front. -/
def Suffix.Names (name : List Char) (suffixes : List Suffix) (className : List Char) : Prop :=
  ∃ inners, inners <+: Suffix.inners suffixes ∧ className = nestedName name inners

/-- That a class is named by a class type that occurs in a reference. -/
def Reference.Names (type : Reference) (className : List Char) : Prop :=
  ∃ name suffixes, OccursIn (.classType name suffixes) type ∧
    Suffix.Names name suffixes className

def JavaType.reference? : JavaType → Option Reference
  | .primitive _ => none
  | .reference type => some type

/-- The references behind the type parameters. -/
def Shape.references : Shape → List Reference
  | .void => []
  | .types first others => (first :: others).filterMap JavaType.reference?
  | .method parameters result throws =>
    (parameters ++ result.toList).filterMap JavaType.reference? ++ throws

/-- The references of a signature: the bounds of its type parameters and what follows them. -/
def Signature.references (signature : Signature) : List Reference :=
  signature.parameters.flatMap TypeParameter.bounds ++ signature.shape.references

/-- That a class is named by a class type that occurs anywhere in a signature. -/
def Signature.Names (signature : Signature) (className : List Char) : Prop :=
  ∃ type ∈ signature.references, type.Names className

/-! ## They are the mentioned classes -/

theorem nestedName_cons (name inner : List Char) (inners : List (List Char)) :
    nestedName name (inner :: inners) = nestedName (name ++ '$' :: inner) inners := by
  simp [nestedName]

theorem Suffix.names_nil_iff {name className : List Char} :
    Names name [] className ↔ className = name := by
  simp [Names, inners, nestedName]

theorem Suffix.names_arguments_iff {name className : List Char} {found : List Argument}
    {suffixes : List Suffix} :
    Names name (.arguments found :: suffixes) className ↔ Names name suffixes className :=
  Iff.rfl

theorem Suffix.names_inner_iff {name innerName className : List Char} {suffixes : List Suffix} :
    Names name (.inner innerName :: suffixes) className ↔
      className = name ∨ Names (name ++ '$' :: innerName) suffixes className := by
  constructor
  · rintro ⟨taken, hprefix, rfl⟩
    cases taken with
    | nil => exact .inl (by simp [nestedName])
    | cons inner others =>
        obtain ⟨rfl, hothers⟩ := List.cons_prefix_cons.mp hprefix
        exact .inr ⟨others, hothers, nestedName_cons name inner others⟩
  · rintro (rfl | ⟨others, hothers, rfl⟩)
    · exact ⟨[], List.nil_prefix, by simp [nestedName]⟩
    · exact ⟨innerName :: others, List.cons_prefix_cons.mpr ⟨rfl, hothers⟩,
        (nestedName_cons name innerName others).symm⟩

theorem Suffix.mem_mentions_iff {className : List Char} :
    ∀ {name : List Char} {suffixes : List Suffix}, className ∈ mentions name suffixes ↔
      Names name suffixes className ∨
        ∃ found, .arguments found ∈ suffixes ∧ className ∈ Argument.mentions found
  | name, [] => by simp [mentions, names_nil_iff]
  | name, .arguments found :: suffixes => by
      rw [mentions, List.mem_append, mem_mentions_iff, names_arguments_iff]
      constructor
      · rintro (hfirst | hname | ⟨others, hothers, hmention⟩)
        · exact .inr ⟨found, by simp, hfirst⟩
        · exact .inl hname
        · exact .inr ⟨others, List.mem_cons_of_mem _ hothers, hmention⟩
      · rintro (hname | ⟨others, hothers, hmention⟩)
        · exact .inr (.inl hname)
        · rcases List.mem_cons.mp hothers with hfirst | hothers
          · cases hfirst
            exact .inl hmention
          · exact .inr (.inr ⟨others, hothers, hmention⟩)
  | name, .inner innerName :: suffixes => by
      rw [mentions, List.mem_cons, mem_mentions_iff, names_inner_iff, or_assoc]
      simp

theorem Argument.mem_mentions_iff {className : List Char} {found : List Argument} :
    className ∈ mentions found ↔
      ∃ argument ∈ found, ∃ type, argument.type? = some type ∧ className ∈ type.mentions := by
  induction found with
  | nil => simp [mentions]
  | cons argument found ih => cases argument <;> simp [mentions, type?, ih]

theorem Reference.mem_classType_mentions_iff {name className : List Char}
    {suffixes : List Suffix} :
    className ∈ (classType name suffixes).mentions ↔ Suffix.Names name suffixes className ∨
      ∃ found, .arguments found ∈ suffixes ∧ ∃ argument ∈ found,
        ∃ type, argument.type? = some type ∧ className ∈ type.mentions := by
  simp only [mentions, Suffix.mem_mentions_iff, Argument.mem_mentions_iff]

theorem Suffix.sizeOf_lt_of_argument {suffixes : List Suffix} {found : List Argument}
    {argument : Argument} {type : Reference} (hsuffix : .arguments found ∈ suffixes)
    (hargument : argument ∈ found) (htype : argument.type? = some type) :
    sizeOf type < sizeOf suffixes := by
  have hfound := List.sizeOf_lt_of_mem hsuffix
  have hinner := List.sizeOf_lt_of_mem hargument
  have hleaf : sizeOf type < sizeOf argument := by
    cases argument <;> simp_all [Argument.type?]
  simp only [Suffix.arguments.sizeOf_spec] at hfound
  omega

/-- What a reference mentions is named by a class type that occurs in it. -/
theorem Reference.names_of_mem_mentions {className : List Char} :
    ∀ {type : Reference}, className ∈ type.mentions → type.Names className
  | .classType name suffixes, hmention => by
      rcases mem_classType_mentions_iff.mp hmention with hnames | ⟨found, hsuffix, hrest⟩
      · exact ⟨name, suffixes, .here _, hnames⟩
      · obtain ⟨argument, hargument, type, htype, hmention⟩ := hrest
        have _hless := Suffix.sizeOf_lt_of_argument hsuffix hargument htype
        obtain ⟨innerName, innerSuffixes, hoccurs, hnames⟩ := names_of_mem_mentions hmention
        exact ⟨innerName, innerSuffixes, .argument hsuffix hargument htype hoccurs, hnames⟩
  | .variable name, hmention => by simp [mentions] at hmention
  | .array element, hmention => by
      obtain ⟨name, suffixes, hoccurs, hnames⟩ := @names_of_mem_mentions _ element hmention
      exact ⟨name, suffixes, .element hoccurs, hnames⟩
  | .primitiveArray element, hmention => by simp [mentions] at hmention
termination_by type => sizeOf type

/-- A reference mentions whatever is mentioned by one that occurs in it. -/
theorem Reference.OccursIn.mem_mentions {type other : Reference} (hoccurs : OccursIn type other)
    {className : List Char} (hmention : className ∈ type.mentions) :
    className ∈ other.mentions := by
  induction hoccurs with
  | here => exact hmention
  | element _ ih => exact ih
  | argument hsuffix hargument htype _ ih =>
      exact mem_classType_mentions_iff.mpr (.inr ⟨_, hsuffix, _, hargument, _, htype, ih⟩)

theorem Reference.mem_mentions_iff {type : Reference} {className : List Char} :
    className ∈ type.mentions ↔ type.Names className := by
  constructor
  · exact names_of_mem_mentions
  · rintro ⟨name, suffixes, hoccurs, hnames⟩
    exact hoccurs.mem_mentions (mem_classType_mentions_iff.mpr (.inl hnames))

theorem JavaType.mentions_eq (type : JavaType) :
    type.mentions = type.reference?.toList.flatMap Reference.mentions := by
  cases type <;> simp [mentions, reference?]

theorem flatMap_javaType_mentions (types : List JavaType) :
    types.flatMap JavaType.mentions =
      (types.filterMap JavaType.reference?).flatMap Reference.mentions := by
  induction types with
  | nil => rfl
  | cons type types ih =>
      rw [List.flatMap_cons, ih, JavaType.mentions_eq]
      cases type <;> simp [JavaType.reference?, List.filterMap_cons]

theorem Shape.mentions_eq (shape : Shape) :
    shape.mentions = shape.references.flatMap Reference.mentions := by
  cases shape with
  | void => rfl
  | types first others => exact flatMap_javaType_mentions (first :: others)
  | method parameters result throws =>
      rw [mentions, references, flatMap_javaType_mentions, List.flatMap_append]

theorem Signature.mentions_eq (signature : Signature) :
    signature.mentions = signature.references.flatMap Reference.mentions := by
  rw [mentions, references, List.flatMap_append, Shape.mentions_eq, List.flatMap_assoc]
  rfl

/-- A signature mentions the classes that its class types name, and no others. -/
theorem Signature.mem_mentions_iff {signature : Signature} {className : List Char} :
    className ∈ signature.mentions ↔ signature.Names className := by
  simp only [mentions_eq, List.mem_flatMap, Reference.mem_mentions_iff, Names]

/-! ## Reading written signatures -/

theorem ClassNames.mem_addMentioned {names : ClassNames} {text name : String} :
    name ∈ (names.addMentioned text).2 ↔ name ∈ names ∨ name ∈ mentionedClasses text := by
  cases hparse : Signature.parse? text <;> simp [addMentioned, mentionedClasses, hparse]

/-- Type parameters with bounds do not hide those behind them; the last one may lack a bound. -/
theorem TypeParameter.sequence_of_bounds_ne_nil : ∀ {parameters : List TypeParameter},
    (∀ parameter ∈ parameters.dropLast, parameter.bounds ≠ []) → Sequence parameters
  | [], _ => trivial
  | [_], _ => trivial
  | first :: next :: others, hbounds => by
      rw [List.dropLast_cons_cons] at hbounds
      have hfirst := hbounds first (by simp)
      refine ⟨fun hnone => absurd hnone hfirst, sequence_of_bounds_ne_nil ?_⟩
      exact fun parameter hparameter => hbounds parameter (List.mem_cons_of_mem _ hparameter)

/-- The text of a signature adds the classes that its class types name, and no others. -/
theorem Signature.addMentioned_written {signature : Signature}
    (hparameters : ∀ parameter ∈ signature.parameters, parameter.Fits)
    (hbounds : ∀ parameter ∈ signature.parameters.dropLast, parameter.bounds ≠ [])
    (hshape : signature.shape.Fits) (names : ClassNames) :
    (names.addMentioned (String.ofList signature.written)).1 = true ∧
    ∀ name, name ∈ (names.addMentioned (String.ofList signature.written)).2 ↔
      name ∈ names ∨ signature.Names name.toList := by
  have hfits : signature.Fits :=
    ⟨hparameters, TypeParameter.sequence_of_bounds_ne_nil hbounds, hshape⟩
  have hparse : parse? (String.ofList signature.written) = some signature :=
    parse?_eq_some_iff.mpr ⟨hfits, by simp⟩
  rw [ClassNames.addMentioned, hparse]
  refine ⟨rfl, fun name => ?_⟩
  rw [ClassNames.mem_union, ClassNames.mem_ofList, List.mem_map, ← mem_mentions_iff]
  constructor
  · rintro (hmem | ⟨className, hmention, rfl⟩)
    · exact .inl hmem
    · exact .inr (by simpa using hmention)
  · rintro (hmem | hmention)
    · exact .inl hmem
    · exact .inr ⟨name.toList, hmention, by simp⟩

/-- The first type parameter is bounded by a nested class of a generic one, the last by nothing. -/
theorem Signature.addMentioned_written_nested :
    ∃ signature : Signature, String.ofList signature.written = "<A:Lp/M<Lk;*>.E;B:>(I)V" ∧
      (∀ parameter ∈ signature.parameters, parameter.Fits) ∧
      (∀ parameter ∈ signature.parameters.dropLast, parameter.bounds ≠ []) ∧
      signature.shape.Fits ∧
      ((∅ : ClassNames).addMentioned (String.ofList signature.written)).1 = true ∧
      ∀ name, name ∈ ((∅ : ClassNames).addMentioned (String.ofList signature.written)).2 ↔
        name ∈ (∅ : ClassNames) ∨ signature.Names name.toList := by
  let bound : Reference := .classType ['p', '/', 'M']
    [.arguments [.exact (.classType ['k'] []), .any], .inner ['E']]
  let signature : Signature :=
    ⟨[⟨['A'], some bound, []⟩, ⟨['B'], none, []⟩], .method [.primitive .int] none []⟩
  have hparameters : ∀ parameter ∈ signature.parameters, parameter.Fits := by
    simp [signature, bound, TypeParameter.Fits, TypeParameter.bounds, Reference.Fits, Suffix.Fits,
      Argument.Fits, IsName, parameterEnds, nameEnds, identifierEnds]
  have hbounds : ∀ parameter ∈ signature.parameters.dropLast, parameter.bounds ≠ [] := by
    simp [signature, TypeParameter.bounds]
  have hshape : signature.shape.Fits := by
    simp [signature, Shape.Fits, JavaType.Fits]
  exact ⟨signature, rfl, hparameters, hbounds, hshape,
    Signature.addMentioned_written hparameters hbounds hshape ∅⟩

example : mentionedClasses "<A:Lp/M<Lk;*>.E;B:>(I)V" = ["k", "p/M", "p/M$E"] := by rfl

end ClassCensus
