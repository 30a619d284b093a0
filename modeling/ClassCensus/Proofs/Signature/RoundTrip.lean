import ClassCensus.Proofs.Signature.Reading

/-!
# Written signatures read back

Signatures are rows of types, bounds and type parameters.  A row is read greedily, so each part
needs a character behind it that starts no further part; for type parameters this is what
`TypeParameter.Sequence` asks for.

The main result is `Signature.parse?_eq_some_iff`: a text is read as a tree exactly if the tree
fits and the text is its written form.
-/

namespace ClassCensus

namespace Signature

/-! ## Values in a row -/

theorem length_written_le_of_mem {α : Type} (write : α → List Char) {values : List α} {value : α}
    (hmem : value ∈ values) : (write value).length ≤ (values.flatMap write).length := by
  rw [List.flatMap_def]
  exact (List.sublist_flatten_of_mem (List.mem_map_of_mem hmem)).length_le

theorem length_le_length_flatMap {α : Type} {write : α → List Char} {values : List α}
    (hpos : ∀ value ∈ values, 0 < (write value).length) :
    values.length ≤ (values.flatMap write).length := by
  induction values with
  | nil => simp
  | cons value values ih =>
      have hfirst := hpos value (by simp)
      have hothers := ih fun other hother => hpos other (by simp [hother])
      simp only [List.flatMap_cons, List.length_append, List.length_cons]
      omega

/-- All of the values in a row are read if each of them is and none can be read behind them. -/
theorem many_flatMap {α : Type} {reader : Reader α} {write : α → List Char} {values : List α}
    {rest : List Char} (hread : ∀ value ∈ values, ∀ rest,
      reader (write value ++ rest) = some (value, rest)) (hstop : reader rest = none)
    {limit : Nat} (hlimit : values.length ≤ limit) (before : List α) :
    many reader limit before (values.flatMap write ++ rest) =
      (before.reverse ++ values, rest) := by
  induction values generalizing limit before with
  | nil => cases limit <;> simp [many, hstop]
  | cons value values ih =>
      obtain ⟨limit, rfl⟩ : ∃ more, limit = more + 1 := ⟨limit - 1, by simp at hlimit; omega⟩
      have hothers := ih (fun other hother => hread other (by simp [hother]))
        (by simpa using hlimit) (value :: before)
      simp [many, hread, hothers]

/-- What is read in a row is a row of values, and nothing of the text is lost. -/
theorem many_eq {α : Type} {reader : Reader α} (write : α → List Char) {fits : α → Prop}
    (hread : ∀ {text value rest}, reader text = some (value, rest) →
      fits value ∧ text = write value ++ rest) {limit : Nat} {before found : List α}
    {text rest : List Char} (hmany : many reader limit before text = (found, rest)) :
    ∃ values, found = before.reverse ++ values ∧ (∀ value ∈ values, fits value) ∧
      text = values.flatMap write ++ rest := by
  induction limit generalizing before text with
  | zero =>
      simp only [many, Prod.mk.injEq] at hmany
      obtain ⟨rfl, rfl⟩ := hmany
      exact ⟨[], by simp⟩
  | succ limit ih =>
      simp only [many] at hmany
      split at hmany
      next value afterValue hvalue =>
        obtain ⟨hfits, rfl⟩ := hread hvalue
        obtain ⟨values, rfl, hvalues, rfl⟩ := ih hmany
        exact ⟨value :: values, by simp, by simpa using ⟨hfits, hvalues⟩, by simp⟩
      next =>
        simp only [Prod.mk.injEq] at hmany
        obtain ⟨rfl, rfl⟩ := hmany
        exact ⟨[], by simp⟩

/-! ## Types of values -/

theorem javaType_written (budget : Nat) {type : JavaType} (hfits : type.Fits)
    (hbudget : 2 * type.written.length ≤ budget) (rest : List Char) :
    javaType budget (type.written ++ rest) = some (type, rest) := by
  cases type with
  | primitive primitive => simp [JavaType.written, javaType, Primitive.ofDescriptor?_descriptor]
  | reference type =>
      obtain ⟨c, hc, text, htext⟩ := type.exists_written_eq_cons
      have hread := reference_written type budget rest hfits hbudget
      rw [htext, List.cons_append] at hread
      simp [JavaType.written, htext, javaType,
        Primitive.ofDescriptor?_eq_none_of_mem_starts hc, hread]

theorem javaType_eq_some {budget : Nat} {text rest : List Char} {type : JavaType}
    (hread : javaType budget text = some (type, rest)) :
    type.Fits ∧ text = type.written ++ rest := by
  simp only [javaType] at hread
  split at hread
  · cases hread
  split at hread
  next primitive hprimitive =>
    simp only [Option.some.injEq, Prod.mk.injEq] at hread
    obtain ⟨rfl, rfl⟩ := hread
    rw [Primitive.ofDescriptor?_eq_some_iff] at hprimitive
    subst hprimitive
    exact ⟨trivial, rfl⟩
  next =>
    simp only [Option.bind_eq_bind, Option.bind_eq_some_iff, Prod.exists, Option.some.injEq,
      Prod.mk.injEq] at hread
    obtain ⟨found, afterFound, hfound, rfl, rfl⟩ := hread
    exact (faithful budget).reference hfound

theorem javaType_parenthesis (budget : Nat) (rest : List Char) :
    javaType budget (')' :: rest) = none := by
  have hread : reference budget (')' :: rest) = none :=
    reference_eq_none_of_head_not_mem (by simp [Reference.starts])
  simp [javaType, hread, Primitive.ofDescriptor?, Primitive.all, Primitive.descriptor]

theorem marked_written (budget : Nat) {mark : Char} {type : Reference} (hfits : type.Fits)
    (hbudget : 2 * type.written.length ≤ budget) (rest : List Char) :
    marked mark budget (mark :: type.written ++ rest) = some (type, rest) := by
  simpa [marked] using reference_written type budget rest hfits hbudget

theorem marked_eq_some {mark : Char} {budget : Nat} {text rest : List Char} {type : Reference}
    (hread : marked mark budget text = some (type, rest)) :
    type.Fits ∧ text = mark :: type.written ++ rest := by
  match text with
  | [] => simp [marked] at hread
  | first :: text =>
      by_cases hfirst : first = mark
      · subst hfirst
        obtain ⟨hfits, rfl⟩ := (faithful budget).reference (by simpa [marked] using hread)
        exact ⟨hfits, rfl⟩
      · simp [marked, hfirst] at hread

/-! ## Type parameters -/

theorem interfaceBounds_written (budget : Nat) {bounds : List Reference}
    (hfits : ∀ bound ∈ bounds, bound.Fits)
    (hbudget : 2 * (TypeParameter.writtenInterfaces bounds).length ≤ budget) {rest : List Char}
    (hrest : rest.head? ≠ some ':') {limit : Nat} (hlimit : bounds.length < limit)
    (before : List Reference) :
    interfaceBounds budget limit before (TypeParameter.writtenInterfaces bounds ++ rest) =
      some (before.reverse ++ bounds, rest) := by
  induction bounds generalizing limit before with
  | nil =>
      obtain ⟨limit, rfl⟩ : ∃ less, limit = less + 1 := ⟨limit - 1, by omega⟩
      cases rest with
      | nil => simp [interfaceBounds, TypeParameter.writtenInterfaces]
      | cons c rest =>
          have hc : c ≠ ':' := by simpa using hrest
          simp [interfaceBounds, TypeParameter.writtenInterfaces, hc]
  | cons bound bounds ih =>
      obtain ⟨limit, rfl⟩ : ∃ less, limit = less + 1 := ⟨limit - 1, by omega⟩
      rw [TypeParameter.writtenInterfaces, List.flatMap_cons,
        ← TypeParameter.writtenInterfaces] at hbudget ⊢
      simp only [List.length_append, List.length_cons] at hbudget hlimit
      have hfirst := reference_written bound budget
        (TypeParameter.writtenInterfaces bounds ++ rest) (hfits bound (by simp)) (by omega)
      have hothers := ih (fun other hother => hfits other (by simp [hother])) (by omega)
        (by omega : bounds.length < limit) (bound :: before)
      simp [interfaceBounds, hfirst, hothers]

theorem interfaceBounds_eq_some {budget limit : Nat} {before found : List Reference}
    {text rest : List Char}
    (hread : interfaceBounds budget limit before text = some (found, rest)) :
    ∃ bounds, found = before.reverse ++ bounds ∧ (∀ bound ∈ bounds, bound.Fits) ∧
      text = TypeParameter.writtenInterfaces bounds ++ rest ∧ rest.head? ≠ some ':' := by
  induction limit generalizing before text with
  | zero => simp [interfaceBounds] at hread
  | succ limit ih =>
      simp only [interfaceBounds] at hread
      split at hread
      next text =>
        simp only [Option.bind_eq_bind, Option.bind_eq_some_iff, Prod.exists] at hread
        obtain ⟨bound, afterBound, hbound, hread⟩ := hread
        obtain ⟨hfits, rfl⟩ := (faithful budget).reference hbound
        obtain ⟨bounds, rfl, hbounds, rfl, hhead⟩ := ih hread
        exact ⟨bound :: bounds, by simp, by simpa using ⟨hfits, hbounds⟩,
          by simp [TypeParameter.writtenInterfaces], hhead⟩
      next hhead =>
        simp only [Option.some.injEq, Prod.mk.injEq] at hread
        obtain ⟨rfl, rfl⟩ := hread
        refine ⟨[], by simp, by simp, by simp [TypeParameter.writtenInterfaces], ?_⟩
        intro hcolon
        obtain ⟨others, hothers⟩ := List.head?_eq_some_iff.mp hcolon
        exact hhead others hothers

/-- Whether the text behind a type parameter is taken neither for a bound of it nor for a part of
one. -/
def Separates (parameter : TypeParameter) (rest : List Char) : Prop :=
  rest.head? ≠ some ':' ∧ (parameter.bounds = [] → ∀ c ∈ rest.head?, c ∉ Reference.starts)

theorem classBound_of_mem_starts {c : Char} (hc : c ∈ Reference.starts) (budget : Nat)
    (text : List Char) :
    classBound budget (c :: text) =
      (reference budget (c :: text)).bind fun found => some (some found.1, found.2) := by
  simp only [Reference.starts, List.mem_cons, List.not_mem_nil, or_false] at hc
  rcases hc with rfl | rfl | rfl <;> rfl

theorem classBound_of_head_not_mem {text : List Char}
    (hhead : ∀ c ∈ text.head?, c ∉ Reference.starts) (budget : Nat) :
    classBound budget text = some (none, text) := by
  cases text with
  | nil => rfl
  | cons c text =>
      have hc : c ∉ Reference.starts := hhead c (by simp)
      simp only [Reference.starts, List.mem_cons, List.not_mem_nil, or_false, not_or] at hc
      simp only [classBound]
      split <;> simp_all

theorem classBound_written (budget : Nat) {bound : Option Reference}
    (hfits : ∀ type ∈ bound, type.Fits)
    (hbudget : 2 * (bound.toList.flatMap Reference.written).length ≤ budget) {rest : List Char}
    (hrest : bound = none → ∀ c ∈ rest.head?, c ∉ Reference.starts) :
    classBound budget (bound.toList.flatMap Reference.written ++ rest) = some (bound, rest) := by
  cases bound with
  | none => exact classBound_of_head_not_mem (hrest rfl) budget
  | some type =>
      have hread := reference_written type budget rest (hfits type rfl) (by simpa using hbudget)
      obtain ⟨c, hc, text, htext⟩ := type.exists_written_eq_cons
      rw [htext, List.cons_append] at hread
      simp [htext, classBound_of_mem_starts hc, hread]

theorem classBound_eq_some {budget : Nat} {text rest : List Char} {bound : Option Reference}
    (hread : classBound budget text = some (bound, rest)) :
    (∀ type ∈ bound, type.Fits) ∧ text = bound.toList.flatMap Reference.written ++ rest ∧
      (bound = none → ∀ c ∈ rest.head?, c ∉ Reference.starts) := by
  by_cases hhead : ∀ c ∈ text.head?, c ∉ Reference.starts
  · rw [classBound_of_head_not_mem hhead] at hread
    simp only [Option.some.injEq, Prod.mk.injEq] at hread
    obtain ⟨rfl, rfl⟩ := hread
    exact ⟨by simp, by simp, fun _ => hhead⟩
  · obtain ⟨c, hc, hstart⟩ : ∃ c ∈ text.head?, c ∈ Reference.starts := by
      simpa using hhead
    obtain ⟨others, rfl⟩ := List.head?_eq_some_iff.mp hc
    rw [classBound_of_mem_starts hstart] at hread
    simp only [Option.bind_eq_some_iff, Prod.exists, Option.some.injEq, Prod.mk.injEq] at hread
    obtain ⟨type, afterType, htype, rfl, rfl⟩ := hread
    obtain ⟨hfits, htext⟩ := (faithful budget).reference htype
    exact ⟨by simpa using hfits, by simpa using htext, by simp⟩

theorem typeParameter_written (budget : Nat) {parameter : TypeParameter}
    (hfits : parameter.Fits) (hbudget : 2 * parameter.written.length ≤ budget) {rest : List Char}
    (hrest : Separates parameter rest) :
    typeParameter budget (parameter.written ++ rest) = some (parameter, rest) := by
  obtain ⟨word, bound, interfaces⟩ := parameter
  obtain ⟨hword, hbounds⟩ := hfits
  obtain ⟨hcolon, hstart⟩ := hrest
  simp only [TypeParameter.bounds, List.mem_append, Option.mem_toList] at hbounds
  simp only [TypeParameter.written, List.length_append, List.length_cons] at hbudget
  have hname : name parameterEnds (word ++ ':' :: (bound.toList.flatMap Reference.written ++
        (TypeParameter.writtenInterfaces interfaces ++ rest))) =
      some (word, ':' :: (bound.toList.flatMap Reference.written ++
        (TypeParameter.writtenInterfaces interfaces ++ rest))) :=
    name_append hword (by simp [parameterEnds])
  have hbound : classBound budget (bound.toList.flatMap Reference.written ++
        (TypeParameter.writtenInterfaces interfaces ++ rest)) =
      some (bound, TypeParameter.writtenInterfaces interfaces ++ rest) := by
    refine classBound_written budget (fun type htype => hbounds type (.inl htype)) (by omega) ?_
    intro hnone
    -- Behind a missing class bound stands the colon of an interface or what follows them all.
    cases interfaces with
    | nil => exact hstart (by simp [TypeParameter.bounds, hnone])
    | cons type others => simp [TypeParameter.writtenInterfaces, Reference.starts]
  have hinterfaces : interfaceBounds budget
        ((TypeParameter.writtenInterfaces interfaces ++ rest).length + 1) []
        (TypeParameter.writtenInterfaces interfaces ++ rest) = some (interfaces, rest) := by
    have hlength : interfaces.length ≤ (TypeParameter.writtenInterfaces interfaces).length :=
      length_le_length_flatMap (by simp)
    exact interfaceBounds_written budget (fun type htype => hbounds type (.inr htype)) (by omega)
      hcolon (by simp only [List.length_append]; omega) []
  rw [List.length_append] at hinterfaces
  simp [TypeParameter.written, typeParameter, hname, hbound, hinterfaces]

theorem typeParameter_eq_some {budget : Nat} {text rest : List Char} {parameter : TypeParameter}
    (hread : typeParameter budget text = some (parameter, rest)) :
    parameter.Fits ∧ text = parameter.written ++ rest ∧ Separates parameter rest := by
  simp only [typeParameter, Option.bind_eq_bind, Option.bind_eq_some_iff, Prod.exists] at hread
  obtain ⟨word, afterName, hname, hread⟩ := hread
  obtain ⟨hword, rfl⟩ := name_eq_some hname
  split at hread
  next text =>
    simp only [Option.bind_eq_some_iff, Prod.exists, Option.some.injEq, Prod.mk.injEq] at hread
    obtain ⟨bound, afterBound, hbound, interfaces, afterInterfaces, hinterfaces, rfl, rfl⟩ := hread
    obtain ⟨hfits, rfl, hstart⟩ := classBound_eq_some hbound
    obtain ⟨_, rfl, hothers, rfl, hcolon⟩ := interfaceBounds_eq_some hinterfaces
    refine ⟨⟨hword, ?_⟩, by simp [TypeParameter.written], hcolon, ?_⟩
    · intro type htype
      simp only [TypeParameter.bounds, List.mem_append, Option.mem_toList] at htype
      exact htype.elim (hfits type) (hothers type)
    · intro hnone
      simp only [TypeParameter.bounds, List.append_eq_nil_iff, Option.toList_eq_nil_iff] at hnone
      obtain ⟨rfl, hnil⟩ := hnone
      subst hnil
      exact hstart rfl
  next => cases hread

theorem head?_typeParameter_written {parameter : TypeParameter} (hfits : parameter.Fits)
    (rest : List Char) : (parameter.written ++ rest).head? = parameter.name.head? := by
  obtain ⟨c, word, hword⟩ := List.exists_cons_of_ne_nil hfits.1.1
  simp [TypeParameter.written, hword]

theorem head?_written_ne_close {parameter : TypeParameter} (hfits : parameter.Fits)
    (rest : List Char) : (parameter.written ++ rest).head? ≠ some '>' := by
  rw [head?_typeParameter_written hfits]
  intro hclose
  have hmem : '>' ∈ parameter.name := List.mem_of_mem_head? (by rw [hclose]; rfl)
  exact hfits.1.2 _ hmem (by simp [parameterEnds])

/-- Behind a type parameter that another can follow, the text of that other one is no bound. -/
theorem separates_written {parameter next : TypeParameter} (hfollow : parameter.CanFollow next)
    (hfits : next.Fits) (rest : List Char) : Separates parameter (next.written ++ rest) := by
  rw [Separates, head?_typeParameter_written hfits]
  constructor
  · intro hcolon
    have hmem : ':' ∈ next.name := List.mem_of_mem_head? (by rw [hcolon]; rfl)
    exact hfits.1.2 _ hmem (by simp [parameterEnds])
  · intro hnone c hc hstart
    apply hfollow hnone
    rw [Option.mem_def.mp hc]
    simpa [Reference.starts] using hstart

theorem typeParameters_of_some {budget limit : Nat} {before : List TypeParameter}
    {text rest : List Char} {parameter : TypeParameter} (hhead : rest.head? ≠ some '>')
    (hread : typeParameter budget text = some (parameter, rest)) :
    typeParameters budget (limit + 1) before text =
      typeParameters budget limit (parameter :: before) rest := by
  simp only [typeParameters, hread, Option.bind_eq_bind, Option.bind_some]
  split
  · simp at hhead
  · rfl

theorem typeParameters_written (budget : Nat) {parameters : List TypeParameter}
    (hne : parameters ≠ [])
    (hfits : ∀ parameter ∈ parameters, parameter.Fits)
    (hsequence : TypeParameter.Sequence parameters)
    (hbudget : 2 * (parameters.flatMap TypeParameter.written).length ≤ budget) {limit : Nat}
    (hlimit : parameters.length ≤ limit) (before : List TypeParameter) (rest : List Char) :
    typeParameters budget limit before
        (parameters.flatMap TypeParameter.written ++ '>' :: rest) =
      some (before.reverse ++ parameters, rest) := by
  induction parameters generalizing limit before with
  | nil => exact absurd rfl hne
  | cons parameter parameters ih =>
      obtain ⟨limit, rfl⟩ : ∃ less, limit = less + 1 := ⟨limit - 1, by simp at hlimit; omega⟩
      simp only [List.flatMap_cons, List.length_append, List.length_cons] at hbudget hlimit
      have hparameter := hfits parameter (by simp)
      cases parameters with
      | nil =>
          have hseparates : Separates parameter ('>' :: rest) :=
            ⟨by simp, by simp [Reference.starts]⟩
          have hfirst := typeParameter_written budget hparameter (by omega) hseparates
          simp [typeParameters, hfirst]
      | cons next others =>
          obtain ⟨hfollow, hsequence⟩ := hsequence
          have hnext := hfits next (by simp)
          have htext : (next :: others).flatMap TypeParameter.written ++ '>' :: rest =
              next.written ++ (others.flatMap TypeParameter.written ++ '>' :: rest) := by simp
          have hseparates := separates_written hfollow hnext
            (others.flatMap TypeParameter.written ++ '>' :: rest)
          have hfirst := typeParameter_written budget hparameter (by omega) hseparates
          have hothers := @ih (by simp) (fun other hother => hfits other (by simp [hother]))
            hsequence (by omega) limit (by simpa using hlimit) (parameter :: before)
          have hhead := head?_written_ne_close hnext
            (others.flatMap TypeParameter.written ++ '>' :: rest)
          rw [List.flatMap_cons, List.append_assoc, htext, typeParameters_of_some hhead hfirst,
            ← htext, hothers]
          simp

theorem typeParameters_eq_some {budget limit : Nat} {before found : List TypeParameter}
    {text rest : List Char}
    (hread : typeParameters budget limit before text = some (found, rest)) :
    ∃ parameters, found = before.reverse ++ parameters ∧ parameters ≠ [] ∧
      (∀ parameter ∈ parameters, parameter.Fits) ∧ TypeParameter.Sequence parameters ∧
      text = parameters.flatMap TypeParameter.written ++ '>' :: rest := by
  induction limit generalizing before text with
  | zero => simp [typeParameters] at hread
  | succ limit ih =>
      simp only [typeParameters, Option.bind_eq_bind, Option.bind_eq_some_iff,
        Prod.exists] at hread
      obtain ⟨parameter, afterParameter, hparameter, hread⟩ := hread
      obtain ⟨hfits, rfl, hseparates⟩ := typeParameter_eq_some hparameter
      split at hread
      next text =>
        simp only [Option.some.injEq, Prod.mk.injEq] at hread
        obtain ⟨rfl, rfl⟩ := hread
        exact ⟨[parameter], by simp, by simp, by simpa using hfits, trivial, by simp⟩
      next =>
        obtain ⟨parameters, rfl, hne, hothers, hsequence, rfl⟩ := ih hread
        obtain ⟨next, others, rfl⟩ := List.exists_cons_of_ne_nil hne
        refine ⟨parameter :: next :: others, by simp, by simp,
          List.forall_mem_cons.mpr ⟨hfits, hothers⟩, ⟨?_, hsequence⟩, by simp⟩
        intro hnone hstart
        have hhead := hseparates.2 hnone
        rw [List.flatMap_cons, List.append_assoc,
          head?_typeParameter_written (hothers next (by simp))] at hhead
        simp only [List.mem_cons, List.not_mem_nil, or_false] at hstart
        rcases hstart with hstart | hstart | hstart <;>
          exact hhead _ (Option.mem_def.mpr hstart) (by simp [Reference.starts])

/-! ## What follows the type parameters -/

/-- The characters that what follows the type parameters may start with if it is not a row of
types, with the one that opens the type parameters. -/
def reserved : List Char := ['V', '(', '<']

theorem exists_javaType_written_eq_cons (type : JavaType) :
    ∃ c, c ∉ reserved ∧ ∃ text, type.written = c :: text := by
  cases type with
  | primitive primitive =>
      refine ⟨primitive.descriptor, ?_, [], rfl⟩
      cases primitive <;> simp [reserved, Primitive.descriptor]
  | reference type =>
      obtain ⟨c, hc, text, htext⟩ := type.exists_written_eq_cons
      refine ⟨c, ?_, text, htext⟩
      simp only [Reference.starts, List.mem_cons, List.not_mem_nil, or_false] at hc
      rcases hc with rfl | rfl | rfl <;> simp [reserved]

theorem many_javaType_written (budget : Nat) {types : List JavaType}
    (hfits : ∀ type ∈ types, type.Fits)
    (hbudget : 2 * (types.flatMap JavaType.written).length ≤ budget) {rest : List Char}
    (hstop : javaType budget rest = none) :
    many (javaType budget) (types.flatMap JavaType.written ++ rest).length []
        (types.flatMap JavaType.written ++ rest) = (types, rest) := by
  have hlimit : types.length ≤ (types.flatMap JavaType.written ++ rest).length := by
    have hlength : types.length ≤ (types.flatMap JavaType.written).length := by
      refine length_le_length_flatMap ?_
      intro type _
      obtain ⟨c, -, text, htext⟩ := exists_javaType_written_eq_cons type
      simp [htext]
    rw [List.length_append]
    omega
  refine many_flatMap ?_ hstop hlimit []
  intro type htype
  have hpart := length_written_le_of_mem JavaType.written htype
  exact javaType_written budget (hfits type htype) (by omega)

theorem many_marked_written (budget : Nat) (mark : Char) {types : List Reference}
    (hfits : ∀ type ∈ types, type.Fits)
    (hbudget : 2 * (types.flatMap fun type => mark :: type.written).length ≤ budget) :
    many (marked mark budget) (types.flatMap fun type => mark :: type.written).length []
        (types.flatMap fun type => mark :: type.written) = (types, []) := by
  have hlimit : types.length ≤ (types.flatMap fun type => mark :: type.written).length :=
    length_le_length_flatMap (by simp)
  have hread : ∀ type ∈ types, ∀ rest,
      marked mark budget (mark :: type.written ++ rest) = some (type, rest) := by
    intro type htype
    have hpart := length_written_le_of_mem (fun type : Reference => mark :: type.written) htype
    simp only [List.length_cons] at hpart
    exact marked_written budget (hfits type htype) (by omega)
  have hmany := many_flatMap hread (rfl : marked mark budget [] = none) hlimit []
  rwa [List.append_nil] at hmany

theorem result_written (budget : Nat) {found : Option JavaType}
    (hfits : ∀ type ∈ found, type.Fits) (hbudget : 2 * (Shape.writtenResult found).length ≤ budget)
    (rest : List Char) :
    result budget (Shape.writtenResult found ++ rest) = some (found, rest) := by
  cases found with
  | none => rfl
  | some type =>
      have hread := javaType_written budget (hfits type rfl) hbudget rest
      obtain ⟨c, hc, text, htext⟩ := exists_javaType_written_eq_cons type
      have hvoid : c ≠ 'V' := fun hvoid => hc (by simp [hvoid, reserved])
      rw [htext, List.cons_append] at hread
      simp [Shape.writtenResult, htext, result, hvoid, hread]

theorem result_eq_some {budget : Nat} {text rest : List Char} {found : Option JavaType}
    (hread : result budget text = some (found, rest)) :
    (∀ type ∈ found, type.Fits) ∧ text = Shape.writtenResult found ++ rest := by
  simp only [result] at hread
  split at hread
  · simp only [Option.some.injEq, Prod.mk.injEq] at hread
    obtain ⟨rfl, rfl⟩ := hread
    exact ⟨by simp, rfl⟩
  · simp only [Option.bind_eq_bind, Option.bind_eq_some_iff, Prod.exists, Option.some.injEq,
      Prod.mk.injEq] at hread
    obtain ⟨type, afterType, htype, rfl, rfl⟩ := hread
    obtain ⟨hfits, rfl⟩ := javaType_eq_some htype
    exact ⟨by simpa using hfits, rfl⟩

theorem method?_written (budget : Nat) {parameters : List JavaType} {found : Option JavaType}
    {throws : List Reference} (hfits : (Shape.method parameters found throws).Fits)
    (hbudget : 2 * (Shape.method parameters found throws).written.length ≤ budget) :
    method? budget (parameters.flatMap JavaType.written ++ ')' ::
        (Shape.writtenResult found ++ throws.flatMap fun thrown => '^' :: thrown.written)) =
      some (.method parameters found throws) := by
  obtain ⟨htypes, hthrows⟩ := hfits
  simp only [List.mem_append, Option.mem_toList] at htypes
  simp only [Shape.written, List.length_cons, List.length_append] at hbudget
  have hclose := javaType_parenthesis budget (Shape.writtenResult found ++
    throws.flatMap fun thrown => '^' :: thrown.written)
  have hparameters := many_javaType_written budget
    (fun type htype => htypes type (.inl htype)) (by omega) hclose
  have hresult := result_written budget (fun type htype => htypes type (.inr htype)) (by omega)
    (throws.flatMap fun thrown => '^' :: thrown.written)
  have hthrown := many_marked_written budget '^' hthrows (by omega)
  simp only [method?, hparameters, hresult, hthrown, Option.bind_eq_bind, Option.bind_some]

theorem method?_eq_some {budget : Nat} {text : List Char} {shape : Shape}
    (hread : method? budget text = some shape) :
    shape.Fits ∧ '(' :: text = shape.written := by
  simp only [method?] at hread
  split at hread
  next parameters afterParameters hparameters =>
    simp only [Option.bind_eq_bind, Option.bind_eq_some_iff, Prod.exists] at hread
    obtain ⟨found, afterResult, hresult, hread⟩ := hread
    split at hread
    next throws hthrows =>
      simp only [Option.some.injEq] at hread
      subst hread
      obtain ⟨_, rfl, hparameterFits, htext⟩ :=
        many_eq JavaType.written javaType_eq_some hparameters
      obtain ⟨hresultFits, rfl⟩ := result_eq_some hresult
      obtain ⟨_, rfl, hthrowsFit, hthrown⟩ :=
        many_eq (fun type : Reference => '^' :: type.written) marked_eq_some hthrows
      refine ⟨⟨?_, by simpa using hthrowsFit⟩, by simp [Shape.written, htext, hthrown]⟩
      intro type htype
      simp only [List.mem_append, Option.mem_toList] at htype
      exact htype.elim (hparameterFits type) (hresultFits type)
    next => cases hread
  next => cases hread

theorem types?_eq_some {budget : Nat} {text : List Char} {shape : Shape}
    (hread : types? budget text = some shape) : shape.Fits ∧ text = shape.written := by
  simp only [types?] at hread
  split at hread
  next first others hmany =>
    simp only [Option.some.injEq] at hread
    subst hread
    obtain ⟨_, htypes, hfits, rfl⟩ := many_eq JavaType.written javaType_eq_some hmany
    simp only [List.reverse_nil, List.nil_append] at htypes
    subst htypes
    exact ⟨hfits, by simp [Shape.written]⟩
  next => cases hread

theorem shape?_of_not_mem_reserved {c : Char} (hc : c ∉ reserved) (budget : Nat)
    (text : List Char) : shape? budget (c :: text) = types? budget (c :: text) := by
  simp only [reserved, List.mem_cons, List.not_mem_nil, or_false, not_or] at hc
  simp only [shape?]
  split <;> simp_all

/-- What follows the type parameters reads back from its text. -/
theorem shape?_written (budget : Nat) {shape : Shape} (hfits : shape.Fits)
    (hbudget : 2 * shape.written.length ≤ budget) : shape? budget shape.written = some shape := by
  cases shape with
  | void => rfl
  | types first others =>
      have hmany := many_javaType_written budget hfits hbudget
        (rfl : javaType budget [] = none)
      rw [List.append_nil] at hmany
      obtain ⟨c, hc, text, htext⟩ := exists_javaType_written_eq_cons first
      have hread : types? budget (Shape.types first others).written =
          some (.types first others) := by
        simp only [types?, Shape.written, hmany]
      rw [Shape.written, List.flatMap_cons, htext, List.cons_append] at hread ⊢
      rw [shape?_of_not_mem_reserved hc, hread]
  | method parameters found throws => exact method?_written budget hfits hbudget

theorem shape?_eq_some {budget : Nat} {text : List Char} {shape : Shape}
    (hread : shape? budget text = some shape) : shape.Fits ∧ text = shape.written := by
  simp only [shape?] at hread
  split at hread
  · cases hread
  · simp only [Option.some.injEq] at hread
    subst hread
    exact ⟨trivial, rfl⟩
  · exact method?_eq_some hread
  · exact types?_eq_some hread

/-! ## Signatures -/

theorem head?_shape_written (shape : Shape) : shape.written.head? ≠ some '<' := by
  cases shape with
  | void => simp [Shape.written]
  | types first others =>
      obtain ⟨c, hc, text, htext⟩ := exists_javaType_written_eq_cons first
      intro hopening
      apply hc
      have hsame : c = '<' := by simpa [Shape.written, htext] using hopening
      simp [hsame, reserved]
  | method parameters found throws => simp [Shape.written]

/-- A signature that fits reads back from its text. -/
theorem signature?_written (budget : Nat) {signature : Signature} (hfits : signature.Fits)
    (hbudget : 2 * signature.written.length ≤ budget) :
    signature? budget signature.written = some signature := by
  obtain ⟨parameters, shape⟩ := signature
  obtain ⟨hparameters, hsequence, hshape⟩ := hfits
  dsimp only at hparameters hsequence hshape
  cases parameters with
  | nil =>
      have hread := shape?_written budget hshape hbudget
      have hhead := head?_shape_written shape
      simp only [written, writtenParameters, List.nil_append, signature?]
      split
      next text htext => simp [htext] at hhead
      next => simp [hread]
  | cons parameter parameters =>
      simp only [written, writtenParameters, List.length_append, List.length_cons] at hbudget
      have hlimit : (parameter :: parameters).length ≤
          ((parameter :: parameters).flatMap TypeParameter.written ++
            '>' :: shape.written).length := by
        have hpos : ∀ other ∈ parameter :: parameters, 0 < other.written.length := by
          intro other _
          simp only [TypeParameter.written, List.length_append, List.length_cons]
          omega
        have hlength := length_le_length_flatMap hpos
        rw [List.length_append]
        omega
      have hfirst := typeParameters_written budget (by simp) hparameters hsequence (by omega)
        hlimit [] shape.written
      have hread := shape?_written budget hshape (by omega)
      simp only [List.reverse_nil, List.nil_append] at hfirst
      simp only [written, writtenParameters, List.cons_append, List.append_assoc,
        List.nil_append, signature?, hfirst, hread, Option.bind_eq_bind, Option.bind_some]
      rfl

theorem signature?_eq_some {budget : Nat} {text : List Char} {signature : Signature}
    (hread : signature? budget text = some signature) :
    signature.Fits ∧ signature.written = text := by
  simp only [signature?] at hread
  split at hread
  next text =>
    simp only [Option.bind_eq_bind, Option.bind_eq_some_iff, Prod.exists, Option.pure_def,
      Option.some.injEq] at hread
    obtain ⟨parameters, afterParameters, hparameters, shape, hshape, rfl⟩ := hread
    obtain ⟨_, rfl, hne, hfits, hsequence, rfl⟩ := typeParameters_eq_some hparameters
    obtain ⟨hshapeFits, rfl⟩ := shape?_eq_some hshape
    obtain ⟨parameter, others, rfl⟩ := List.exists_cons_of_ne_nil hne
    exact ⟨⟨hfits, hsequence, hshapeFits⟩, by simp [written, writtenParameters]⟩
  next =>
    simp only [Option.bind_eq_bind, Option.bind_eq_some_iff, Option.pure_def,
      Option.some.injEq] at hread
    obtain ⟨shape, hshape, rfl⟩ := hread
    obtain ⟨hshapeFits, rfl⟩ := shape?_eq_some hshape
    exact ⟨⟨by simp, trivial, hshapeFits⟩, rfl⟩

/-- A text is read as a tree exactly if the tree fits and the text is its written form. -/
theorem parse?_eq_some_iff {text : String} {signature : Signature} :
    parse? text = some signature ↔ signature.Fits ∧ signature.written = text.toList := by
  constructor
  · exact signature?_eq_some
  · rintro ⟨hfits, htext⟩
    rw [parse?, ← htext]
    exact signature?_written _ hfits (by omega)

end Signature

end ClassCensus
