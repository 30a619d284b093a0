import ClassCensus.Signature.Written

/-!
# Reading references

The readers of names and references against their written form.  A reference that fits reads back
from its text, whatever follows it (`Signature.reference_written`), and what is read as a
reference fits and is the text that was taken (`Signature.Faithful`).

References carry a budget.  The first direction bounds it by the text: two units for each character
of the reference are enough.
-/

namespace ClassCensus

/-! ## Names -/

namespace Signature

theorem takeWhile_eq_nil_of_head_mem {ends : List Char} :
    ∀ {rest : List Char}, (∀ c ∈ rest.head?, c ∈ ends) →
      (rest.takeWhile fun c => !ends.contains c) = []
  | [], _ => rfl
  | c :: rest, hhead => by
      have hmem : c ∈ ends := hhead c (by simp)
      simp [hmem]

/-- A name is read in full if what follows it starts with a character that ends it. -/
theorem name_append {ends word rest : List Char} (hname : IsName ends word)
    (hhead : ∀ c ∈ rest.head?, c ∈ ends) :
    name ends (word ++ rest) = some (word, rest) := by
  have hrun : ((word ++ rest).takeWhile fun c => !ends.contains c) = word := by
    rw [List.takeWhile_append_of_pos (by simpa using hname.2),
      takeWhile_eq_nil_of_head_mem hhead, List.append_nil]
  rw [name, hrun]
  simp [hname.1]

/-- What is read as a name is one, and nothing of the text is lost. -/
theorem name_eq_some {ends text word rest : List Char}
    (hread : name ends text = some (word, rest)) :
    IsName ends word ∧ text = word ++ rest := by
  have hall := List.all_takeWhile (p := fun c => !ends.contains c) (l := text)
  obtain ⟨tail, htail⟩ := List.takeWhile_prefix (fun c => !ends.contains c) (l := text)
  rw [name] at hread
  generalize (text.takeWhile fun c => !ends.contains c) = run at hread hall htail
  subst htail
  by_cases hempty : run = []
  · simp [hempty] at hread
  · simp only [List.isEmpty_iff, hempty, if_false, List.drop_left, Option.some.injEq,
      Prod.mk.injEq] at hread
    obtain ⟨rfl, rfl⟩ := hread
    exact ⟨⟨hempty, by simpa using hall⟩, rfl⟩

end Signature

open Signature (IsName nameEnds identifierEnds)

/-! ## How written references start -/

/-- The characters that a reference can start with. -/
def Reference.starts : List Char := ['L', 'T', '[']

theorem Reference.exists_written_eq_cons (type : Reference) :
    ∃ c ∈ starts, ∃ text, type.written = c :: text := by
  cases type <;> simp [Reference.written, starts]

theorem Reference.length_written_pos (type : Reference) : 0 < type.written.length := by
  obtain ⟨c, -, text, htext⟩ := type.exists_written_eq_cons
  simp [htext]

theorem Suffix.head_written (suffixes : List Suffix) (rest : List Char) :
    ∀ c ∈ (Suffix.written suffixes ++ rest).head?, c ∈ identifierEnds ∧ c ∈ nameEnds := by
  match suffixes with
  | [] => simp [Suffix.written, nameEnds, identifierEnds]
  | .arguments _ :: _ => simp [Suffix.written, nameEnds, identifierEnds]
  | .inner _ :: _ => simp [Suffix.written, nameEnds, identifierEnds]

theorem Suffix.length_written_pos : ∀ suffixes, 0 < (Suffix.written suffixes).length
  | [] => by simp [Suffix.written]
  | .arguments _ :: _ => by simp [Suffix.written]
  | .inner _ :: _ => by simp [Suffix.written]

theorem Argument.length_written_pos : ∀ found, 0 < (Argument.written found).length
  | [] => by simp [Argument.written]
  | .any :: _ => by simp [Argument.written]
  | .exact type :: _ => by
      have hpos := type.length_written_pos
      simp only [Argument.written, List.length_append]
      omega
  | .upper _ :: _ => by simp [Argument.written]
  | .lower _ :: _ => by simp [Argument.written]

theorem Primitive.ofDescriptor?_descriptor (primitive : Primitive) :
    ofDescriptor? primitive.descriptor = some primitive :=
  ofDescriptor?_eq_some_iff.mpr rfl

theorem Primitive.ofDescriptor?_eq_none_of_mem_starts {c : Char} (hc : c ∈ Reference.starts) :
    ofDescriptor? c = none := by
  simp only [Reference.starts, List.mem_cons, List.not_mem_nil, or_false] at hc
  rcases hc with rfl | rfl | rfl <;> decide

namespace Signature

/-- Where a reference starts, type arguments go on with a type. -/
theorem arguments_of_mem_starts {c : Char} (hc : c ∈ Reference.starts) (budget : Nat)
    (before : List Argument) (text : List Char) :
    arguments (budget + 1) before (c :: text) =
      (reference budget (c :: text)).bind fun found =>
        arguments budget (.exact found.1 :: before) found.2 := by
  simp only [Reference.starts, List.mem_cons, List.not_mem_nil, or_false] at hc
  rcases hc with rfl | rfl | rfl <;> rfl

theorem reference_eq_none_of_head_not_mem {budget : Nat} {rest : List Char}
    (hhead : ∀ c ∈ rest.head?, c ∉ Reference.starts) : reference budget rest = none := by
  match budget, rest with
  | 0, _ => rfl
  | budget + 1, [] => rfl
  | budget + 1, c :: rest =>
      have hc : c ∉ Reference.starts := hhead c (by simp)
      simp only [Reference.starts, List.mem_cons, List.not_mem_nil, or_false, not_or] at hc
      simp only [reference]
      split <;> simp_all

/-! ## References read back -/

mutual

/-- A reference that fits reads back from its text. -/
theorem reference_written : ∀ (type : Reference) (budget : Nat) (rest : List Char),
    type.Fits → 2 * type.written.length ≤ budget →
      reference budget (type.written ++ rest) = some (type, rest)
  | type, 0, _, _, hbudget => by
      have hpos := type.length_written_pos
      omega
  | .classType word found, budget + 1, rest, hfits, hbudget => by
      obtain ⟨hword, hfound⟩ := hfits
      simp only [Reference.written, List.length_cons, List.length_append] at hbudget
      have hname : name nameEnds (word ++ (Suffix.written found ++ rest)) =
          some (word, Suffix.written found ++ rest) :=
        name_append hword fun c hc => (Suffix.head_written found rest c hc).2
      have hsuffixes := suffixes_written found budget [] rest hfound (by omega)
      simp [Reference.written, reference, hname, hsuffixes]
  | .variable word, budget + 1, rest, hfits, _ => by
      have hname : name identifierEnds (word ++ ';' :: rest) = some (word, ';' :: rest) :=
        name_append hfits (by simp [identifierEnds])
      simp [Reference.written, reference, hname]
  | .array element, budget + 1, rest, hfits, hbudget => by
      simp only [Reference.written, List.length_cons] at hbudget
      have helement := reference_written element budget rest hfits (by omega)
      -- The first character tells an array of references from one of primitive values.
      obtain ⟨c, hc, text, htext⟩ := element.exists_written_eq_cons
      have hnone := Primitive.ofDescriptor?_eq_none_of_mem_starts hc
      rw [htext, List.cons_append] at helement
      simp [Reference.written, reference, htext, hnone, helement]
  | .primitiveArray element, budget + 1, rest, _, _ => by
      simp [Reference.written, reference, Primitive.ofDescriptor?_descriptor]

/-- What follows a name reads back from its text, behind what was read before. -/
theorem suffixes_written : ∀ (found : List Suffix) (budget : Nat) (before : List Suffix)
    (rest : List Char), Suffix.Fits found → 2 * (Suffix.written found).length ≤ budget →
      suffixes budget before (Suffix.written found ++ rest) =
        some (before.reverse ++ found, rest)
  | found, 0, _, _, _, hbudget => by
      have hpos := Suffix.length_written_pos found
      omega
  | [], budget + 1, before, rest, _, _ => by simp [Suffix.written, suffixes]
  | .arguments entries :: found, budget + 1, before, rest, hfits, hbudget => by
      obtain ⟨hentries, hfound⟩ := hfits
      simp only [Suffix.written, List.length_cons, List.length_append] at hbudget
      have hfirst := arguments_written entries budget [] (Suffix.written found ++ rest)
        hentries (by omega)
      have hothers := suffixes_written found budget (.arguments entries :: before) rest hfound
        (by omega)
      simp [Suffix.written, suffixes, hfirst, hothers]
  | .inner word :: found, budget + 1, before, rest, hfits, hbudget => by
      obtain ⟨hword, hfound⟩ := hfits
      simp only [Suffix.written, List.length_cons, List.length_append] at hbudget
      have hname : name identifierEnds (word ++ (Suffix.written found ++ rest)) =
          some (word, Suffix.written found ++ rest) :=
        name_append hword fun c hc => (Suffix.head_written found rest c hc).1
      have hothers := suffixes_written found budget (.inner word :: before) rest hfound
        (by omega)
      simp [Suffix.written, suffixes, hname, hothers]

/-- Type arguments read back from their text, behind those read before. -/
theorem arguments_written : ∀ (found : List Argument) (budget : Nat) (before : List Argument)
    (rest : List Char), Argument.Fits found → 2 * (Argument.written found).length ≤ budget →
      arguments budget before (Argument.written found ++ rest) =
        some (before.reverse ++ found, rest)
  | found, 0, _, _, _, hbudget => by
      have hpos := Argument.length_written_pos found
      omega
  | [], budget + 1, before, rest, _, _ => by simp [Argument.written, arguments]
  | .any :: found, budget + 1, before, rest, hfits, hbudget => by
      simp only [Argument.written, List.length_cons] at hbudget
      have hothers := arguments_written found budget (.any :: before) rest hfits (by omega)
      simp [Argument.written, arguments, hothers]
  | .exact type :: found, budget + 1, before, rest, hfits, hbudget => by
      obtain ⟨htype, hfound⟩ := hfits
      simp only [Argument.written, List.length_append] at hbudget
      -- No character is spent before the type, so the closing bracket pays for starting it.
      have hclosing := Argument.length_written_pos found
      have hopening := type.length_written_pos
      have hfirst := reference_written type budget (Argument.written found ++ rest) htype
        (by omega)
      have hothers := arguments_written found budget (.exact type :: before) rest hfound
        (by omega)
      obtain ⟨c, hc, text, htext⟩ := type.exists_written_eq_cons
      rw [htext, List.cons_append] at hfirst
      simp [Argument.written, htext, arguments_of_mem_starts hc, hfirst, hothers]
  | .upper bound :: found, budget + 1, before, rest, hfits, hbudget => by
      obtain ⟨hbound, hfound⟩ := hfits
      simp only [Argument.written, List.length_cons, List.length_append] at hbudget
      have hfirst := reference_written bound budget (Argument.written found ++ rest) hbound
        (by omega)
      have hothers := arguments_written found budget (.upper bound :: before) rest hfound
        (by omega)
      simp [Argument.written, arguments, hfirst, hothers]
  | .lower bound :: found, budget + 1, before, rest, hfits, hbudget => by
      obtain ⟨hbound, hfound⟩ := hfits
      simp only [Argument.written, List.length_cons, List.length_append] at hbudget
      have hfirst := reference_written bound budget (Argument.written found ++ rest) hbound
        (by omega)
      have hothers := arguments_written found budget (.lower bound :: before) rest hfound
        (by omega)
      simp [Argument.written, arguments, hfirst, hothers]

end

/-! ## What is read is what was written -/

/-- What holds of the readers of nested parts with a budget: the tree they answer fits, and its
text is what they took. -/
structure Faithful (budget : Nat) : Prop where
  reference : ∀ {text type rest}, Signature.reference budget text = some (type, rest) →
    type.Fits ∧ text = type.written ++ rest
  suffixes : ∀ {before text found rest},
    Signature.suffixes budget before text = some (found, rest) →
      ∃ more, found = before.reverse ++ more ∧ Suffix.Fits more ∧
        text = Suffix.written more ++ rest
  arguments : ∀ {before text found rest},
    Signature.arguments budget before text = some (found, rest) →
      ∃ more, found = before.reverse ++ more ∧ Argument.Fits more ∧
        text = Argument.written more ++ rest

theorem Faithful.reference_succ {budget : Nat} (ih : Faithful budget) {text rest : List Char}
    {type : Reference} (hread : Signature.reference (budget + 1) text = some (type, rest)) :
    type.Fits ∧ text = type.written ++ rest := by
  simp only [Signature.reference] at hread
  split at hread
  next text =>
    -- A class type.
    simp only [Option.bind_eq_bind, Option.bind_eq_some_iff, Prod.exists, Option.some.injEq,
      Prod.mk.injEq] at hread
    obtain ⟨word, afterName, hname, found, afterSuffixes, hsuffixes, rfl, rfl⟩ := hread
    obtain ⟨hword, rfl⟩ := name_eq_some hname
    obtain ⟨more, rfl, hmore, rfl⟩ := ih.suffixes hsuffixes
    exact ⟨⟨hword, hmore⟩, by simp [Reference.written]⟩
  next text =>
    -- A type variable.
    simp only [Option.bind_eq_bind, Option.bind_eq_some_iff, Prod.exists] at hread
    obtain ⟨word, afterName, hname, hread⟩ := hread
    obtain ⟨hword, rfl⟩ := name_eq_some hname
    split at hread
    · simp only [Option.some.injEq, Prod.mk.injEq] at hread
      obtain ⟨rfl, rfl⟩ := hread
      exact ⟨hword, by simp [Reference.written]⟩
    · cases hread
  next text =>
    -- An array.
    split at hread
    · cases hread
    next first others =>
      split at hread
      next element helement =>
        simp only [Option.some.injEq, Prod.mk.injEq] at hread
        obtain ⟨rfl, rfl⟩ := hread
        rw [Primitive.ofDescriptor?_eq_some_iff] at helement
        subst helement
        exact ⟨trivial, by simp [Reference.written]⟩
      next =>
        simp only [Option.bind_eq_bind, Option.bind_eq_some_iff, Prod.exists,
          Option.some.injEq, Prod.mk.injEq] at hread
        obtain ⟨element, afterElement, helement, rfl, rfl⟩ := hread
        obtain ⟨hfits, htext⟩ := ih.reference helement
        exact ⟨hfits, by simp [Reference.written, htext]⟩
  next => cases hread

theorem Faithful.suffixes_succ {budget : Nat} (ih : Faithful budget) {before : List Suffix}
    {text rest : List Char} {found : List Suffix}
    (hread : Signature.suffixes (budget + 1) before text = some (found, rest)) :
    ∃ more, found = before.reverse ++ more ∧ Suffix.Fits more ∧
      text = Suffix.written more ++ rest := by
  simp only [Signature.suffixes] at hread
  split at hread
  next text =>
    simp only [Option.some.injEq, Prod.mk.injEq] at hread
    obtain ⟨rfl, rfl⟩ := hread
    exact ⟨[], by simp, trivial, rfl⟩
  next text =>
    simp only [Option.bind_eq_bind, Option.bind_eq_some_iff, Prod.exists] at hread
    obtain ⟨entries, afterList, hlist, hread⟩ := hread
    obtain ⟨_, rfl, hentries, rfl⟩ := ih.arguments hlist
    obtain ⟨more, rfl, hmore, rfl⟩ := ih.suffixes hread
    exact ⟨.arguments entries :: more, by simp, ⟨hentries, hmore⟩, by simp [Suffix.written]⟩
  next text =>
    simp only [Option.bind_eq_bind, Option.bind_eq_some_iff, Prod.exists] at hread
    obtain ⟨word, afterName, hname, hread⟩ := hread
    obtain ⟨hword, rfl⟩ := name_eq_some hname
    obtain ⟨more, rfl, hmore, rfl⟩ := ih.suffixes hread
    exact ⟨.inner word :: more, by simp, ⟨hword, hmore⟩, by simp [Suffix.written]⟩
  next => cases hread

theorem Faithful.arguments_succ {budget : Nat} (ih : Faithful budget) {before : List Argument}
    {text rest : List Char} {found : List Argument}
    (hread : Signature.arguments (budget + 1) before text = some (found, rest)) :
    ∃ more, found = before.reverse ++ more ∧ Argument.Fits more ∧
      text = Argument.written more ++ rest := by
  simp only [Signature.arguments] at hread
  split at hread
  next text =>
    simp only [Option.some.injEq, Prod.mk.injEq] at hread
    obtain ⟨rfl, rfl⟩ := hread
    exact ⟨[], by simp, trivial, rfl⟩
  next text =>
    obtain ⟨more, rfl, hmore, rfl⟩ := ih.arguments hread
    exact ⟨.any :: more, by simp, hmore, by simp [Argument.written]⟩
  all_goals
    simp only [Option.bind_eq_bind, Option.bind_eq_some_iff, Prod.exists] at hread
    obtain ⟨type, afterType, htype, hread⟩ := hread
    obtain ⟨hfits, rfl⟩ := ih.reference htype
    obtain ⟨more, rfl, hmore, rfl⟩ := ih.arguments hread
  · exact ⟨.upper type :: more, by simp, ⟨hfits, hmore⟩, by simp [Argument.written]⟩
  · exact ⟨.lower type :: more, by simp, ⟨hfits, hmore⟩, by simp [Argument.written]⟩
  · exact ⟨.exact type :: more, by simp, ⟨hfits, hmore⟩, by simp [Argument.written]⟩

/-- Whatever the budget, what is read as a reference is the text that was taken. -/
theorem faithful (budget : Nat) : Faithful budget := by
  induction budget with
  | zero =>
      exact {
        reference := fun hread => by simp [Signature.reference] at hread
        suffixes := fun hread => by simp [Signature.suffixes] at hread
        arguments := fun hread => by simp [Signature.arguments] at hread }
  | succ budget ih =>
      exact {
        reference := ih.reference_succ
        suffixes := ih.suffixes_succ
        arguments := ih.arguments_succ }

end Signature

end ClassCensus
