/-!
# Sets of class names

A set of binary class names such as `java/util/List`, held as the list of its members in strictly
increasing order.  That form is unique: two sets with the same members are equal
(`ClassNames.ext`).
-/

namespace ClassCensus

/-- A set of class names, listed in the order of their code points. -/
structure ClassNames where
  toList : List String
  increasing : toList.Pairwise (· < ·)
  deriving DecidableEq

namespace ClassNames

/-- Drops each name that equals the one behind it. -/
def dropRepeats (names : List String) : List String :=
  names.foldr (fun name kept => if kept.head? = some name then kept else name :: kept) []

theorem mem_dropRepeats {name : String} {names : List String} :
    name ∈ dropRepeats names ↔ name ∈ names := by
  induction names with
  | nil => simp [dropRepeats]
  | cons first rest ih =>
    rw [dropRepeats, List.foldr_cons, ← dropRepeats, List.mem_cons, ← ih]
    split
    · rename_i hrepeated
      constructor
      · exact Or.inr
      · rintro (rfl | hfound)
        · exact List.mem_of_mem_head? hrepeated
        · exact hfound
    · rw [List.mem_cons]

theorem pairwise_dropRepeats {names : List String} (hsorted : names.Pairwise (· ≤ ·)) :
    (dropRepeats names).Pairwise (· < ·) := by
  induction names with
  | nil => simp [dropRepeats]
  | cons first rest ih =>
    obtain ⟨hleast, hsorted⟩ := List.pairwise_cons.1 hsorted
    have hincreasing := ih hsorted
    rw [dropRepeats, List.foldr_cons, ← dropRepeats]
    split
    · exact hincreasing
    · rename_i hfresh
      refine List.pairwise_cons.2 ⟨fun name hfound => ?_, hincreasing⟩
      cases hshape : dropRepeats rest with
      | nil => simp [hshape] at hfound
      | cons second others =>
        have hnotSecond : first ≠ second := by
          intro hsame
          exact hfresh (by rw [hshape, List.head?_cons, hsame])
        have hatMost : first ≤ second :=
          hleast second (mem_dropRepeats.1 (by rw [hshape]; exact List.mem_cons_self))
        have hbelow : first < second :=
          String.not_le.1 fun habove => hnotSecond (String.le_antisymm hatMost habove)
        rw [hshape] at hfound hincreasing
        rcases List.mem_cons.1 hfound with rfl | hlater
        · exact hbelow
        · exact String.lt_trans hbelow ((List.pairwise_cons.1 hincreasing).1 name hlater)

theorem pairwise_sorted (names : List String) :
    (names.mergeSort fun first second => decide (first ≤ second)).Pairwise (· ≤ ·) := by
  have hsorted : (names.mergeSort fun first second => decide (first ≤ second)).Pairwise
      (fun first second => decide (first ≤ second) = true) :=
    List.pairwise_mergeSort
      (fun _ _ _ hfirst hsecond => by
        simpa using String.le_trans (by simpa using hfirst) (by simpa using hsecond))
      (fun first second => by simpa using String.le_total first second) names
  simpa using hsorted

/-- The set of the names in a list. -/
def ofList (names : List String) : ClassNames where
  toList := dropRepeats (names.mergeSort fun first second => decide (first ≤ second))
  increasing := pairwise_dropRepeats (pairwise_sorted names)

instance : Membership String ClassNames := ⟨fun names name => name ∈ names.toList⟩

instance (name : String) (names : ClassNames) : Decidable (name ∈ names) :=
  inferInstanceAs (Decidable (name ∈ names.toList))

theorem mem_def {name : String} {names : ClassNames} : name ∈ names ↔ name ∈ names.toList :=
  Iff.rfl

@[simp]
theorem mem_ofList {name : String} {names : List String} :
    name ∈ ofList names ↔ name ∈ names := by
  rw [mem_def, ofList, mem_dropRepeats]
  exact (List.mergeSort_perm names _).mem_iff

theorem ext_list : ∀ {first second : List String}, first.Pairwise (· < ·) →
    second.Pairwise (· < ·) → (∀ name, name ∈ first ↔ name ∈ second) → first = second
  | [], [], _, _, _ => rfl
  | [], b :: _, _, _, hsame => absurd ((hsame b).2 List.mem_cons_self) (by simp)
  | a :: _, [], _, _, hsame => absurd ((hsame a).1 List.mem_cons_self) (by simp)
  | a :: as, b :: bs, ha, hb, hsame => by
    obtain ⟨hleastA, ha⟩ := List.pairwise_cons.1 ha
    obtain ⟨hleastB, hbs⟩ := List.pairwise_cons.1 hb
    have hheads : a = b := by
      rcases List.mem_cons.1 ((hsame a).1 List.mem_cons_self) with h | hinB
      · exact h
      rcases List.mem_cons.1 ((hsame b).2 List.mem_cons_self) with h | hinA
      · exact h.symm
      exact absurd (hleastB a hinB) (String.lt_asymm (hleastA b hinA))
    subst hheads
    congr 1
    refine ext_list ha hbs fun name => ?_
    constructor
    · intro hfound
      rcases List.mem_cons.1 ((hsame name).1 (List.mem_cons_of_mem _ hfound)) with rfl | h
      · exact absurd (hleastA name hfound) (String.lt_irrefl name)
      · exact h
    · intro hfound
      rcases List.mem_cons.1 ((hsame name).2 (List.mem_cons_of_mem _ hfound)) with rfl | h
      · exact absurd (hleastB name hfound) (String.lt_irrefl name)
      · exact h

/-- Sets with the same members are equal. -/
theorem ext {first second : ClassNames} (hsame : ∀ name, name ∈ first ↔ name ∈ second) :
    first = second := by
  cases first with | mk first hf =>
  cases second with | mk second hs =>
  congr 1
  exact ext_list hf hs hsame

def empty : ClassNames := ofList []

instance : EmptyCollection ClassNames := ⟨empty⟩

instance : Inhabited ClassNames := ⟨empty⟩

def insert (name : String) (names : ClassNames) : ClassNames := ofList (name :: names.toList)

def union (first second : ClassNames) : ClassNames := ofList (first.toList ++ second.toList)

instance : Union ClassNames := ⟨union⟩

def size (names : ClassNames) : Nat := names.toList.length

def isEmpty (names : ClassNames) : Bool := names.toList.isEmpty

/-- The members between braces, separated by commas. -/
def text (names : ClassNames) : String := "\x7b" ++ ", ".intercalate names.toList ++ "\x7d"

@[simp]
theorem not_mem_empty {name : String} : name ∉ (∅ : ClassNames) := by
  change name ∉ ofList []
  simp

@[simp]
theorem mem_insert {name added : String} {names : ClassNames} :
    name ∈ insert added names ↔ name = added ∨ name ∈ names := by
  rw [insert, mem_ofList, List.mem_cons, mem_def]

@[simp]
theorem mem_union {name : String} {first second : ClassNames} :
    name ∈ first ∪ second ↔ name ∈ first ∨ name ∈ second := by
  change name ∈ ofList (first.toList ++ second.toList) ↔ _
  rw [mem_ofList, List.mem_append, mem_def, mem_def]

end ClassNames

end ClassCensus
