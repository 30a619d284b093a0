import ClassCensus.Analysis.Ledger
import ClassCensus.Analysis.Resource

/-!
# What a ledger gains

A ledger counts the versions that are entered into it and keeps the message of the last failure.
Entering what was found in a resource adds one to the count of its compiler version, if that was
found, and replaces the message, if the analysis failed.  Counts of the same versions that count
each of them alike are equal.
-/

namespace ClassCensus

/-! ## Counts of versions -/

namespace VersionCounts

variable {counts others : VersionCounts} {version other : String}

def versions (counts : VersionCounts) : List String := counts.rows.map Prod.fst

theorem countOf_cons (version : String) (row : String × Nat) (rows : List (String × Nat)) :
    countOf version (row :: rows) = if row.1 = version then row.2 else countOf version rows := by
  rw [countOf, List.find?_cons]
  by_cases hsame : row.1 = version <;> simp [hsame, countOf]

theorem countOf_eq_zero {rows : List (String × Nat)} (hnone : version ∉ rows.map Prod.fst) :
    countOf version rows = 0 := by
  have hfind : rows.find? (fun row => row.1 = version) = none := by
    rw [List.find?_eq_none]
    intro row hrow hsame
    exact hnone (List.mem_map.mpr ⟨row, hrow, of_decide_eq_true hsame⟩)
  rw [countOf, hfind]
  rfl

theorem countOf_countIn {rows : List (String × Nat)}
    (hincreasing : (rows.map Prod.fst).Pairwise (· < ·)) :
    countOf other (countIn version rows) =
      countOf other rows + if version = other then 1 else 0 := by
  induction rows with
  | nil =>
      rw [countIn, countOf_cons]
      split <;> rfl
  | cons row rows ih =>
      obtain ⟨found, count⟩ := row
      obtain ⟨hleast, hrest⟩ := List.pairwise_cons.mp hincreasing
      rw [countIn]
      split
      next hbefore =>
        rw [countOf_cons]
        split
        next hsame =>
          -- The version comes before all that are counted, so it is not one of them.
          have hnew : version ∉ ((found, count) :: rows).map Prod.fst := by
            intro hold
            rcases List.mem_cons.mp hold with hfirst | hlater
            · exact String.lt_irrefl version (hfirst ▸ hbefore)
            · exact String.lt_irrefl version (String.lt_trans hbefore (hleast version hlater))
          rw [countOf_eq_zero (hsame ▸ hnew)]
        next => rfl
      next =>
        split
        next hfound =>
          subst hfound
          rw [countOf_cons, countOf_cons]
          split <;> rfl
        next hother =>
          rw [countOf_cons, countOf_cons, ih hrest]
          split
          next hsame => rw [if_neg fun h => hother (h.trans hsame.symm), Nat.add_zero]
          next => rfl

theorem count_empty (version : String) : empty.count version = 0 := rfl

theorem count_add : (counts.add version).count other =
    counts.count other + if version = other then 1 else 0 :=
  countOf_countIn counts.increasing

theorem not_mem_versions_empty (version : String) : version ∉ empty.versions := List.not_mem_nil

theorem mem_versions_add :
    other ∈ (counts.add version).versions ↔ other = version ∨ other ∈ counts.versions :=
  mem_countIn

theorem map_countOf {rows : List (String × Nat)}
    (hincreasing : (rows.map Prod.fst).Pairwise (· < ·)) :
    (rows.map Prod.fst).map (fun version => (version, countOf version rows)) = rows := by
  induction rows with
  | nil => rfl
  | cons row rows ih =>
      obtain ⟨hleast, hrest⟩ := List.pairwise_cons.mp hincreasing
      have htail : (rows.map Prod.fst).map (fun version => (version, countOf version (row :: rows)))
          = (rows.map Prod.fst).map fun version => (version, countOf version rows) := by
        refine List.map_congr_left fun version hversion => ?_
        rw [countOf_cons, if_neg]
        rintro rfl
        exact String.lt_irrefl _ (hleast _ hversion)
      rw [List.map_cons, List.map_cons, htail, ih hrest, countOf_cons, if_pos rfl]

/-- Counts are known by their versions and by how often they count each. -/
theorem ext_count (hversions : ∀ version, version ∈ counts.versions ↔ version ∈ others.versions)
    (hcount : ∀ version, counts.count version = others.count version) : counts = others := by
  obtain ⟨rows, hrows⟩ := counts
  obtain ⟨otherRows, hotherRows⟩ := others
  have hkeys : rows.map Prod.fst = otherRows.map Prod.fst :=
    ClassNames.ext_list hrows hotherRows hversions
  have hcounts : (fun version => (version, countOf version rows)) =
      fun version => (version, countOf version otherRows) :=
    funext fun version => congrArg (Prod.mk version) (hcount version)
  congr 1
  rw [← map_countOf hrows, ← map_countOf hotherRows, hkeys, hcounts]

end VersionCounts

/-! ## What was found in a resource -/

/-- The message of a resource that is in error and may be a class file. -/
def Resource.failure? (resource : Resource) : Option String :=
  if resource.finding.isValid then
    resource.finding.fault?.map fun fault => resource.name ++ ": " ++ fault.message
  else none

theorem Resource.isSome_failure?_iff {resource : Resource} : resource.failure?.isSome = true ↔
    resource.finding.isValid = true ∧ resource.finding.fault?.isSome = true := by
  rw [failure?]
  split
  next hvalid => simp [hvalid]
  next hvalid => simp [hvalid]

namespace Ledger

variable {ledger : Ledger} {resource : Resource}

/-- The ledger with what a resource tells entered: its compiler version, if that was found, and its
failure, if there is one. -/
def gain (ledger : Ledger) (resource : Resource) : Ledger :=
  let counted :=
    match resource.compiler? with
    | some compiler => ledger.recordVersion compiler
    | none => ledger
  match resource.failure? with
  | some message => counted.recordFailure message
  | none => counted

theorem found_gain (ledger : Ledger) (resource : Resource) :
    (ledger.gain resource).found = match resource.compiler? with
      | some compiler => ledger.found.add compiler
      | none => ledger.found := by
  rw [gain]
  cases resource.compiler? <;> cases resource.failure? <;> rfl

theorem lastFailure_gain (ledger : Ledger) (resource : Resource) :
    (ledger.gain resource).lastFailure = resource.failure?.or ledger.lastFailure := by
  rw [gain]
  cases resource.compiler? <;> cases resource.failure? <;> rfl

theorem hasFailed_gain (ledger : Ledger) (resource : Resource) :
    (ledger.gain resource).hasFailed = (resource.failure?.isSome || ledger.hasFailed) := by
  rw [gain]
  cases resource.compiler? <;> cases resource.failure? <;> rfl

theorem count_gain (ledger : Ledger) (resource : Resource) (version : String) :
    (ledger.gain resource).found.count version =
      ledger.found.count version + if resource.compiler? = some version then 1 else 0 := by
  rw [found_gain]
  cases resource.compiler? with
  | none => rfl
  | some compiler => simp only [VersionCounts.count_add, Option.some.injEq]

theorem mem_versions_gain (ledger : Ledger) (resource : Resource) (version : String) :
    version ∈ (ledger.gain resource).found.versions ↔
      version ∈ ledger.found.versions ∨ resource.compiler? = some version := by
  rw [found_gain]
  cases resource.compiler? with
  | none => simp
  | some compiler =>
      simp only [VersionCounts.mem_versions_add, Option.some.injEq]
      exact ⟨fun h => h.symm.imp_right Eq.symm, fun h => h.symm.imp_left Eq.symm⟩

/-- The counts only stay as they are where no compiler version was found. -/
theorem found_gain_eq_iff : (ledger.gain resource).found = ledger.found ↔
    resource.compiler? = none := by
  constructor
  · intro hsame
    cases hcompiler : resource.compiler? with
    | none => rfl
    | some compiler =>
        have hcount := ledger.count_gain resource compiler
        rw [hsame, hcompiler, if_pos rfl] at hcount
        omega
  · intro hnone
    rw [found_gain, hnone]

end Ledger

end ClassCensus
