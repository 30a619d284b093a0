/-!
# The ledger of an analysis

What is kept across resources: how the analysis stands, the message of the last failure, and how
many class files were found of each compiler version.
-/

namespace ClassCensus

/-- Counts of versions, in the order of the versions. -/
structure VersionCounts where
  rows : List (String × Nat)
  increasing : (rows.map Prod.fst).Pairwise (· < ·)
  deriving DecidableEq

namespace VersionCounts

/-- The rows with one more of a version. -/
def countIn (version : String) : List (String × Nat) → List (String × Nat)
  | [] => [(version, 1)]
  | (found, count) :: rows =>
    if version < found then (version, 1) :: (found, count) :: rows
    else if version = found then (found, count + 1) :: rows
    else (found, count) :: countIn version rows

theorem mem_countIn {version other : String} {rows : List (String × Nat)} :
    other ∈ (countIn version rows).map Prod.fst ↔ other = version ∨ other ∈ rows.map Prod.fst := by
  induction rows with
  | nil => simp [countIn]
  | cons row rows ih =>
    obtain ⟨found, count⟩ := row
    rw [countIn]
    split
    · simp
    · split
      · rename_i hsame
        subst hsame
        simp
      · simp only [List.map_cons, List.mem_cons, ih]
        constructor
        · rintro (h | h | h) <;> simp [h]
        · rintro (h | h | h) <;> simp [h]

theorem pairwise_countIn {version : String} {rows : List (String × Nat)}
    (hincreasing : (rows.map Prod.fst).Pairwise (· < ·)) :
    ((countIn version rows).map Prod.fst).Pairwise (· < ·) := by
  induction rows with
  | nil => simp [countIn]
  | cons row rows ih =>
    obtain ⟨found, count⟩ := row
    obtain ⟨hleast, hrest⟩ := List.pairwise_cons.1 hincreasing
    rw [countIn]
    split
    · rename_i hbefore
      refine List.pairwise_cons.2 ⟨fun other hother => ?_, hincreasing⟩
      rcases List.mem_cons.1 hother with rfl | hother
      · exact hbefore
      · exact String.lt_trans hbefore (hleast other hother)
    · split
      · exact hincreasing
      · rename_i hnotBefore hdifferent
        have hafter : found < version :=
          String.not_le.1 fun habove =>
            hnotBefore (String.not_le.1 fun hbelow =>
              hdifferent (String.le_antisymm habove hbelow))
        refine List.pairwise_cons.2 ⟨fun other hother => ?_, ih hrest⟩
        rcases mem_countIn.1 hother with rfl | hother
        · exact hafter
        · exact hleast other hother

def empty : VersionCounts := ⟨[], by simp⟩

def add (version : String) (counts : VersionCounts) : VersionCounts :=
  ⟨countIn version counts.rows, pairwise_countIn counts.increasing⟩

/-- The count of a version in rows. -/
def countOf (version : String) (rows : List (String × Nat)) : Nat :=
  ((rows.find? fun row => row.1 = version).map Prod.snd).getD 0

def count (counts : VersionCounts) (version : String) : Nat := countOf version counts.rows

end VersionCounts

inductive Status where
  | ok
  | error
  deriving Repr, DecidableEq

/-- What an analysis keeps across resources.  The status and the message of the last failure are
kept side by side; that one tells of the other is so in runs only. -/
structure Ledger where
  status : Status
  lastFailure : Option String
  found : VersionCounts
  deriving DecidableEq

namespace Ledger

def empty : Ledger := ⟨.ok, none, .empty⟩

def hasFailed (ledger : Ledger) : Bool := ledger.status = .error

/-- Counts one more class file of a compiler version. -/
def recordVersion (version : String) (ledger : Ledger) : Ledger :=
  { ledger with found := ledger.found.add version }

/-- Marks the analysis as failed. -/
def recordFailure (message : String) (ledger : Ledger) : Ledger :=
  { ledger with status := .error, lastFailure := some message }

end Ledger

end ClassCensus
