import ClassCensus.Proofs.Analysis.Resources

/-!
# Runs of an analysis

A run is a row of calls that share a ledger.  Each call takes any resource, with what its source
yields by then; a resource may come again, and its source may have changed.  What the ledger gains
in a call is read off the resource that the call leaves, so behind a run the ledger is the tally of
the resources that were left.  A tally does not depend on the order of the resources, but for the
message of the last failure, and the tallies of two runs add up.
-/

namespace ClassCensus

/-! ## Tallies -/

namespace Ledger

/-- That a ledger is the tally of the resources that calls have left, in their order. -/
structure Tallies (ledger : Ledger) (calls : List Resource) : Prop where
  count : ∀ version, ledger.found.count version =
    calls.countP fun resource => resource.compiler? = some version
  versions : ∀ version, version ∈ ledger.found.versions ↔
    ∃ resource ∈ calls, resource.compiler? = some version
  hasFailed : ledger.hasFailed = calls.any fun resource => resource.failure?.isSome
  lastFailure : ledger.lastFailure = (calls.filterMap Resource.failure?).getLast?

namespace Tallies

variable {ledger other : Ledger} {calls others : List Resource}

theorem empty : Ledger.empty.Tallies [] where
  count := VersionCounts.count_empty
  versions version := iff_of_false (VersionCounts.not_mem_versions_empty version) (by simp)
  hasFailed := rfl
  lastFailure := rfl

/-- A ledger stays a tally when it gains what one more call has left. -/
theorem gain (htallies : ledger.Tallies calls) (resource : Resource) :
    (ledger.gain resource).Tallies (calls ++ [resource]) where
  count version := by
    rw [count_gain, htallies.count, List.countP_append, List.countP_singleton]
    simp only [decide_eq_true_eq]
  versions version := by
    rw [mem_versions_gain, htallies.versions]
    simp [or_and_right, exists_or]
  hasFailed := by
    rw [hasFailed_gain, htallies.hasFailed, List.any_append, Bool.or_comm]
    simp
  lastFailure := by
    rw [lastFailure_gain, htallies.lastFailure, List.filterMap_append, List.getLast?_append]
    cases hfailure : resource.failure? <;> simp [hfailure]

theorem hasFailed_iff (htallies : ledger.Tallies calls) : ledger.hasFailed = true ↔
    ∃ resource ∈ calls, resource.finding.isValid = true ∧
      resource.finding.fault?.isSome = true := by
  simp only [htallies.hasFailed, List.any_eq_true, Resource.isSome_failure?_iff]

/-- The status and the message are written side by side, so each tells of the other. -/
theorem hasFailed_iff_isSome (htallies : ledger.Tallies calls) :
    ledger.hasFailed = true ↔ ledger.lastFailure.isSome = true := by
  rw [htallies.lastFailure, List.getLast?_isSome, ne_eq, List.filterMap_eq_nil_iff,
    htallies.hasFailed]
  simp only [List.any_eq_true, Classical.not_forall, exists_prop, ← ne_eq,
    Option.ne_none_iff_isSome]

section

variable {whole : Ledger} (hwhole : whole.Tallies (calls ++ others))
  (htallies : ledger.Tallies calls) (hother : other.Tallies others)

include hwhole htallies hother

theorem count_append (version : String) :
    whole.found.count version = ledger.found.count version + other.found.count version := by
  rw [hwhole.count, htallies.count, hother.count, List.countP_append]

theorem versions_append (version : String) : version ∈ whole.found.versions ↔
    version ∈ ledger.found.versions ∨ version ∈ other.found.versions := by
  rw [hwhole.versions, htallies.versions, hother.versions]
  simp [or_and_right, exists_or]

theorem hasFailed_append : whole.hasFailed = (ledger.hasFailed || other.hasFailed) := by
  rw [Bool.eq_iff_iff, Bool.or_eq_true, hwhole.hasFailed_iff, htallies.hasFailed_iff,
    hother.hasFailed_iff]
  simp [or_and_right, exists_or]

end

/-- Tallies of the same calls in another order have found the same. -/
theorem found_eq (htallies : ledger.Tallies calls) (hother : other.Tallies others)
    (hperm : calls.Perm others) : ledger.found = other.found := by
  apply VersionCounts.ext_count
  · intro version
    rw [htallies.versions, hother.versions]
    simp only [hperm.mem_iff]
  · intro version
    rw [htallies.count, hother.count, hperm.countP_eq]

theorem hasFailed_eq (htallies : ledger.Tallies calls) (hother : other.Tallies others)
    (hperm : calls.Perm others) : ledger.hasFailed = other.hasFailed := by
  rw [Bool.eq_iff_iff, htallies.hasFailed_iff, hother.hasFailed_iff]
  simp only [hperm.mem_iff]

end Tallies

end Ledger

/-! ## Runs -/

namespace Analyzer

variable {analyzer : Analyzer} {calls : List Resource} {ledger : Ledger}

/-- The runs of an analyzer: the resources that its calls have left, and the ledger behind them. -/
inductive Runs (analyzer : Analyzer) : List Resource → Ledger → Prop where
  | start : Runs analyzer [] .empty
  | call {calls : List Resource} {ledger : Ledger} (loaded : LoadedResource) :
    Runs analyzer calls ledger →
    Runs analyzer (calls ++ [(analyzer.analyzeResource loaded ledger).1])
      (analyzer.analyzeResource loaded ledger).2

/-- Behind every run the ledger is a tally. -/
theorem Runs.tallies (hruns : analyzer.Runs calls ledger) : ledger.Tallies calls := by
  induction hruns with
  | start => exact .empty
  | call loaded _ ih =>
      rw [analyzeResource_eq]
      exact ih.gain (analyzer.examined loaded)

theorem foldl_analyzeResource (analyzer : Analyzer) (loaded : List LoadedResource)
    (analyzed : List Resource) (ledger : Ledger) :
    loaded.foldl (fun state one =>
        ((analyzer.analyzeResource one state.2).1 :: state.1,
          (analyzer.analyzeResource one state.2).2))
      (analyzed, ledger) =
    ((loaded.map analyzer.examined).reverse ++ analyzed,
      (loaded.map analyzer.examined).foldl Ledger.gain ledger) := by
  induction loaded generalizing analyzed ledger with
  | nil => rfl
  | cons first loaded ih =>
      rw [List.foldl_cons, ih, analyzeResource_eq]
      simp

/-- The analysis of a list examines one resource after the other. -/
theorem analyzeFrom_eq (analyzer : Analyzer) (ledger : Ledger) (loaded : List LoadedResource) :
    analyzer.analyzeFrom ledger loaded =
      (loaded.map analyzer.examined, (loaded.map analyzer.examined).foldl Ledger.gain ledger) := by
  simp only [analyzeFrom, foldl_analyzeResource, List.append_nil, List.reverse_reverse]

theorem fst_analyze (analyzer : Analyzer) (loaded : List LoadedResource) :
    (analyzer.analyze loaded).1 = loaded.map analyzer.examined := by
  rw [analyze, analyzeFrom_eq]

/-- A run goes on with the analysis of a list. -/
theorem Runs.analyzeFrom (hruns : analyzer.Runs calls ledger) (loaded : List LoadedResource) :
    analyzer.Runs (calls ++ (analyzer.analyzeFrom ledger loaded).1)
      (analyzer.analyzeFrom ledger loaded).2 := by
  simp only [analyzeFrom_eq]
  induction loaded generalizing calls ledger with
  | nil => simpa using hruns
  | cons first loaded ih =>
      have hrest := ih (hruns.call first)
      simpa [analyzeResource_eq] using hrest

theorem runs_analyze (analyzer : Analyzer) (loaded : List LoadedResource) :
    analyzer.Runs (analyzer.analyze loaded).1 (analyzer.analyze loaded).2 :=
  Runs.start.analyzeFrom loaded

/-- The ledger of a run is an exact tally of it: each version is counted once for each call that has
found it, and the message is that of the last call whose resource is in error and may be a class
file.  The ledger is out of order from the first such call on.  The analysis of a list is a run,
which leaves for each resource what a call of its own would leave.  So the tallies of two lists add
up behind the lists in a row, and the order of a list only shows in the message. -/
theorem runs_tally (analyzer : Analyzer) :
    (∀ calls ledger, analyzer.Runs calls ledger →
      ledger.Tallies calls ∧ (ledger.hasFailed = true ↔ ledger.lastFailure.isSome = true) ∧
      (ledger.hasFailed = true ↔ ∃ resource ∈ calls,
        resource.finding.isValid = true ∧ resource.finding.fault?.isSome = true) ∧
      ∀ loaded, ledger.hasFailed = true →
        (analyzer.analyzeResource loaded ledger).2.hasFailed = true) ∧
    (∀ loaded, analyzer.Runs (analyzer.analyze loaded).1 (analyzer.analyze loaded).2 ∧
      (analyzer.analyze loaded).1 =
        loaded.map fun one => (analyzer.analyzeResource one .empty).1) ∧
    (∀ first second,
      (analyzer.analyze (first ++ second)).1 =
        (analyzer.analyze first).1 ++ (analyzer.analyze second).1 ∧
      (∀ version, (analyzer.analyze (first ++ second)).2.found.count version =
        (analyzer.analyze first).2.found.count version +
          (analyzer.analyze second).2.found.count version) ∧
      (∀ version, version ∈ (analyzer.analyze (first ++ second)).2.found.versions ↔
        version ∈ (analyzer.analyze first).2.found.versions ∨
          version ∈ (analyzer.analyze second).2.found.versions) ∧
      (analyzer.analyze (first ++ second)).2.hasFailed =
        ((analyzer.analyze first).2.hasFailed || (analyzer.analyze second).2.hasFailed)) ∧
    ∀ first second, first.Perm second →
      (analyzer.analyze first).1.Perm (analyzer.analyze second).1 ∧
      (analyzer.analyze first).2.found = (analyzer.analyze second).2.found ∧
      (analyzer.analyze first).2.hasFailed = (analyzer.analyze second).2.hasFailed := by
  have htallies : ∀ loaded, (analyzer.analyze loaded).2.Tallies (analyzer.analyze loaded).1 := by
    intro loaded
    exact (analyzer.runs_analyze loaded).tallies
  refine ⟨?_, ?_, ?_, ?_⟩
  · intro calls ledger hruns
    refine ⟨hruns.tallies, hruns.tallies.hasFailed_iff_isSome, hruns.tallies.hasFailed_iff, ?_⟩
    intro loaded hfailed
    rw [analyzeResource_eq, Ledger.hasFailed_gain, hfailed, Bool.or_true]
  · intro loaded
    refine ⟨analyzer.runs_analyze loaded, ?_⟩
    simp only [fst_analyze, analyzeResource_eq]
  · intro first second
    have hresources : (analyzer.analyze (first ++ second)).1 =
        (analyzer.analyze first).1 ++ (analyzer.analyze second).1 := by
      simp only [fst_analyze, List.map_append]
    have hwhole := htallies (first ++ second)
    rw [hresources] at hwhole
    exact ⟨hresources, hwhole.count_append (htallies first) (htallies second),
      hwhole.versions_append (htallies first) (htallies second),
      hwhole.hasFailed_append (htallies first) (htallies second)⟩
  · intro first second hperm
    have hresources : (analyzer.analyze first).1.Perm (analyzer.analyze second).1 := by
      simp only [fst_analyze]
      exact hperm.map _
    exact ⟨hresources, (htallies first).found_eq (htallies second) hresources,
      (htallies first).hasFailed_eq (htallies second) hresources⟩

/-- A class file that is whole, and the same one cut off in its body. -/
def wholeAndCut : List LoadedResource := [dangling, (dangling.1, .ok (danglingOctets.take 20))]

/-- Both are counted, in either order, and one of them fails. -/
theorem runs_tally_wholeAndCut :
    (textsAndClasses.analyze wholeAndCut).2.found.count unknownVersion = 2 ∧
      (textsAndClasses.analyze wholeAndCut).2.hasFailed = true ∧
      (textsAndClasses.analyze wholeAndCut.reverse).2.found =
        (textsAndClasses.analyze wholeAndCut).2.found := by
  obtain ⟨hruns, hanalyze, -, hperm⟩ := runs_tally textsAndClasses
  obtain ⟨hrun, hresources⟩ := hanalyze wholeAndCut
  obtain ⟨htallies, -, hfailed, -⟩ := hruns _ _ hrun
  rw [hresources] at htallies hfailed
  refine ⟨?_, ?_, (hperm _ _ wholeAndCut.reverse_perm).2.1⟩
  · rw [htallies.count]
    decide +kernel
  · rw [hfailed]
    refine ⟨_, List.mem_cons_of_mem _ List.mem_cons_self, ?_, ?_⟩
    · decide +kernel
    · decide +kernel

end Analyzer

end ClassCensus
