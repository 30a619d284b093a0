import ClassCensus.Proofs.Analysis.Filling
import ClassCensus.Proofs.ClassFile.ClassNames
import Mathlib.Logic.ExistsUnique

/-!
# What analysis makes of a resource

The references of a resource that was analyzed are closed over its class file: whatever the class
file takes from an index of a class is among them.  Every resource comes to one of three verdicts,
and each of them settles what is known of the resource and what the ledger gains.  Nothing that was
known before the analysis plays a part in it.
-/

namespace ClassCensus

namespace Analyzer

variable {analyzer : Analyzer} {octets : List UInt8}

/-! ## References -/

/-- The names of classes in a class file that was decoded are listed by its pool. -/
theorem mem_namedClasses_of_complete {header : Answer Header} {pool : Answer ConstantPool}
    {classFile : Answer ClassFile} {references : ClassNames}
    (hcomplete : analyzer.decode octets = .complete header pool classFile references) :
    ∀ name ∈ classFile.value.classNames, name = "" ∨ name ∈ pool.value.namedClasses := by
  have hdecodes := analyzer.decodes_decode octets
  rw [hcomplete] at hdecodes
  cases hdecodes with
  | complete hheader hpool hbody =>
      intro name hname
      obtain ⟨count, hindexed⟩ := Decoder.exists_indexed hpool
      refine (Decoder.knowsClass_classBody hbody name hname).imp_right fun hindex => ?_
      exact (ConstantPool.mem_namedClasses_iff hindexed).mpr hindex

/-- Only what was decoded to its end has a class file. -/
theorem classFile?_examine {yielded : Except FileFault (List UInt8)} {classFile : ClassFile}
    (hfound : (analyzer.examine yielded).classFile? = some classFile) :
    ∃ octets header pool parts references, yielded = .ok octets ∧ parts.value = classFile ∧
      analyzer.decode octets = .complete header pool parts references ∧
      (analyzer.examine yielded).references = references ∪ pool.value.namedClasses := by
  cases yielded with
  | error fault => cases hfound
  | ok octets =>
      rw [examine] at hfound ⊢
      cases hdecode : analyzer.decode octets with
      | noHeader | noPool | noBody =>
          rw [hdecode] at hfound
          cases hfound
      | complete header pool parts references =>
          rw [hdecode] at hfound
          exact ⟨octets, header, pool, parts, references, rfl, Option.some.inj hfound, hdecode, rfl⟩

/-- The classes named in a pool are those that an index leads to.  So when a resource was analyzed,
each name that its class file takes from an index of a class, at any depth, is a reference of the
resource, or empty because the index leads nowhere. -/
theorem references_closed :
    (∀ specification before pool after,
      Decoder.constantPool specification before = .ok pool after →
        ∀ name, name ∈ pool.namedClasses ↔ ∃ index, pool.className index = .ok name) ∧
    ∀ (analyzer : Analyzer) (loaded : LoadedResource) (ledger : Ledger) (classFile : ClassFile),
      (analyzer.analyzeResource loaded ledger).1.finding.classFile? = some classFile →
        ∀ name ∈ classFile.classNames,
          name = "" ∨ name ∈ (analyzer.analyzeResource loaded ledger).1.finding.references := by
  constructor
  · intro specification before pool after hpool name
    obtain ⟨count, hindexed⟩ := Decoder.exists_indexed hpool
    exact ConstantPool.mem_namedClasses_iff hindexed
  · intro analyzer loaded ledger classFile hfound name hname
    rw [analyzeResource_eq] at hfound ⊢
    obtain ⟨octets, header, pool, parts, references, -, rfl, hcomplete, hreferences⟩ :=
      classFile?_examine hfound
    refine (mem_namedClasses_of_complete hcomplete name hname).imp_right fun hlisted => ?_
    rw [examined, hreferences]
    exact ClassNames.mem_union.mpr (.inr hlisted)

/-- An analyzer that knows texts and classes, and no version. -/
def textsAndClasses : Analyzer where
  specifications.toList :=
    [.new [] [⟨1, .utf8, [⟨"utf8", .utf8⟩]⟩, ⟨7, .classInfo, [⟨ConstantPool.nameRole, .short⟩]⟩] []]
  specifications.nonempty := List.cons_ne_nil _ _
  versions := .ofRows []

/-- A class file with the text `A`, the class of that name, and index 9 in place of a superclass. -/
def danglingOctets : List UInt8 :=
  [0xCA, 0xFE, 0xBA, 0xBE, 0, 0, 0, 61, 0, 3, 1, 0, 1, 65, 7, 0, 1, 0, 33, 0, 2, 0, 9, 0, 0, 0, 0,
    0, 0, 0, 0]

/-- That class file before it is analyzed. -/
def dangling : LoadedResource := (.new "A.class" (.memory danglingOctets), .ok danglingOctets)

/-- The class itself is listed, so an index leads to it and it is a reference; the superclass whose
index leads nowhere is empty. -/
theorem references_closed_dangling :
    (∃ pool after,
      Decoder.constantPool (textsAndClasses.specificationOf ⟨61, 0⟩)
        ⟨danglingOctets.drop 8, 8, []⟩ = .ok pool after ∧
      ∃ index, pool.className index = .ok "A") ∧
    ∃ classFile,
      (textsAndClasses.analyzeResource dangling .empty).1.finding.classFile? = some classFile ∧
      classFile.classNames = ["A", ""] ∧
      "A" ∈ (textsAndClasses.analyzeResource dangling .empty).1.finding.references := by
  obtain ⟨hlisted, hclosed⟩ := references_closed
  constructor
  · have hclasses : (match Decoder.constantPool (textsAndClasses.specificationOf ⟨61, 0⟩)
        ⟨danglingOctets.drop 8, 8, []⟩ with
      | .ok pool _ => pool.namedClasses.toList
      | .error _ _ => []) = ["A"] := by
      decide +kernel
    split at hclasses
    next pool after hpool =>
      have hname : "A" ∈ pool.namedClasses := by simp [ClassNames.mem_def, hclasses]
      exact ⟨pool, after, hpool, (hlisted _ _ _ _ hpool "A").mp hname⟩
    next => cases hclasses
  · have hnames : (textsAndClasses.analyzeResource dangling .empty).1.finding.classFile?.map
        ClassFile.classNames = some ["A", ""] := by
      decide +kernel
    obtain ⟨classFile, hfound, hclass⟩ := Option.map_eq_some_iff.mp hnames
    refine ⟨classFile, hfound, hclass, ?_⟩
    have hname : "A" ∈ classFile.classNames := by simp [hclass]
    exact (hclosed _ dangling .empty classFile hfound "A" hname).resolve_left (by decide)

end Analyzer

/-! ## Verdicts -/

/-- What the analysis of a resource comes to. -/
inductive Verdict where
  | analyzed
  | refused
  | failed
  deriving Repr, DecidableEq

namespace Resource

/-- That a resource was analyzed, and no failure was recorded. -/
structure IsAnalyzed (resource : Resource) (before after : Ledger) : Prop where
  fault : resource.finding.fault? = none
  valid : resource.finding.isValid = true
  version : resource.finding.version?.isSome
  compiler : resource.compiler?.isSome
  pool : resource.finding.pool?.isSome
  classFile : resource.finding.classFile?.isSome
  hasFailed : after.hasFailed = before.hasFailed
  lastFailure : after.lastFailure = before.lastFailure

/-- That a resource is no class file, and the ledger stays as it was. -/
structure IsRefused (resource : Resource) (before after : Ledger) : Prop where
  fault : resource.finding.fault?.isSome
  valid : resource.finding.isValid = false
  version : resource.finding.version? = none
  compiler : resource.compiler? = none
  pool : resource.finding.pool? = none
  classFile : resource.finding.classFile? = none
  references : resource.finding.references = ∅
  ledger : after = before

/-- That the analysis of a resource failed, and that this is the last failure of the ledger. -/
structure HasFailed (resource : Resource) (after : Ledger) : Prop where
  fault : ∃ fault, resource.finding.fault? = some fault ∧
    after.lastFailure = some (resource.name ++ ": " ++ fault.message)
  hasFailed : after.hasFailed = true
  valid : resource.finding.isValid = true
  version : resource.finding.version?.isSome = resource.compiler?.isSome
  pool : resource.finding.pool?.isSome → resource.compiler?.isSome
  classFile : resource.finding.classFile? = none
  references : resource.finding.references = ∅

end Resource

/-- What a verdict says of a resource, and of the ledger before and after. -/
def Verdict.Describes (resource : Resource) (before after : Ledger) : Verdict → Prop
  | analyzed => resource.IsAnalyzed before after
  | refused => resource.IsRefused before after
  | failed => resource.HasFailed after

namespace Verdict

variable {resource : Resource} {before after : Ledger}

/-- No resource comes to two verdicts. -/
theorem Describes.unique {first second : Verdict} (hfirst : first.Describes resource before after)
    (hsecond : second.Describes resource before after) : first = second := by
  have hanalyzed : ∀ fault, resource.IsAnalyzed before after →
      resource.finding.fault? ≠ some fault := by
    intro fault hanalyzed hfault
    exact Option.some_ne_none fault (hfault.symm.trans hanalyzed.fault)
  have hrefused : resource.IsRefused before after → resource.finding.isValid ≠ true := by
    intro hrefused
    simp [hrefused.valid]
  cases first <;> cases second
  case analyzed.analyzed | refused.refused | failed.failed => rfl
  case analyzed.refused => exact (hrefused hsecond hfirst.valid).elim
  case refused.analyzed => exact (hrefused hfirst hsecond.valid).elim
  case failed.refused => exact (hrefused hsecond hfirst.valid).elim
  case refused.failed => exact (hrefused hfirst hsecond.valid).elim
  case analyzed.failed =>
    obtain ⟨fault, hfault, -⟩ := hsecond.fault
    exact (hanalyzed fault hfirst hfault).elim
  case failed.analyzed =>
    obtain ⟨fault, hfault, -⟩ := hfirst.fault
    exact (hanalyzed fault hsecond hfault).elim

end Verdict

namespace Analyzer

variable {analyzer : Analyzer} {octets : List UInt8}

/-- Every resource that was examined comes to a verdict. -/
theorem exists_describes (analyzer : Analyzer) (loaded : LoadedResource) (ledger : Ledger) :
    ∃ verdict : Verdict, verdict.Describes (analyzer.examined loaded) ledger
      (ledger.gain (analyzer.examined loaded)) := by
  obtain ⟨resource, yielded⟩ := loaded
  have hnone : ¬ (none : Option ConstantPool).isSome := by simp
  cases yielded with
  | error fault =>
      exact ⟨.failed, ⟨_, rfl, rfl⟩, rfl, rfl, rfl, fun hpool => absurd hpool hnone, rfl, rfl⟩
  | ok octets =>
      have hends := (analyzer.decodes_decode octets).ends
      rw [examined, examine]
      generalize analyzer.decode octets = decoding at hends ⊢
      cases hends with
      | complete header pool classFile references =>
          exact ⟨.analyzed, rfl, rfl, rfl, rfl, rfl, rfl, rfl, rfl⟩
      | wrongMagic => exact ⟨.refused, rfl, rfl, rfl, rfl, rfl, rfl, rfl, rfl⟩
      | shortHeader | unknownTag | shortPool =>
          exact ⟨.failed, ⟨_, rfl, rfl⟩, rfl, rfl, rfl, fun hpool => absurd hpool hnone, rfl, rfl⟩
      | shortBody => exact ⟨.failed, ⟨_, rfl, rfl⟩, rfl, rfl, rfl, fun _ => rfl, rfl, rfl⟩

/-- Only octets that start with another magic number are no class file. -/
theorem isValid_examine_eq_false_iff {yielded : Except FileFault (List UInt8)} :
    (analyzer.examine yielded).isValid = false ↔
      ∃ octets magic, yielded = .ok octets ∧ 4 ≤ octets.length ∧
        ofBigEndian (octets.take 4) = magic.toNat ∧ magic ≠ classFileMagic := by
  constructor
  · intro hvalid
    cases yielded with
    | error fault => cases hvalid
    | ok octets =>
        rw [examine] at hvalid
        cases hdecode : analyzer.decode octets with
        | noHeader fault stop =>
            rw [hdecode] at hvalid
            cases fault with
            | notAClassFile magic =>
                exact ⟨octets, magic, rfl, (wrong_magic_iff magic).mp ⟨stop, hdecode⟩⟩
            | _ => cases hvalid
        | _ =>
            rw [hdecode] at hvalid
            cases hvalid
  · rintro ⟨octets, magic, rfl, hmagic⟩
    obtain ⟨stop, hdecode⟩ := (@wrong_magic_iff analyzer octets magic).mpr hmagic
    rw [examine, hdecode]
    rfl

/-- Analyzing a resource keeps its name and its source, and comes to exactly one verdict: it is
analyzed; or it is no class file, which is so if its octets start with another magic number; or the
analysis fails.  The ledger counts one more of the compiler version, if that is known afterwards,
and nothing else.  What is found depends on what the source yields, whatever was found in the
resource before and whatever the ledger holds; so analyzing it again finds the same. -/
theorem analyzeResource_outcome (analyzer : Analyzer) (resource analyzed : Resource)
    (yielded : Except FileFault (List UInt8)) (before after : Ledger)
    (hcall : analyzer.analyzeResource (resource, yielded) before = (analyzed, after)) :
    analyzed.name = resource.name ∧ analyzed.source = resource.source ∧
    (∃! verdict : Verdict, verdict.Describes analyzed before after) ∧
    (Verdict.refused.Describes analyzed before after ↔
      ∃ octets magic, yielded = .ok octets ∧ 4 ≤ octets.length ∧
        ofBigEndian (octets.take 4) = magic.toNat ∧ magic ≠ classFileMagic) ∧
    (∀ version, after.found.count version =
      before.found.count version + if analyzed.compiler? = some version then 1 else 0) ∧
    (∀ version, version ∈ after.found.versions ↔
      version ∈ before.found.versions ∨ analyzed.compiler? = some version) ∧
    (after.found = before.found ↔ analyzed.compiler? = none) ∧
    (∀ (other : Resource) (ledger : Ledger),
      (analyzer.analyzeResource (other, yielded) ledger).1.finding = analyzed.finding) ∧
    ∀ ledger, (analyzer.analyzeResource (analyzed, yielded) ledger).1 = analyzed := by
  obtain ⟨rfl, rfl⟩ : analyzer.examined (resource, yielded) = analyzed ∧
      before.gain (analyzer.examined (resource, yielded)) = after :=
    Prod.mk.inj ((analyzer.analyzeResource_eq _ before).symm.trans hcall)
  obtain ⟨verdict, hverdict⟩ := analyzer.exists_describes (resource, yielded) before
  refine ⟨rfl, rfl, ⟨verdict, hverdict, ?_⟩, ?_, before.count_gain _, before.mem_versions_gain _,
    Ledger.found_gain_eq_iff, ?_, ?_⟩
  · intro other hother
    exact hother.unique hverdict
  · rw [← @isValid_examine_eq_false_iff analyzer yielded]
    constructor
    · intro hrefused
      exact hrefused.valid
    · intro hinvalid
      cases verdict with
      | refused => exact hverdict
      | analyzed => exact absurd (hinvalid.symm.trans hverdict.valid) (by decide)
      | failed => exact absurd (hinvalid.symm.trans hverdict.valid) (by decide)
  · intro other ledger
    rw [analyzeResource_eq]
    rfl
  · intro ledger
    rw [analyzeResource_eq]
    rfl

/-- That class file once it was analyzed, and its octets cut off in the body since then. -/
def analyzedAndCut : LoadedResource :=
  ((textsAndClasses.analyzeResource dangling .empty).1, .ok (danglingOctets.take 20))

/-- Its analysis fails, so it is counted and nothing is left of the class file that was found. -/
theorem analyzeResource_outcome_cut :
    analyzedAndCut.1.finding.classFile?.isSome = true ∧
    ∃ analyzed after,
      textsAndClasses.analyzeResource analyzedAndCut .empty = (analyzed, after) ∧
      analyzed.compiler? = some unknownVersion ∧ after.found.count unknownVersion = 1 ∧
      Verdict.failed.Describes analyzed .empty after := by
  have hwhole : analyzedAndCut.1.finding.classFile?.isSome = true := by decide +kernel
  have hcompiler : (textsAndClasses.examined analyzedAndCut).compiler? = some unknownVersion := by
    decide +kernel
  have hfault : (textsAndClasses.examined analyzedAndCut).finding.fault?.isSome = true := by
    decide +kernel
  have hcall := analyzeResource_eq textsAndClasses analyzedAndCut .empty
  obtain ⟨-, -, ⟨verdict, hverdict, -⟩, -, hcount, -⟩ :=
    analyzeResource_outcome textsAndClasses _ _ _ .empty _ hcall
  refine ⟨hwhole, _, _, hcall, hcompiler, ?_, ?_⟩
  · rw [hcount, if_pos hcompiler, Ledger.empty, VersionCounts.count_empty]
  · cases verdict with
    | failed => exact hverdict
    | analyzed => simp [hverdict.fault] at hfault
    | refused => simp [hverdict.compiler] at hcompiler

end Analyzer

end ClassCensus
