import ClassCensus.Analysis.Analyzer
import ClassCensus.Proofs.Analysis.Ledger
import ClassCensus.Proofs.Analysis.Stages

/-!
# What an analysis writes

An analysis writes each part of a finding on its own, on top of whatever stands there, and where it
fails it clears some of them again.  Which parts it comes to write is told by how the stages of
decoding end (`fill_eq`).  All parts are dropped beforehand, so nothing that was found earlier shows
through, and a call leaves the resource as examined and the ledger with what that tells entered
(`analyzeResource_eq`).  It takes how decoding ends to see that a resource is only marked as no
class file where nothing was written to it: no stage behind the header fails in that way.
-/

namespace ClassCensus

/-! ## Writing stage by stage -/

/-- A finding with what a header says in it. -/
def Finding.withHeader (finding : Finding) (header : Header) : Finding :=
  { finding with version? := some header.version, compiler? := some header.compiler }

/-- What is written to a resource and a ledger, on top of what they hold: each stage that was passed
writes its parts, and the header is counted. -/
def Decoding.written (resource : Resource) (ledger : Ledger) :
    Decoding → EStateM.Result ResourceFault (Resource × Ledger) Unit
  | noHeader fault _ => .error (.undecodable fault) (resource, ledger)
  | noPool header fault _ =>
    .error (.undecodable fault)
      ({ resource with finding := resource.finding.withHeader header.value },
        ledger.recordVersion header.value.compiler)
  | noBody header pool fault _ =>
    .error (.undecodable fault)
      ({ resource with
          finding := { resource.finding.withHeader header.value with pool? := some pool.value } },
        ledger.recordVersion header.value.compiler)
  | complete header pool classFile references =>
    .ok ()
      ({ resource with
          finding := { resource.finding.withHeader header.value with
            pool? := some pool.value
            references := references ∪ pool.value.namedClasses
            classFile? := some classFile.value } },
        ledger.recordVersion header.value.compiler)

namespace Analysis

variable {α β : Type} {state between : Resource × Ledger}

theorem bind_of_ok {step : Analysis α} {value : α} (hstep : step state = .ok value between)
    (next : α → Analysis β) : (step >>= next) state = next value between := by
  simp only [bind, EStateM.bind, hstep]

theorem bind_of_error {step : Analysis α} {fault : ResourceFault}
    (hstep : step state = .error fault between) (next : α → Analysis β) :
    (step >>= next) state = .error fault between := by
  simp only [bind, EStateM.bind, hstep]

section

variable {decoder : Decoder α} {before after : Cursor}

theorem stage_of_ok {value : α} (hdecoder : decoder before = .ok value after) :
    stage decoder before state = .ok (value, after) state := by
  rw [stage, hdecoder]
  rfl

theorem stage_of_error {fault : Fault} (hdecoder : decoder before = .error fault after) :
    stage decoder before state = .error (.undecodable fault) state := by
  rw [stage, hdecoder]
  rfl

end

variable {versions : VersionTable} {before after : Cursor} {resource : Resource} {ledger : Ledger}

theorem resolveVersion_of_ok {version : ClassVersion}
    (hheader : Decoder.header before = .ok version after) :
    resolveVersion versions before (resource, ledger) =
      .ok (Analyzer.headerOf versions version, after)
        (resource, ledger.recordVersion (Analyzer.headerOf versions version).compiler) := by
  rw [resolveVersion, bind_of_ok (stage_of_ok hheader)]
  rfl

theorem resolveVersion_of_error {fault : Fault}
    (hheader : Decoder.header before = .error fault after) :
    resolveVersion versions before (resource, ledger) =
      .error (.undecodable fault) (resource, ledger) := by
  rw [resolveVersion, bind_of_error (stage_of_error hheader)]

end Analysis

namespace Analyzer

open Analysis

variable {analyzer : Analyzer} {octets : List UInt8}

/-- The steps of an analysis write what the stages of decoding tell, on top of anything. -/
theorem fill_eq (analyzer : Analyzer) (octets : List UInt8) (resource : Resource)
    (ledger : Ledger) :
    analyzer.fill (.ok octets) (resource, ledger) =
      (analyzer.decode octets).written resource ledger := by
  have hdecodes := analyzer.decodes_decode octets
  generalize analyzer.decode octets = decoding at hdecodes ⊢
  have hopened : opened (.ok octets) (resource, ledger) =
      .ok (.start octets) (resource, ledger) := rfl
  rw [fill, bind_of_ok hopened]
  cases hdecodes with
  | noHeader hheader =>
      rw [bind_of_error (resolveVersion_of_error hheader)]
      rfl
  | noPool hheader hpool =>
      rw [bind_of_ok (resolveVersion_of_ok hheader)]
      exact bind_of_error (stage_of_error hpool) _
  | noBody hheader hpool hbody =>
      rw [bind_of_ok (resolveVersion_of_ok hheader)]
      exact (bind_of_ok (stage_of_ok hpool) _).trans (bind_of_error (stage_of_error hbody) _)
  | complete hheader hpool hbody =>
      rw [bind_of_ok (resolveVersion_of_ok hheader)]
      exact (bind_of_ok (stage_of_ok hpool) _).trans (bind_of_ok (stage_of_ok hbody) _)

end Analyzer

/-! ## Calls -/

/-- What is found by decoding, whatever was found before. -/
def Decoding.finding : Decoding → Finding
  | noHeader fault _ =>
    { Finding.nothing with
      isValid := match fault with
        | .notAClassFile _ => false
        | _ => true
      fault? := some (.undecodable fault) }
  | noPool header fault _ =>
    { Finding.nothing.withHeader header.value with fault? := some (.undecodable fault) }
  | noBody header pool fault _ =>
    { Finding.nothing.withHeader header.value with
      pool? := some pool.value
      fault? := some (.undecodable fault) }
  | complete header pool classFile references =>
    { Finding.nothing.withHeader header.value with
      pool? := some pool.value
      references := references ∪ pool.value.namedClasses
      classFile? := some classFile.value }

theorem Resource.reset_eq (resource : Resource) :
    resource.reset = { resource with finding := .nothing } :=
  rfl

namespace Analyzer

/-- What is found in what a source yields. -/
def examine (analyzer : Analyzer) : Except FileFault (List UInt8) → Finding
  | .ok octets => (analyzer.decode octets).finding
  | .error fault => { Finding.nothing with fault? := some (.unreadable fault) }

/-- A resource with what is found in what its source yields. -/
def examined (analyzer : Analyzer) (loaded : LoadedResource) : Resource :=
  { loaded.1 with finding := analyzer.examine loaded.2 }

/-- A call leaves the examined resource, and the ledger gains just that. -/
theorem analyzeResource_eq (analyzer : Analyzer) (loaded : LoadedResource) (ledger : Ledger) :
    analyzer.analyzeResource loaded ledger =
      (analyzer.examined loaded, ledger.gain (analyzer.examined loaded)) := by
  obtain ⟨resource, yielded⟩ := loaded
  cases yielded with
  | error fault => rfl
  | ok octets =>
      have hends := (analyzer.decodes_decode octets).ends
      rw [analyzeResource, fill_eq, Resource.reset_eq, examined, examine]
      -- The faults that decoding may end with tell which of the parts are cleared.
      generalize analyzer.decode octets = decoding at hends ⊢
      cases hends with
      | wrongMagic | unknownTag | shortHeader | shortPool | shortBody | complete => rfl

end Analyzer

end ClassCensus
