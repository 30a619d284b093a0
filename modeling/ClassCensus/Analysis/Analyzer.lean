import ClassCensus.Analysis.Decoding
import ClassCensus.Analysis.Ledger

/-!
# Analysis

A resource and the ledger are written to while the octets are decoded: each part of the finding as
soon as it is known, and the ledger as soon as the compiler version is.  What was written stays
where decoding fails, unless it is cleared.  One bad resource never touches another.
-/

namespace ClassCensus

/-- A step of the analysis of a resource.  It writes to the resource and to the ledger, and where
it fails, what it has written stays. -/
abbrev Analysis := EStateM ResourceFault (Resource × Ledger)

namespace Analysis

/-- Writes to what was found in the resource. -/
def write (change : Finding → Finding) : Analysis Unit :=
  modify fun (resource, ledger) => ({ resource with finding := change resource.finding }, ledger)

def enter (change : Ledger → Ledger) : Analysis Unit :=
  modify fun (resource, ledger) => (resource, change ledger)

/-- The start of what a source yields. -/
def opened : Except FileFault (List UInt8) → Analysis Cursor
  | .ok octets => return .start octets
  | .error fault => throw (.unreadable fault)

/-- Takes a stage of decoding, and answers where it has ended as well. -/
def stage {α : Type} (decoder : Decoder α) (before : Cursor) : Analysis (α × Cursor) :=
  match decoder before with
  | .ok value after => return (value, after)
  | .error fault _ => throw (.undecodable fault)

/-- Takes the header and counts its compiler version. -/
def resolveVersion (versions : VersionTable) (before : Cursor) : Analysis (Header × Cursor) := do
  let (version, after) ← stage Decoder.header before
  let header := Analyzer.headerOf versions version
  enter (Ledger.recordVersion header.compiler)
  return (header, after)

end Analysis

/-- What is left of an analysis that failed.  Its references and its class file are cleared, and
the failure is recorded under the name of the resource, unless that is no class file. -/
def Resource.failed (resource : Resource) (fault : ResourceFault) (ledger : Ledger) :
    Resource × Ledger :=
  let resource := { resource with finding.references := ∅ }
  let resource := { resource with finding.classFile? := none }
  let resource := { resource with finding.fault? := some fault }
  match fault with
  | .undecodable (.notAClassFile _) => ({ resource with finding.isValid := false }, ledger)
  | _ => (resource, ledger.recordFailure (resource.name ++ ": " ++ fault.message))

/-- A resource together with what its source yields. -/
abbrev LoadedResource := Resource × Except FileFault (List UInt8)

/-- Reads what the source of a resource yields. -/
def Resource.load {m : Type → Type} [Monad m] (reader : FileReader m) (resource : Resource) :
    m LoadedResource := do
  return (resource, ← resource.source.read reader)

namespace Analyzer

open Analysis

/-- Decodes what a source yields stage by stage and writes down what is found.  The references are
the classes mentioned in the body and the classes named in the pool. -/
def fill (analyzer : Analyzer) (yielded : Except FileFault (List UInt8)) : Analysis Unit := do
  let start ← opened yielded
  let (header, behindHeader) ← resolveVersion analyzer.versions start
  write fun finding => { finding with version? := some header.version }
  let specification := analyzer.specificationFor header
  write fun finding => { finding with compiler? := some header.compiler }
  let (pool, behindPool) ← stage (Decoder.constantPool specification) behindHeader
  write fun finding => { finding with pool? := some pool }
  let (classFile, after) ←
    stage (Decoder.classBody header.version ⟨pool, specification⟩) behindPool
  write fun finding => { finding with references := after.mentioned ∪ pool.namedClasses }
  write fun finding => { finding with classFile? := some classFile }

/-- Analyzes a resource in place of any earlier analysis of it. -/
def analyzeResource (analyzer : Analyzer) (loaded : LoadedResource) (ledger : Ledger) :
    Resource × Ledger :=
  match analyzer.fill loaded.2 (loaded.1.reset, ledger) with
  | .ok () left => left
  | .error fault (resource, ledger) => resource.failed fault ledger

/-- Analyzes resources in order, from a ledger on. -/
def analyzeFrom (analyzer : Analyzer) (ledger : Ledger) (loaded : List LoadedResource) :
    List Resource × Ledger :=
  let (analyzed, ledger) := loaded.foldl
    (fun (analyzed, ledger) resource =>
      let (resource, ledger) := analyzer.analyzeResource resource ledger
      (resource :: analyzed, ledger))
    ([], ledger)
  (analyzed.reverse, ledger)

def analyze (analyzer : Analyzer) (loaded : List LoadedResource) : List Resource × Ledger :=
  analyzer.analyzeFrom .empty loaded

end Analyzer

end ClassCensus
