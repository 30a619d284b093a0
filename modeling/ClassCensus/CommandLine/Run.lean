import ClassCensus.Collection
import ClassCensus.CommandLine.Arguments
import ClassCensus.Report
import ClassCensus.Specification.Document

/-!
# Running the command line

A run loads the tables, collects the resources of all inputs, analyzes them and writes the report.
Nothing is written before all else has come to a good end; what class files hold never makes a run
fail.
-/

namespace ClassCensus.CommandLine

/-- Why a run fails.  What is not opened is a document that cannot be read, or the file that the
report is written to. -/
inductive RunFault where
  | notOpened (path : String)
  | noSpecification (path : String)
  | noVersionTable (path : String)
  | inputNotFound (path : String)
  | notCollected (path : String)
  deriving Repr, DecidableEq

def RunFault.message : RunFault → String
  | notOpened path => "failed to open " ++ path
  | noSpecification path => "failed to load specification " ++ path
  | noVersionTable path => "failed to load version table " ++ path
  | inputNotFound path => "input not found: " ++ path
  | notCollected path => "failed to collect class files from " ++ path

variable {m : Type → Type} [Monad m]

def loadDocument {α : Type} (files : FileAccess m) (fault : RunFault)
    (load : List UInt8 → Except DocumentFault α) (path : String) : ExceptT RunFault m α := do
  match ← files.read path with
  | .ok octets =>
    match load octets with
    | .ok loaded => return loaded
    | .error _ => throw fault
  | .error .isADirectory => throw fault
  | .error _ => throw (.notOpened path)

/-- Loads the document that is named, or takes what is built in if none is. -/
def loadNamed {α : Type} (files : FileAccess m) (fault : String → RunFault)
    (load : List UInt8 → Except DocumentFault α) (builtin : α) :
    Option String → ExceptT RunFault m α
  | some path => loadDocument files (fault path) load path
  | none => return builtin

/-- Collects the resources of an input, which has to be there. -/
def collectInput (files : FileAccess m) (path : String) :
    ExceptT RunFault m (List Resource) := do
  match ← files.look path with
  | .error _ => throw (.inputNotFound path)
  | .ok tree =>
    match ← (Collection.ofTree files.read path tree).run with
    | .ok resources => return resources
    | .error _ => throw (.notCollected path)

namespace Settings

def loadTables (files : FileAccess m) (settings : Settings) : ExceptT RunFault m Analyzer := do
  let specifications ←
    loadNamed files .noSpecification Specifications.load .builtin settings.specification
  let versions ← loadNamed files .noVersionTable VersionTable.load .builtin settings.versions
  return ⟨specifications, versions⟩

/-- The report that the settings ask for. -/
def report (files : FileAccess m) (settings : Settings) : ExceptT RunFault m String := do
  let analyzer ← settings.loadTables files
  let resources := (← settings.inputs.mapM (collectInput files)).flatten
  let loaded ← resources.mapM fun resource => ExceptT.lift (resource.load files.read)
  let (analyzed, ledger) := analyzer.analyze loaded
  return Report.text settings.withPool analyzed ledger ++ "\n"

/-- Writes the report to the file that the settings name, or answers it to be printed. -/
def run (files : FileAccess m) (settings : Settings) : ExceptT RunFault m String := do
  let text ← settings.report files
  match settings.outputFile? with
  | none => return text
  | some path =>
    match ← files.write path text with
    | .ok _ => return ""
    | .error _ => throw (.notOpened path)

end Settings

/-- What a program leaves behind.  The complaint is the message on the standard error output: the
outermost one of a run that fails, without its causes and without what was logged. -/
structure Exit where
  exitCode : UInt32
  output : String
  complaint : String
  deriving Repr, DecidableEq

def versionText : String := "jar-inspector 0.1.0\n"

/-- The first lines of the help. -/
def usageText : String := "Usage: jar-inspector [OPTIONS] <INPUT>...\n"

def helpText : String :=
  "Reports compiler versions, constant pools and referenced classes of JVM class files and " ++
  "archives.\n\n" ++ usageText ++ "
Arguments:
  <INPUT>...  Class files, archives (.jar, .zip, .war, .ear) or directories to inspect

Options:
      --output <PATH>         Where to write the JSON report; `-` is stdout
      --specification <PATH>  JSON file replacing the built-in specification tables
      --versions <PATH>       JSON file replacing the built-in version table
      --constant-pool         Include the constant pool of every class file in the report
      --verbose               Log debug messages
  -h, --help                  Print help
  -V, --version               Print version
"

/-- Runs the program. -/
def run (files : FileAccess m) (arguments : List String) : m Exit := do
  match Request.read arguments with
  | .error fault => return ⟨2, "", "error: " ++ fault.message ++ "\n\n" ++ usageText⟩
  | .ok .help => return ⟨0, helpText, ""⟩
  | .ok .version => return ⟨0, versionText, ""⟩
  | .ok (.inspect settings) =>
    match ← (settings.run files).run with
    | .ok text => return ⟨0, text, ""⟩
    | .error fault => return ⟨1, "", "Error: " ++ fault.message ++ "\n"⟩

end ClassCensus.CommandLine
