import ClassCensus.CommandLine.Run
import ClassCensus.Proofs.Files.Reading
import ClassCensus.Proofs.Outcomes

/-!
# Reports of the command line

What a report takes, and what stands in its way.  Up to the report a run only reads: it loads the
tables, collects the resources of its inputs and analyzes them.  Either all of this comes to a good
end, or a document cannot be loaded, nothing is where an input should be, or the resources of an
input cannot be collected.
-/

namespace ClassCensus.CommandLine

open FileTree

variable {tree : FileTree (List UInt8)}

/-! ## What a run needs -/

/-- That the document that is named is loaded as a value, or the value is built in if none is. -/
inductive LoadsNamed {α : Type} (tree : FileTree (List UInt8))
    (load : List UInt8 → Except DocumentFault α) (builtin : α) : Option String → α → Prop
  | named {path : String} {octets : List UInt8} {value : α} : tree.read path = .ok octets →
    load octets = .ok value → LoadsNamed tree load builtin (some path) value
  | builtin : LoadsNamed tree load builtin none builtin

/-- That the document that is named cannot be loaded, and the fault that is found. -/
inductive FailsNamed {α : Type} (tree : FileTree (List UInt8))
    (load : List UInt8 → Except DocumentFault α) (refusal : String → RunFault) :
    Option String → RunFault → Prop
  | unread {path : String} {cause : FileFault} : tree.read path = .error cause →
    cause ≠ .isADirectory → FailsNamed tree load refusal (some path) (.notOpened path)
  | directory {path : String} : tree.read path = .error .isADirectory →
    FailsNamed tree load refusal (some path) (refusal path)
  | malformed {path : String} {octets : List UInt8} {cause : DocumentFault} :
    tree.read path = .ok octets → load octets = .error cause →
    FailsNamed tree load refusal (some path) (refusal path)

namespace Settings

/-- That an analyzer has the tables that settings name, and those built in where they name none. -/
structure Loads (settings : Settings) (tree : FileTree (List UInt8)) (analyzer : Analyzer) :
    Prop where
  specifications : LoadsNamed tree Specifications.load .builtin settings.specification
    analyzer.specifications
  versions : LoadsNamed tree VersionTable.load .builtin settings.versions analyzer.versions

/-- That a document cannot be loaded, nothing is where an input should be, or the resources of an
input cannot be collected. -/
inductive IsBlockedBy (settings : Settings) (tree : FileTree (List UInt8)) : RunFault → Prop
  | specification {fault : RunFault} :
    FailsNamed tree Specifications.load .noSpecification settings.specification fault →
    IsBlockedBy settings tree fault
  | versions {fault : RunFault} :
    FailsNamed tree VersionTable.load .noVersionTable settings.versions fault →
    IsBlockedBy settings tree fault
  | missing {path : String} {cause : FileFault} : path ∈ settings.inputs →
    tree.find path = .error cause → IsBlockedBy settings tree (.inputNotFound path)
  | uncollected {path : String} {found : FileTree (List UInt8)} {cause : CollectionFault} :
    path ∈ settings.inputs → tree.find path = .ok found →
    (Collection.ofTree tree.reader path found.shape).run = .error cause →
    IsBlockedBy settings tree (.notCollected path)

end Settings

/-! ## Reading -/

section Document

variable {α : Type} {fault : RunFault} {load : List UInt8 → Except DocumentFault α} {path : String}

end Document

section Named

variable {α : Type} {refusal : String → RunFault} {load : List UInt8 → Except DocumentFault α}
  {builtin value : α} {path : Option String}

end Named

section Input

variable {path : String}

end Input

end ClassCensus.CommandLine
