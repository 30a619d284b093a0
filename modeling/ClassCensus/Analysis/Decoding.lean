import ClassCensus.Analysis.Resource
import ClassCensus.ClassFile.Decoder
import ClassCensus.Specification.Builtin
import ClassCensus.Specification.Versions

/-!
# Decoding in stages

A class file is decoded in three stages, each from where the one before it ended: the header, the
constant pool with the tables for the compiler version, and the body with the pool.  A `Decoding`
keeps what every stage has answered and where it ended.  It tells of octets alone; an analysis takes
the same stages and writes what they answer to a resource and a ledger.
-/

namespace ClassCensus

/-- What a stage has answered, and how many octets were taken by then. -/
structure Answer (α : Type) where
  value : α
  stop : Nat

/-- What the stages of decoding come to.  The first stage that fails is the last one, and `stop` is
how many octets were taken when it failed. -/
inductive Decoding where
  | noHeader (fault : Fault) (stop : Nat)
  | noPool (header : Answer Header) (fault : Fault) (stop : Nat)
  | noBody (header : Answer Header) (pool : Answer ConstantPool) (fault : Fault) (stop : Nat)
  | complete (header : Answer Header) (pool : Answer ConstantPool) (classFile : Answer ClassFile)
      (references : ClassNames)

/-- The tables that class files are analyzed with. -/
structure Analyzer where
  specifications : Specifications
  versions : VersionTable

namespace Analyzer

def builtin : Analyzer := ⟨.builtin, .builtin⟩

def headerOf (versions : VersionTable) (version : ClassVersion) : Header :=
  ⟨version, versions.lookup classFileMagic version.minor version.major⟩

def specificationFor (analyzer : Analyzer) (header : Header) : Specification :=
  analyzer.specifications.forVersion header.compiler

/-- Decodes octets stage by stage. -/
def decode (analyzer : Analyzer) (octets : List UInt8) : Decoding :=
  match Decoder.header (.start octets) with
  | .error fault after => .noHeader fault after.position
  | .ok version afterHeader =>
    let header := headerOf analyzer.versions version
    let specification := analyzer.specificationFor header
    match Decoder.constantPool specification afterHeader with
    | .error fault after => .noPool ⟨header, afterHeader.position⟩ fault after.position
    | .ok pool afterPool =>
      match Decoder.classBody version ⟨pool, specification⟩ afterPool with
      | .error fault after =>
        .noBody ⟨header, afterHeader.position⟩ ⟨pool, afterPool.position⟩ fault after.position
      | .ok classFile after =>
        .complete ⟨header, afterHeader.position⟩ ⟨pool, afterPool.position⟩
          ⟨classFile, after.position⟩ after.mentioned

end Analyzer

end ClassCensus
