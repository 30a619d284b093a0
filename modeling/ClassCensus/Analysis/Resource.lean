import ClassCensus.ClassFile.Basic
import ClassCensus.ClassNames
import ClassCensus.Constant.Pool
import ClassCensus.Files.Access

/-!
# Resources

A resource is a class file to be analyzed: a name, where its octets come from, and what was found
in them.  Every part of a finding is written on its own while the octets are decoded, so a finding
as such may be any mixture of parts.
-/

namespace ClassCensus

/-- Where octets come from: the file at a path, or octets at hand. -/
inductive OctetSource where
  | file (path : String)
  | memory (octets : List UInt8)
  deriving Repr, DecidableEq

def OctetSource.read {m : Type → Type} [Monad m] (reader : FileReader m) :
    OctetSource → m (Except FileFault (List UInt8))
  | file path => reader path
  | memory octets => return .ok octets

/-- Why a resource could not be analyzed: its octets cannot be read, or they are not a class file,
or not all of one. -/
inductive ResourceFault where
  | unreadable (fault : FileFault)
  | undecodable (fault : Fault)
  deriving Repr, DecidableEq

def ResourceFault.message : ResourceFault → String
  | unreadable fault => "Failed to read from buffer: " ++ fault.message
  | undecodable fault => fault.message

/-- What a header says: the version, and the compiler version it is known as. -/
structure Header where
  version : ClassVersion
  compiler : String
  deriving Repr, DecidableEq

/-- What was found in a resource.  The compiler version and the version are those of the header; a
resource is valid unless it is no class file. -/
structure Finding where
  compiler? : Option String
  version? : Option ClassVersion
  isValid : Bool
  pool? : Option ConstantPool
  references : ClassNames
  classFile? : Option ClassFile
  fault? : Option ResourceFault

namespace Finding

/-- What was found before anybody has looked. -/
def nothing : Finding where
  compiler? := none
  version? := none
  isValid := true
  pool? := none
  references := ∅
  classFile? := none
  fault? := none

def header? (finding : Finding) : Option Header := do
  return ⟨← finding.version?, ← finding.compiler?⟩

end Finding

/-- A class file to be analyzed.  The name is a path or one such as
`app.jar!/com/example/Main.class`. -/
structure Resource where
  name : String
  source : OctetSource
  finding : Finding

namespace Resource

def new (name : String) (source : OctetSource) : Resource := ⟨name, source, .nothing⟩

def compiler? (resource : Resource) : Option String := resource.finding.compiler?

/-- Drops whatever was found, one part after the other. -/
def reset (resource : Resource) : Resource :=
  let resource := { resource with finding.compiler? := none }
  let resource := { resource with finding.version? := none }
  let resource := { resource with finding.isValid := true }
  let resource := { resource with finding.pool? := none }
  let resource := { resource with finding.references := ∅ }
  let resource := { resource with finding.classFile? := none }
  { resource with finding.fault? := none }

end Resource

end ClassCensus
