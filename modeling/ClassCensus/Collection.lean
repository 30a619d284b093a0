import ClassCensus.Analysis.Resource
import ClassCensus.Zip.Archive

/-!
# Collecting resources

What an input path stands for: a class file, the class files in an archive, or those of all files
under a directory, in the order of their names.  Files are told apart by their extensions alone.
One archive that cannot be read makes the whole collection fail, and so does one directory whose
path is longer than any can be.
-/

namespace ClassCensus

/-- Why an archive or a directory cannot be read.  A file that is no archive, or uses a feature that
is not supported, is malformed; one that cannot be opened, ends too early or has damaged data is
unreadable. -/
inductive CollectionCause where
  | unreadable
  | malformed
  | notEntered
  deriving Repr, DecidableEq

/-- Why resources cannot be collected, and the path of the archive or directory that keeps them from
it. -/
structure CollectionFault where
  path : String
  cause : CollectionCause
  deriving Repr, DecidableEq

namespace Collection

/-- What stands between the path of an archive and the name of an entry in the name of a
resource. -/
def entrySeparator : String := "!/"

def classEnding : String := ".class"

def isClassEntry (name : String) : Bool := classEnding.toList.isSuffixOf name.toList

/-- The entries of which no later one has the same name. -/
def latest : List Zip.Entry → List Zip.Entry
  | [] => []
  | entry :: entries =>
    if entries.any fun other => other.name = entry.name then latest entries
    else entry :: latest entries

/-- The entries of class files in the order of their names, the last one of each name. -/
def classEntries (entries : List Zip.Entry) : List Zip.Entry :=
  (latest (entries.filter fun entry => isClassEntry entry.name)).mergeSort
    fun first second => decide (first.name ≤ second.name)

/-- The resource of an entry of the archive at a path. -/
def entryResource (path : String) (archive : Array UInt8) (entry : Zip.Entry) :
    Except Zip.ArchiveFault Resource := do
  let octets ← Zip.content archive entry
  return .new (path ++ entrySeparator ++ entry.name) (.memory octets)

def archiveResources (path : String) (archive : Array UInt8) :
    Except Zip.ArchiveFault (List Resource) := do
  (classEntries (← Zip.entries archive)).mapM (entryResource path archive)

def causeOf : Zip.ArchiveFault → CollectionCause
  | .malformed => .malformed
  | .cutShort | .damagedData => .unreadable

variable {m : Type → Type} [Monad m]

/-- The resources that a file stands for. -/
def ofFile (reader : FileReader m) (path : String) : ExceptT CollectionFault m (List Resource) :=
  match FileKind.ofPath path with
  | .classFile => return [.new path (.file path)]
  | .archive => do
    match ← reader path with
    | .error _ => throw ⟨path, .unreadable⟩
    | .ok octets =>
      match archiveResources path octets.toArray with
      | .error fault => throw ⟨path, causeOf fault⟩
      | .ok resources => return resources
  | .other => return []

/-- The resources that a place under a path stands for.  A directory stands for none of itself,
but its path has to lead there. -/
def ofPlace (reader : FileReader m) (path : String) :
    List String × Option Unit → ExceptT CollectionFault m (List Resource)
  | (names, some ()) => ofFile reader (Path.descendant path names)
  | (names, none) =>
    let place := Path.descendant path names
    if (Path.fault? place).isSome then throw ⟨place, .notEntered⟩ else return []

/-- The resources that a path stands for, at which a tree is: those of its places, in order. -/
def ofTree (reader : FileReader m) (path : String) (tree : FileTree Unit) :
    ExceptT CollectionFault m (List Resource) := do
  return (← tree.places.mapM (ofPlace reader path)).flatten

/-- The resources that a path stands for.  Where nothing is, a file is assumed. -/
def ofPath (files : FileAccess m) (path : String) : ExceptT CollectionFault m (List Resource) := do
  match ← files.look path with
  | .ok tree => ofTree files.read path tree
  | .error _ => ofFile files.read path

end Collection

end ClassCensus
