import ClassCensus.Text.Hex
import Std.Data.TreeMap

/-!
# Compiler versions

The first eight octets of a class file, written in hexadecimal, are looked up in a table of
compiler versions.  The table keeps its rows under their codes in lower case, each in place of an
earlier one with the same code; so letter case does not matter, the last row for a code counts, and
a header without row is `unknownVersion`.
-/

namespace ClassCensus

/-- The number at the start of every class file. -/
def classFileMagic : UInt32 := 0xCAFEBABE

/-- The minor version of class files that depend on preview features. -/
def previewMinor : UInt16 := 0xFFFF

/-- The version of a class file. -/
structure ClassVersion where
  major : UInt16
  minor : UInt16
  deriving Repr, DecidableEq

namespace ClassVersion

/-- The version as text, such as `52.0`. -/
def text (version : ClassVersion) : String :=
  toString version.major.toNat ++ "." ++ toString version.minor.toNat

/-- Whether the class file depends on preview features. -/
def isPreview (version : ClassVersion) : Bool := version.minor == previewMinor

end ClassVersion

/-- The code of a header: eight digits of the magic number, four of the minor version and four of
the major version. -/
def headerCode (magic : UInt32) (minor major : UInt16) : String :=
  Hex.padded 8 magic.toNat ++ Hex.padded 4 minor.toNat ++ Hex.padded 4 major.toNat

/-- A row of a version table: the code of a header, in letters of either case, and a compiler
version. -/
structure VersionRow where
  code : String
  version : String
  deriving Repr, DecidableEq

/-- Letters from `A` to `Z` in lower case, all else as it is. -/
def lowerAscii (text : String) : String := text.map Char.toLower

/-- A table of compiler versions under codes in lower case. -/
structure VersionTable where
  versions : Std.TreeMap String String

/-- The version of headers that are in no row. -/
def unknownVersion : String := "unknown"

namespace VersionTable

/-- The versions with those of rows put under their codes. -/
def putRows (versions : Std.TreeMap String String) (rows : List VersionRow) :
    Std.TreeMap String String :=
  rows.foldl (fun versions row => versions.insert (lowerAscii row.code) row.version) versions

def ofRows (rows : List VersionRow) : VersionTable := ⟨putRows ∅ rows⟩

def lookup (table : VersionTable) (magic : UInt32) (minor major : UInt16) : String :=
  (table.versions[headerCode magic minor major]?).getD unknownVersion

/-- The compiler versions with the class file version each of them writes. -/
def releases : List (ClassVersion × String) :=
  [
    (⟨45, 3⟩, "1.1"), (⟨46, 0⟩, "1.2"), (⟨47, 0⟩, "1.3"), (⟨48, 0⟩, "1.4"), (⟨49, 0⟩, "1.5"),
    (⟨50, 0⟩, "1.6"), (⟨51, 0⟩, "1.7"), (⟨52, 0⟩, "1.8"), (⟨53, 0⟩, "9"), (⟨54, 0⟩, "10"),
    (⟨55, 0⟩, "11"), (⟨56, 0⟩, "12"), (⟨57, 0⟩, "13"), (⟨58, 0⟩, "14"), (⟨59, 0⟩, "15"),
    (⟨60, 0⟩, "16"), (⟨61, 0⟩, "17"), (⟨62, 0⟩, "18"), (⟨63, 0⟩, "19"), (⟨64, 0⟩, "20"),
    (⟨65, 0⟩, "21"), (⟨66, 0⟩, "22"), (⟨67, 0⟩, "23"), (⟨68, 0⟩, "24"), (⟨69, 0⟩, "25")
  ]

/-- The first major version whose class files may depend on preview features. -/
def firstPreviewMajor : UInt16 := 56

/-- The built-in table: the releases, the same with preview features, and version 45.0, which some
early compilers wrote. -/
def builtin : VersionTable :=
  let row (version : ClassVersion) (compiler : String) : VersionRow :=
    ⟨headerCode classFileMagic version.minor version.major, compiler⟩
  let previews := releases.filter fun release => firstPreviewMajor ≤ release.1.major
  .ofRows <|
    releases.map (fun release => row release.1 release.2) ++
      previews.map (fun release => row ⟨release.1.major, previewMinor⟩ release.2) ++
      [row ⟨45, 0⟩ "1.1"]

end VersionTable

end ClassCensus
