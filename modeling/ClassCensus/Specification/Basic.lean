import ClassCensus.Constant.Basic
import ClassCensus.Specification.Index

/-!
# Specification tables

A specification says, for a group of class file versions, how the constants under each tag are
laid out and what each opcode is called and followed by.  A tag or opcode that is listed more
than once is explained by its last row.
-/

namespace ClassCensus

/-- How a field of a constant is written: as a number of one, two, four or eight octets, or as a
text behind its length in two. -/
inductive FieldWidth where
  | byte
  | short
  | int
  | float
  | long
  | double
  | utf8
  deriving Repr, DecidableEq

namespace FieldWidth

def name : FieldWidth → String
  | byte => "byte"
  | short => "short"
  | int => "int"
  | float => "float"
  | long => "long"
  | double => "double"
  | utf8 => "utf8"

def all : List FieldWidth := [byte, short, int, float, long, double, utf8]

def ofName? (name : String) : Option FieldWidth := all.find? fun width => width.name = name

end FieldWidth

/-- A field that the constants under a tag have. -/
structure LayoutField where
  role : String
  width : FieldWidth
  deriving Repr, DecidableEq

/-- The layout of the constants under a tag. -/
structure ConstantLayout where
  tag : UInt8
  kind : ConstantKind
  fields : List LayoutField
  deriving Repr, DecidableEq

/-- What follows an opcode: a fixed number of octets, what a switch is written with, or a widened
opcode with its index and, for an increment, a constant. -/
inductive OperandLayout where
  | fixed (length : UInt8)
  | tableSwitch
  | lookupSwitch
  | wide
  deriving Repr, DecidableEq

/-- The name of an opcode and what follows it. -/
structure Mnemonic where
  opcode : UInt8
  name : String
  operands : OperandLayout
  deriving Repr, DecidableEq

/-- The tables for the class files of some compiler versions. -/
structure SpecificationTables where
  versions : List String
  constants : List ConstantLayout
  mnemonics : List Mnemonic
  deriving Repr, DecidableEq

/-- The positions of layouts by their tags, and of mnemonics by their opcodes. -/
structure SpecificationIndex where
  constants : RowIndex
  mnemonics : RowIndex
  deriving Repr, DecidableEq

def SpecificationTables.indices (tables : SpecificationTables) : SpecificationIndex where
  constants := .ofRows ConstantLayout.tag tables.constants
  mnemonics := .ofRows Mnemonic.opcode tables.mnemonics

/-- Tables with their indices.  Documents hold the tables alone. -/
structure Specification extends SpecificationTables where
  index : SpecificationIndex
  indexed : index = toSpecificationTables.indices
  deriving Repr, DecidableEq

namespace Specification

def ofTables (tables : SpecificationTables) : Specification where
  toSpecificationTables := tables
  index := tables.indices
  indexed := rfl

def new (versions : List String) (constants : List ConstantLayout) (mnemonics : List Mnemonic) :
    Specification :=
  ofTables ⟨versions, constants, mnemonics⟩

/-- The layout of the constants under a tag. -/
def layout? (specification : Specification) (tag : UInt8) : Option ConstantLayout :=
  specification.index.constants.row? specification.constants tag

/-- The mnemonic of an opcode. -/
def mnemonic? (specification : Specification) (opcode : UInt8) : Option Mnemonic :=
  specification.index.mnemonics.row? specification.mnemonics opcode

/-- Specifications with the same tables are the same. -/
theorem ofTables_toSpecificationTables (specification : Specification) :
    ofTables specification.toSpecificationTables = specification := by
  obtain ⟨tables, index, rfl⟩ := specification
  rfl

/-- The layout under a tag is the last one that the table lists for it. -/
theorem layout?_eq_lastWith? (specification : Specification) (tag : UInt8) :
    specification.layout? tag =
      lastWith? (fun layout => layout.tag == tag) specification.constants := by
  rw [layout?, specification.indexed, SpecificationTables.indices, RowIndex.row?_ofRows]

/-- The mnemonic of an opcode is the last one that the table lists for it. -/
theorem mnemonic?_eq_lastWith? (specification : Specification) (opcode : UInt8) :
    specification.mnemonic? opcode =
      lastWith? (fun mnemonic => mnemonic.opcode == opcode) specification.mnemonics := by
  rw [mnemonic?, specification.indexed, SpecificationTables.indices, RowIndex.row?_ofRows]

/-- Whether the tables apply to a compiler version. -/
def appliesTo (specification : Specification) (version : String) : Bool :=
  specification.versions.contains version

end Specification

/-- Specifications from the oldest class file format to the newest, of which there is at least
one. -/
structure Specifications where
  toList : List Specification
  nonempty : toList ≠ []

namespace Specifications

def newest (specifications : Specifications) : Specification :=
  specifications.toList.getLast specifications.nonempty

/-- The first specification that applies to a compiler version, or the newest if none does. -/
def forVersion (specifications : Specifications) (version : String) : Specification :=
  (specifications.toList.find? fun specification => specification.appliesTo version).getD
    specifications.newest

end Specifications

end ClassCensus
