import ClassCensus.Constant.Pool
import ClassCensus.Octets.Decoder
import ClassCensus.Specification.Basic

/-!
# What a class file is decoded with

Behind the constant pool a class file is decoded with its pool and the specification for its
version.  An index that leads nowhere is read as an empty text, so it never stops decoding.
-/

namespace ClassCensus

/-- What the structures behind the constant pool are decoded with. -/
structure Tables where
  pool : ConstantPool
  specification : Specification

namespace Decoder

/-- Takes the index of a text and answers the text. -/
def textAt (tables : Tables) : Decoder String := do
  return tables.pool.textOrEmpty (← u2)

def classNameAt (tables : Tables) : Decoder String := do
  return tables.pool.classNameOrEmpty (← u2)

/-- Takes the index of a text that may be absent. -/
def optionalTextAt (tables : Tables) : Decoder (Option String) := do
  return tables.pool.optionalText (← u2)

def optionalClassNameAt (tables : Tables) : Decoder (Option String) := do
  return tables.pool.optionalClassName (← u2)

/-- Takes a table of indices of classes and answers their names. -/
def classNames (tables : Tables) : Decoder (List String) := table (classNameAt tables)

end Decoder

end ClassCensus
