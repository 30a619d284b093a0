/-!
# Descriptors and signatures

The syntax trees of the types that class files mention: descriptors of fields and methods, and
the generic signatures of classes, methods and fields.  One type, `Signature`, covers them all.

A class type is a name followed by suffixes, each a list of type arguments or the name of a nested
class.  The trees are the texts that `Signature.parse?` accepts and nothing else, so argument lists
may be empty and may follow one another; `Documented` singles out the trees of the documented
grammar, in which they may not (`Signature.Documented`).
-/

namespace ClassCensus

inductive Primitive where
  | boolean | char | float | double | byte | short | int | long
  deriving Repr, DecidableEq

namespace Primitive

def descriptor : Primitive → Char
  | boolean => 'Z'
  | char => 'C'
  | float => 'F'
  | double => 'D'
  | byte => 'B'
  | short => 'S'
  | int => 'I'
  | long => 'J'

def all : List Primitive := [boolean, char, float, double, byte, short, int, long]

def ofDescriptor? (descriptor : Char) : Option Primitive :=
  all.find? fun primitive => primitive.descriptor = descriptor

theorem ofDescriptor?_eq_some_iff {c : Char} {primitive : Primitive} :
    ofDescriptor? c = some primitive ↔ primitive.descriptor = c := by
  constructor
  · intro hfound
    simpa using List.find?_some hfound
  · rintro rfl
    cases primitive <;> decide

end Primitive

mutual

/-- A reference type.  Type arguments and nested classes may follow the name of a class. -/
inductive Reference where
  | classType (name : List Char) (suffixes : List Suffix)
  | variable (name : List Char)
  | array (element : Reference)
  | primitiveArray (element : Primitive)

/-- What may follow the name of a class: type arguments, or a nested class. -/
inductive Suffix where
  | arguments (arguments : List Argument)
  | inner (name : List Char)

/-- A type argument: a type, a wildcard bounded from above or from below, or one without a bound. -/
inductive Argument where
  | any
  | exact (type : Reference)
  | upper (bound : Reference)
  | lower (bound : Reference)

end

inductive JavaType where
  | primitive (type : Primitive)
  | reference (type : Reference)

/-- A type parameter of a class or a method, with the class and the interfaces that bound it. -/
structure TypeParameter where
  name : List Char
  classBound : Option Reference
  interfaceBounds : List Reference

/-- What a signature says behind its type parameters: no value, a type or the types that a class
extends, or a method with its parameters, its result unless that is void, and what it throws. -/
inductive Shape where
  | void
  | types (first : JavaType) (others : List JavaType)
  | method (parameters : List JavaType) (result : Option JavaType) (throws : List Reference)

/-- A descriptor or signature. -/
structure Signature where
  parameters : List TypeParameter
  shape : Shape

end ClassCensus
