import ClassCensus.Signature.Parser

/-!
# Written signatures

The text of a signature, and which trees have a text that reads back.  `Fits` asks that every name
is a run of characters that do not end it, and that no type parameter looks like the bound of the
one before it.  `Documented` asks for more: it singles out the trees of the documented grammar, in
which a list of type arguments is not empty, follows a name, and names of type parameters keep to
the rules of identifiers.
-/

namespace ClassCensus

mutual

def Reference.written : Reference → List Char
  | .classType name suffixes => 'L' :: (name ++ Suffix.written suffixes)
  | .variable name => 'T' :: (name ++ [';'])
  | .array element => '[' :: element.written
  | .primitiveArray element => ['[', element.descriptor]

/-- The text of what follows the name of a class, with the end of the class type. -/
def Suffix.written : List Suffix → List Char
  | [] => [';']
  | .arguments arguments :: suffixes =>
    '<' :: (Argument.written arguments ++ Suffix.written suffixes)
  | .inner name :: suffixes => '.' :: (name ++ Suffix.written suffixes)

/-- The text of type arguments, with the closing bracket. -/
def Argument.written : List Argument → List Char
  | [] => ['>']
  | .any :: arguments => '*' :: Argument.written arguments
  | .exact type :: arguments => type.written ++ Argument.written arguments
  | .upper bound :: arguments => '+' :: (bound.written ++ Argument.written arguments)
  | .lower bound :: arguments => '-' :: (bound.written ++ Argument.written arguments)

end

def JavaType.written : JavaType → List Char
  | .primitive type => [type.descriptor]
  | .reference type => type.written

def TypeParameter.writtenInterfaces (bounds : List Reference) : List Char :=
  bounds.flatMap fun bound => ':' :: bound.written

def TypeParameter.written (parameter : TypeParameter) : List Char :=
  parameter.name ++ ':' :: (parameter.classBound.toList.flatMap Reference.written ++
    writtenInterfaces parameter.interfaceBounds)

def Shape.writtenResult : Option JavaType → List Char
  | none => ['V']
  | some type => type.written

def Shape.written : Shape → List Char
  | .void => ['V']
  | .types first others => (first :: others).flatMap JavaType.written
  | .method parameters result throws =>
    '(' :: (parameters.flatMap JavaType.written ++ ')' :: (writtenResult result ++
      throws.flatMap fun thrown => '^' :: thrown.written))

def Signature.writtenParameters : List TypeParameter → List Char
  | [] => []
  | parameters => '<' :: (parameters.flatMap TypeParameter.written ++ ['>'])

/-- The text of a signature. -/
def Signature.written (signature : Signature) : List Char :=
  writtenParameters signature.parameters ++ signature.shape.written

/-- Whether a name is a run of characters other than `ends`, and not empty. -/
def Signature.IsName (ends name : List Char) : Prop := name ≠ [] ∧ ∀ c ∈ name, c ∉ ends

open Signature (IsName nameEnds identifierEnds parameterEnds)

mutual

/-- Whether the names in a reference type are names. -/
def Reference.Fits : Reference → Prop
  | .classType name suffixes => IsName nameEnds name ∧ Suffix.Fits suffixes
  | .variable name => IsName identifierEnds name
  | .array element => element.Fits
  | .primitiveArray _ => True

def Suffix.Fits : List Suffix → Prop
  | [] => True
  | .arguments arguments :: suffixes => Argument.Fits arguments ∧ Suffix.Fits suffixes
  | .inner name :: suffixes => IsName identifierEnds name ∧ Suffix.Fits suffixes

def Argument.Fits : List Argument → Prop
  | [] => True
  | .any :: arguments => Argument.Fits arguments
  | .exact type :: arguments => type.Fits ∧ Argument.Fits arguments
  | .upper bound :: arguments => bound.Fits ∧ Argument.Fits arguments
  | .lower bound :: arguments => bound.Fits ∧ Argument.Fits arguments

end

def JavaType.Fits : JavaType → Prop
  | .primitive _ => True
  | .reference type => type.Fits

namespace TypeParameter

def bounds (parameter : TypeParameter) : List Reference :=
  parameter.classBound.toList ++ parameter.interfaceBounds

def Fits (parameter : TypeParameter) : Prop :=
  IsName parameterEnds parameter.name ∧ ∀ bound ∈ parameter.bounds, bound.Fits

/-- Whether a type parameter can follow another: if that has no bound, the name of this one must
not look like one. -/
def CanFollow (before after : TypeParameter) : Prop :=
  before.bounds = [] → after.name.head? ∉ [some 'L', some 'T', some '[']

/-- Whether each type parameter can follow the one before it. -/
def Sequence : List TypeParameter → Prop
  | before :: after :: parameters =>
    CanFollow before after ∧ Sequence (after :: parameters)
  | _ => True

end TypeParameter

def Shape.Fits : Shape → Prop
  | .void => True
  | .types first others => ∀ type ∈ first :: others, type.Fits
  | .method parameters result throws =>
    (∀ type ∈ parameters ++ result.toList, type.Fits) ∧ ∀ thrown ∈ throws, thrown.Fits

/-- Whether the text of a signature reads back. -/
def Signature.Fits (signature : Signature) : Prop :=
  (∀ parameter ∈ signature.parameters, parameter.Fits) ∧
    TypeParameter.Sequence signature.parameters ∧ signature.shape.Fits

mutual

/-- Whether a reference type keeps to the documented grammar. -/
def Reference.Documented : Reference → Prop
  | .classType name suffixes => IsName nameEnds name ∧ Suffix.Documented true suffixes
  | .variable name => IsName identifierEnds name
  | .array element => element.Documented
  | .primitiveArray _ => True

/-- Whether what follows a name keeps to the documented grammar; type arguments may come first if
`afterName` holds. -/
def Suffix.Documented (afterName : Bool) : List Suffix → Prop
  | [] => True
  | .arguments arguments :: suffixes =>
    afterName = true ∧ arguments ≠ [] ∧ Argument.Documented arguments ∧
      Suffix.Documented false suffixes
  | .inner name :: suffixes => IsName identifierEnds name ∧ Suffix.Documented true suffixes

def Argument.Documented : List Argument → Prop
  | [] => True
  | .any :: arguments => Argument.Documented arguments
  | .exact type :: arguments => type.Documented ∧ Argument.Documented arguments
  | .upper bound :: arguments => bound.Documented ∧ Argument.Documented arguments
  | .lower bound :: arguments => bound.Documented ∧ Argument.Documented arguments

end

def JavaType.Documented : JavaType → Prop
  | .primitive _ => True
  | .reference type => type.Documented

def TypeParameter.Documented (parameter : TypeParameter) : Prop :=
  IsName identifierEnds parameter.name ∧ ∀ bound ∈ parameter.bounds, bound.Documented

def Shape.Documented : Shape → Prop
  | .void => True
  | .types first others => ∀ type ∈ first :: others, type.Documented
  | .method parameters result throws =>
    (∀ type ∈ parameters ++ result.toList, type.Documented) ∧
      ∀ thrown ∈ throws, thrown.Documented

/-- Whether a signature keeps to the documented grammar. -/
def Signature.Documented (signature : Signature) : Prop :=
  (∀ parameter ∈ signature.parameters, parameter.Documented) ∧ signature.shape.Documented

end ClassCensus
