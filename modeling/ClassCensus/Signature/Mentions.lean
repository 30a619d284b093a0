import ClassCensus.ClassNames
import ClassCensus.Signature.Parser

/-!
# The classes that a signature mentions

A class type mentions its class and, for each nested class behind it, the class so far joined to
the nested name by a dollar sign.  The types between its brackets mention their own.  Primitive
types, type variables and wildcards mention nothing.
-/

namespace ClassCensus

mutual

def Reference.mentions : Reference → List (List Char)
  | .classType name suffixes => Suffix.mentions name suffixes
  | .variable _ => []
  | .array element => element.mentions
  | .primitiveArray _ => []

/-- The classes mentioned by a class name and what follows it. -/
def Suffix.mentions (name : List Char) : List Suffix → List (List Char)
  | [] => [name]
  | .arguments arguments :: suffixes =>
    Argument.mentions arguments ++ Suffix.mentions name suffixes
  | .inner innerName :: suffixes =>
    name :: Suffix.mentions (name ++ '$' :: innerName) suffixes

def Argument.mentions : List Argument → List (List Char)
  | [] => []
  | .any :: arguments => Argument.mentions arguments
  | .exact type :: arguments => type.mentions ++ Argument.mentions arguments
  | .upper bound :: arguments => bound.mentions ++ Argument.mentions arguments
  | .lower bound :: arguments => bound.mentions ++ Argument.mentions arguments

end

def JavaType.mentions : JavaType → List (List Char)
  | .primitive _ => []
  | .reference type => type.mentions

def TypeParameter.mentions (parameter : TypeParameter) : List (List Char) :=
  (parameter.classBound.toList ++ parameter.interfaceBounds).flatMap Reference.mentions

def Shape.mentions : Shape → List (List Char)
  | .void => []
  | .types first others => (first :: others).flatMap JavaType.mentions
  | .method parameters result throws =>
    (parameters ++ result.toList).flatMap JavaType.mentions ++
      throws.flatMap Reference.mentions

def Signature.mentions (signature : Signature) : List (List Char) :=
  signature.parameters.flatMap TypeParameter.mentions ++ signature.shape.mentions

/-- The classes that a text mentions; a text that is no descriptor or signature mentions none. -/
def mentionedClasses (text : String) : List String :=
  match Signature.parse? text with
  | some signature => signature.mentions.map String.ofList
  | none => []

/-- Adds the classes mentioned by a text, and says whether it is a descriptor or signature. -/
def ClassNames.addMentioned (names : ClassNames) (text : String) : Bool × ClassNames :=
  match Signature.parse? text with
  | some signature => (true, names ∪ ofList (signature.mentions.map String.ofList))
  | none => (false, names)

end ClassCensus
