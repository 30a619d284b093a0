import ClassCensus.Signature.Basic

/-!
# Reading descriptors and signatures

A reader takes characters from the front of a list and answers a tree and the characters behind
it.  References nest, so their readers carry a budget: reading a character and starting a
reference each cost one unit, and `Signature.parse?` provides two for every character.
-/

namespace ClassCensus

/-- What a reader answers: a tree and the characters behind it. -/
abbrev Reader (α : Type) := List Char → Option (α × List Char)

namespace Signature

/-- The characters that end the name of a class. -/
def nameEnds : List Char := [';', '<', '>', '.', ':', '[']

/-- The characters that end the name of a nested class or a type variable. -/
def identifierEnds : List Char := [';', '<', '>', '.', ':', '[', '/']

/-- The characters that end the name of a type parameter. -/
def parameterEnds : List Char := [':', '>']

/-- Reads the longest run of characters up to one of `ends`, which must not be empty. -/
def name (ends : List Char) : Reader (List Char) := fun text =>
  let run := text.takeWhile fun c => !ends.contains c
  if run.isEmpty then none else some (run, text.drop run.length)

mutual

def reference : (budget : Nat) → Reader Reference
  | 0, _ => none
  | budget + 1, text =>
    match text with
    | 'L' :: text => do
      let (className, text) ← name nameEnds text
      let (found, text) ← suffixes budget [] text
      some (.classType className found, text)
    | 'T' :: text => do
      let (variableName, text) ← name identifierEnds text
      match text with
      | ';' :: text => some (.variable variableName, text)
      | _ => none
    | '[' :: text =>
      match text with
      | [] => none
      | first :: others =>
        match Primitive.ofDescriptor? first with
        | some element => some (.primitiveArray element, others)
        | none => do
          let (element, text) ← reference budget text
          some (.array element, text)
    | _ => none

/-- Reads what follows the name of a class, behind the suffixes read before, the latest first. -/
def suffixes : (budget : Nat) → (before : List Suffix) → Reader (List Suffix)
  | 0, _, _ => none
  | budget + 1, before, text =>
    match text with
    | ';' :: text => some (before.reverse, text)
    | '<' :: text => do
      let (found, text) ← arguments budget [] text
      suffixes budget (.arguments found :: before) text
    | '.' :: text => do
      let (innerName, text) ← name identifierEnds text
      suffixes budget (.inner innerName :: before) text
    | _ => none

/-- Reads type arguments up to the closing bracket, behind those read before, the latest first. -/
def arguments : (budget : Nat) → (before : List Argument) → Reader (List Argument)
  | 0, _, _ => none
  | budget + 1, before, text =>
    match text with
    | '>' :: text => some (before.reverse, text)
    | '*' :: text => arguments budget (.any :: before) text
    | '+' :: text => do
      let (bound, text) ← reference budget text
      arguments budget (.upper bound :: before) text
    | '-' :: text => do
      let (bound, text) ← reference budget text
      arguments budget (.lower bound :: before) text
    | text => do
      let (type, text) ← reference budget text
      arguments budget (.exact type :: before) text

end

def javaType (budget : Nat) : Reader JavaType := fun text =>
  match text with
  | [] => none
  | first :: others =>
    match Primitive.ofDescriptor? first with
    | some type => some (.primitive type, others)
    | none => do
      let (type, text) ← reference budget text
      some (.reference type, text)

/-- Reads as many values as there are, at most `limit`, behind those read before, the latest
first. -/
def many (reader : Reader α) : (limit : Nat) → (before : List α) → List Char →
    List α × List Char
  | 0, before, text => (before.reverse, text)
  | limit + 1, before, text =>
    match reader text with
    | some (value, rest) => many reader limit (value :: before) rest
    | none => (before.reverse, text)

/-- Reads a reference behind a marking character. -/
def marked (mark : Char) (budget : Nat) : Reader Reference := fun text =>
  match text with
  | first :: text => if first = mark then reference budget text else none
  | [] => none

/-- Reads the interfaces that bound a type parameter, each behind a colon. -/
def interfaceBounds (budget : Nat) : (limit : Nat) → (before : List Reference) →
    Reader (List Reference)
  | 0, _, _ => none
  | limit + 1, before, text =>
    match text with
    | ':' :: text => do
      let (bound, text) ← reference budget text
      interfaceBounds budget limit (bound :: before) text
    | text => some (before.reverse, text)

/-- Reads the class that bounds a type parameter, if a reference stands there. -/
def classBound (budget : Nat) : Reader (Option Reference) := fun text =>
  match text with
  | 'L' :: _ | 'T' :: _ | '[' :: _ => do
    let (bound, text) ← reference budget text
    some (some bound, text)
  | _ => some (none, text)

def typeParameter (budget : Nat) : Reader TypeParameter := fun text => do
  let (parameterName, text) ← name parameterEnds text
  match text with
  | ':' :: text => do
    let (bound, text) ← classBound budget text
    let (found, text) ← interfaceBounds budget (text.length + 1) [] text
    some (⟨parameterName, bound, found⟩, text)
  | _ => none

/-- Reads type parameters up to the closing bracket, of which there is at least one, behind those
read before, the latest first. -/
def typeParameters (budget : Nat) : (limit : Nat) → (before : List TypeParameter) →
    Reader (List TypeParameter)
  | 0, _, _ => none
  | limit + 1, before, text => do
    let (parameter, text) ← typeParameter budget text
    match text with
    | '>' :: text => some ((parameter :: before).reverse, text)
    | text => typeParameters budget limit (parameter :: before) text

/-- Reads the result of a method, which may be void. -/
def result (budget : Nat) : Reader (Option JavaType) := fun text =>
  match text with
  | 'V' :: text => some (none, text)
  | text => do
    let (type, text) ← javaType budget text
    some (some type, text)

/-- Reads a method behind its opening bracket, which must be all of the text. -/
def method? (budget : Nat) (text : List Char) : Option Shape :=
  match many (javaType budget) text.length [] text with
  | (parameters, ')' :: text) => do
    let (found, text) ← result budget text
    match many (marked '^' budget) text.length [] text with
    | (throws, []) => some (.method parameters found throws)
    | _ => none
  | _ => none

/-- Reads one type or more, which must be all of the text. -/
def types? (budget : Nat) (text : List Char) : Option Shape :=
  match many (javaType budget) text.length [] text with
  | (first :: others, []) => some (.types first others)
  | _ => none

/-- Reads what follows the type parameters, which must be all of the text. -/
def shape? (budget : Nat) (text : List Char) : Option Shape :=
  match text with
  | [] => none
  | ['V'] => some .void
  | '(' :: text => method? budget text
  | text => types? budget text

/-- Reads a signature, which must be all of the text. -/
def signature? (budget : Nat) (text : List Char) : Option Signature :=
  match text with
  | '<' :: text => do
    let (parameters, text) ← typeParameters budget text.length [] text
    return ⟨parameters, ← shape? budget text⟩
  | text => do return ⟨[], ← shape? budget text⟩

/-- The tree of a descriptor or signature, if the text is one. -/
def parse? (text : String) : Option Signature :=
  signature? (2 * text.toList.length + 2) text.toList

end Signature

end ClassCensus
