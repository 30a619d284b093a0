import ClassCensus.Files.Fault

/-!
# Paths

A path is a text whose components are separated by slashes.  This module holds what can be said of
a path by its text alone: its components, whether it can lead anywhere, the extension of the file
it names, and the kind of file that the extension tells of.
-/

namespace ClassCensus

namespace Path

/-- The parts of characters between slashes; there is one part more than slashes. -/
def parts : List Char → List (List Char)
  | [] => [[]]
  | c :: rest =>
    if c = '/' then [] :: parts rest
    else
      match parts rest with
      | [] => [[c]]
      | part :: others => (c :: part) :: others

/-- The components of a path.  Some may be empty: slashes may follow each other, stand at the
start or at the end. -/
def components (path : String) : List String := (parts path.toList).map String.ofList

/-- Whether a component stays where it is. -/
def isHere (component : String) : Bool := component = "" || component = "."

def mostNameOctets : Nat := 255

def mostOctets : Nat := 4095

/-- The character that no path may hold. -/
def nul : Char := Char.ofNat 0

/-- Why a path leads nowhere, whatever there is. -/
def fault? (path : String) : Option FileFault :=
  if path.toList.contains nul then some .nulInName
  else if path = "" then some .notFound
  else if mostOctets < path.utf8ByteSize then some .nameTooLong
  else none

/-- Whether a component names a place one step further. -/
def IsName (component : String) : Prop :=
  component ≠ "" ∧ component ≠ "." ∧ component ≠ ".." ∧ '/' ∉ component.toList ∧
    nul ∉ component.toList ∧ component.utf8ByteSize ≤ mostNameOctets

/-- The name of the file that a path names; none if it ends by going up, or goes nowhere. -/
def fileName? (path : String) : Option String :=
  match ((components path).filter fun component => !isHere component).getLast? with
  | some name => if name = ".." then none else some name
  | none => none

/-- What follows the last dot of a name; none if the name has no dot but one at its start. -/
def suffix? (name : List Char) : Option (List Char) :=
  let isNoDot := fun (c : Char) => c != '.'
  match name.reverse.dropWhile isNoDot with
  | [] => none
  | [_] => none
  | _ :: _ :: _ => some (name.reverse.takeWhile isNoDot).reverse

/-- The extension of the file that a path names, in lower case. -/
def extension? (path : String) : Option String := do
  let name ← fileName? path
  let suffix ← suffix? name.toList
  return String.ofList (suffix.map Char.toLower)

/-- The path of what has a name in the directory at a path. -/
def child (path name : String) : String :=
  if path.toList.getLast? = some '/' then path ++ name else path ++ "/" ++ name

/-- The path of what lies under the directory at a path. -/
def descendant (path : String) (names : List String) : String := names.foldl child path

/-- Whether two paths have the same components: slashes may follow each other or end a path, and
a component that stays where it is counts at the start only. -/
def sameComponents (first second : String) : Bool :=
  let normal := fun path =>
    let components := components path
    (components.headD "", components.tail.filter fun component => !isHere component)
  normal first = normal second

end Path

/-- What a file is, going by its extension. -/
inductive FileKind where
  | classFile
  | archive
  | other
  deriving Repr, DecidableEq

def classExtension : String := "class"

def archiveExtensions : List String := ["jar", "zip", "war", "ear"]

def FileKind.ofPath (path : String) : FileKind :=
  match Path.extension? path with
  | none => other
  | some extension =>
    if extension = classExtension then classFile
    else if extension ∈ archiveExtensions then archive
    else other

end ClassCensus
