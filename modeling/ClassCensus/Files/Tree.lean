import ClassCensus.Files.Fault
import ClassCensus.Files.Path

/-!
# Trees of files

A tree is a file or a directory of named trees.  Paths lead through it from its top; where a path
leads is a list of names without detours (`FileTree.locate`).  The places under a directory are
listed by their names, each directory in front of what it holds (`FileTree.places`).
-/

namespace ClassCensus

/-- A file or a directory; what is known of the content of files is up to `α`. -/
inductive FileTree (α : Type) where
  | file (content : α)
  | directory (entries : List (String × FileTree α))

namespace FileTree

variable {α : Type}

def empty : FileTree α := directory []

def isDirectory : FileTree α → Bool
  | file _ => false
  | directory _ => true

mutual

/-- Whether the entries of each directory have names of their own, which name a place one step
further. -/
def IsProper : FileTree α → Prop
  | file _ => True
  | directory entries => (entries.map Prod.fst).Nodup ∧ EntriesAreProper entries

def EntriesAreProper : List (String × FileTree α) → Prop
  | [] => True
  | (name, tree) :: entries => Path.IsName name ∧ tree.IsProper ∧ EntriesAreProper entries

end

/-- What lies under the names from a tree on. -/
def under? : List String → FileTree α → Option (FileTree α)
  | [], tree => some tree
  | _ :: _, file _ => none
  | name :: names, directory entries => (entries.lookup name).bind (under? names)

mutual

/-- The places of a tree with the names that lead to them, in the order of the names.  A place is a
file, with its content, or a directory; a directory comes before the places under it. -/
def places : FileTree α → List (List String × Option α)
  | file content => [([], some content)]
  | directory entries =>
    ([], none) ::
      ((placesByName entries).mergeSort fun first second => decide (first.1 ≤ second.1)).flatMap
        fun (name, found) => found.map fun (names, content) => (name :: names, content)

def placesByName :
    List (String × FileTree α) → List (String × List (List String × Option α))
  | [] => []
  | (name, tree) :: entries => (name, places tree) :: placesByName entries

end

/-- The files of a tree with the names that lead to them, in the order of the names. -/
def files (tree : FileTree α) : List (List String × α) :=
  tree.places.filterMap fun (names, content) => content.map fun content => (names, content)

mutual

/-- A tree with its contents forgotten. -/
def shape : FileTree α → FileTree Unit
  | file _ => file ()
  | directory entries => directory (shapes entries)

def shapes : List (String × FileTree α) → List (String × FileTree Unit)
  | [] => []
  | (name, tree) :: entries => (name, shape tree) :: shapes entries

end

/-- The entries with what has a name changed. -/
def changeEntry (name : String) (change : FileTree α → FileTree α) :
    List (String × FileTree α) → List (String × FileTree α)
  | [] => [(name, change empty)]
  | (found, tree) :: entries =>
    if found = name then (found, change tree) :: entries
    else (found, tree) :: changeEntry name change entries

/-- The tree with `added` under the names.  Directories are made where there are none. -/
def put (added : FileTree α) : List String → FileTree α → FileTree α
  | [], _ => added
  | name :: names, directory entries => directory (changeEntry name (put added names) entries)
  | name :: names, file _ => directory [(name, put added names empty)]

/-- Where components lead from a place on, the latest name of which comes first. -/
def locateFrom (tree : FileTree α) : (place : List String) → List String →
    Except FileFault (List String)
  | place, [] => .ok place.reverse
  | place, component :: components =>
    match under? place.reverse tree with
    | none => .error .notFound
    | some (file _) => .error .notADirectory
    | some (directory entries) =>
      if Path.isHere component then locateFrom tree place components
      else if component = ".." then
        match place with
        | [] => .error .notFound
        | _ :: above => locateFrom tree above components
      else if Path.mostNameOctets < component.utf8ByteSize then .error .nameTooLong
      else if (entries.lookup component).isSome then
        locateFrom tree (component :: place) components
      else .error .notFound

/-- Where a path leads.  A path that starts elsewhere than at the top of the tree leads nowhere. -/
def locate (tree : FileTree α) (path : String) : Except FileFault (List String) :=
  match Path.fault? path with
  | some fault => .error fault
  | none =>
    if path.toList.head? = some '/' then .error .notFound
    else locateFrom tree [] (Path.components path)

def find (tree : FileTree α) (path : String) : Except FileFault (FileTree α) :=
  match locate tree path with
  | .error fault => .error fault
  | .ok names =>
    match under? names tree with
    | some found => .ok found
    | none => .error .notFound

def read (tree : FileTree α) (path : String) : Except FileFault α :=
  match find tree path with
  | .error fault => .error fault
  | .ok (file content) => .ok content
  | .ok (directory _) => .error .isADirectory

/-- Where a file of a name lies or would lie in the directory that names lead to. -/
def placeOf (tree : FileTree α) (name : String) (names : List String) :
    Except FileFault (List String) :=
  match under? names tree with
  | none => .error .notFound
  | some (file _) => .error .notADirectory
  | some (directory entries) =>
    if Path.mostNameOctets < name.utf8ByteSize then .error .nameTooLong
    else
      match entries.lookup name with
      | some (directory _) => .error .isADirectory
      | _ => .ok (names ++ [name])

/-- Where a file at a path lies or would lie: in a directory that is there, and not where a
directory is. -/
def destination (tree : FileTree α) (path : String) : Except FileFault (List String) :=
  let components := Path.components path
  let name := components.getLastD ""
  match Path.fault? path with
  | some fault => .error fault
  | none =>
    if Path.isHere name ∨ name = ".." then
      match find tree path with
      | .error fault => .error fault
      | .ok _ => .error .isADirectory
    else if path.toList.head? = some '/' then .error .notFound
    else
      match locateFrom tree [] components.dropLast with
      | .error fault => .error fault
      | .ok names => placeOf tree name names

/-- The tree with a file of the given content at a path. -/
def write (tree : FileTree α) (path : String) (content : α) : Except FileFault (FileTree α) :=
  match destination tree path with
  | .error fault => .error fault
  | .ok names => .ok (put (file content) names tree)

end FileTree

end ClassCensus
