import ClassCensus.CommandLine.Run

/-!
# The program

Access to the files of the machine, and the program that runs with it.
-/

namespace ClassCensus

/-- The fault that an error of the system is. -/
def FileFault.ofError : IO.Error → FileFault
  | .permissionDenied .. => notPermitted
  | .inappropriateType _ code _ => if code = 21 then isADirectory else notADirectory
  | .noSuchThing .. => notFound
  | .invalidArgument _ 36 _ => nameTooLong
  | .otherError 21 _ => isADirectory
  | .otherError 20 _ => notADirectory
  | _ => notFound

/-- The tree of what is at a path of the machine.  Only files and directories count, and what has
a path that leads nowhere counts as a file. -/
partial def lookAt (path : String) : IO (FileTree Unit) := do
  let place := System.mkFilePath [path]
  match (← place.metadata).type with
  | .dir =>
    let entries ← (← place.readDir).toList.filterMapM fun entry => do
      let name := entry.fileName
      let path := Path.child path name
      if (Path.fault? path).isSome then return some (name, .file ())
      match (← (System.mkFilePath [path]).symlinkMetadata).type with
      | .dir | .file => return some (name, ← lookAt path)
      | _ => return none
    return .directory entries
  | _ => return .file ()

def attempt {α : Type} (action : IO α) : IO (Except FileFault α) := do
  try return .ok (← action) catch error => return .error (.ofError error)

def machineFiles : FileAccess IO where
  look path := attempt (lookAt path)
  read path := attempt do return (← IO.FS.readBinFile path).toList
  write path text := attempt (IO.FS.writeFile path text)

end ClassCensus

/-- Runs the program with the files of the machine. -/
def main (arguments : List String) : IO UInt32 := do
  let exit ← ClassCensus.CommandLine.run ClassCensus.machineFiles arguments
  (← IO.getStdout).putStr exit.output
  (← IO.getStderr).putStr exit.complaint
  return exit.exitCode
