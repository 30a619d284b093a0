/-!
# Why a path cannot be read
-/

namespace ClassCensus

/-- Why what is at a path cannot be read as a file.  A path that goes on behind a file is
`notADirectory`. -/
inductive FileFault where
  | notFound
  | notADirectory
  | isADirectory
  | notPermitted
  | nameTooLong
  | nulInName
  deriving Repr, DecidableEq

namespace FileFault

/-- The description of a fault, with its number if it is one that the system reports. -/
def message : FileFault → String
  | notFound => "No such file or directory (os error 2)"
  | notADirectory => "Not a directory (os error 20)"
  | isADirectory => "Is a directory (os error 21)"
  | notPermitted => "Permission denied (os error 13)"
  | nameTooLong => "File name too long (os error 36)"
  | nulInName => "file name contained an unexpected NUL byte"

end FileFault

end ClassCensus
