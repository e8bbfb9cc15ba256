/-!
# What can go wrong with files

The faults an operation on a file can meet, with their texts and numbers.
-/

namespace BlockLedger

/-- Why an operation on a file fails. -/
inductive FileFault where
  | notFound
  | broken
  | denied
  | exists
  | notDirectory
  | isDirectory
  | invalidArgument
  | noSpace
  | readOnly
  | nameTooLong
  | quotaExceeded
  | nulInName
  | notText
  deriving DecidableEq, Repr

namespace FileFault

/-- A text followed by the number of the fault. -/
def numbered (text : String) (n : Nat) : String :=
  text ++ " (os error " ++ toString n ++ ")"

def message : FileFault → String
  | .notFound => numbered "No such file or directory" 2
  | .broken => numbered "Input/output error" 5
  | .denied => numbered "Permission denied" 13
  | .exists => numbered "File exists" 17
  | .notDirectory => numbered "Not a directory" 20
  | .isDirectory => numbered "Is a directory" 21
  | .invalidArgument => numbered "Invalid argument" 22
  | .noSpace => numbered "No space left on device" 28
  | .readOnly => numbered "Read-only file system" 30
  | .nameTooLong => numbered "File name too long" 36
  | .quotaExceeded => numbered "Disk quota exceeded" 122
  | .nulInName => "file name contained an unexpected NUL byte"
  | .notText => "stream did not contain valid UTF-8"

end FileFault

end BlockLedger
