/-!
What can be wrong with a file, in the words of the system that holds it.
-/

namespace OpcodeDispatch

inductive FileError where
  | notFound
  /-- the path goes on behind a file -/
  | notDirectory
  /-- a directory stands where a file is wanted -/
  | directory
  | nameTooLong
  /-- the bytes are not UTF-8 -/
  | notText
  | other (reason : String)
  deriving DecidableEq

def FileError.message : FileError → String
  | notFound => "No such file or directory (os error 2)"
  | notDirectory => "Not a directory (os error 20)"
  | directory => "Is a directory (os error 21)"
  | nameTooLong => "File name too long (os error 36)"
  | notText => "stream did not contain valid UTF-8"
  | other reason => reason

end OpcodeDispatch
