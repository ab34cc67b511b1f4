import LineScript.Seed.Path
import LineScript.Text.Quoted

/-! Files by their paths. -/
namespace LineScript

inductive FileFault where
  | missing
  | directory
  | notDirectory
  | denied
  | nameTooLong
  | other (className reason : String)
  deriving DecidableEq, Repr

namespace FileFault

def className : FileFault → String
  | .missing => "FileNotFoundError"
  | .directory => "IsADirectoryError"
  | .notDirectory => "NotADirectoryError"
  | .denied => "PermissionError"
  | .nameTooLong => "OSError"
  | .other className _ => className

def reason : FileFault → String
  | .missing => "[Errno 2] No such file or directory"
  | .directory => "[Errno 21] Is a directory"
  | .notDirectory => "[Errno 20] Not a directory"
  | .denied => "[Errno 13] Permission denied"
  | .nameTooLong => "[Errno 36] File name too long"
  | .other _ reason => reason

def message (path : String) (fault : FileFault) : String := fault.reason ++ ": " ++ Text.quoted path

end FileFault

abbrev FileSystem := Path → Except FileFault (List UInt8)

end LineScript
