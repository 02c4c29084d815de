import Brewery.Text.Basic

/-!
Why the disk, or the start of a program, refuses.
-/

namespace Brewery

inductive Fault where
  | missing
  | present
  | notDirectory
  | isDirectory
  | linkLoop
  | nameTooLong
  | denied
  | busy
  | notText
  | nulInPath
  | nulInArgument
  deriving DecidableEq

namespace Fault

def message : Fault → Text
  | .missing => "No such file or directory (os error 2)".toList
  | .present => "File exists (os error 17)".toList
  | .notDirectory => "Not a directory (os error 20)".toList
  | .isDirectory => "Is a directory (os error 21)".toList
  | .linkLoop => "Too many levels of symbolic links (os error 40)".toList
  | .nameTooLong => "File name too long (os error 36)".toList
  | .denied => "Permission denied (os error 13)".toList
  | .busy => "Device or resource busy (os error 16)".toList
  | .notText => "stream did not contain valid UTF-8".toList
  | .nulInPath => "file name contained an unexpected NUL byte".toList
  | .nulInArgument => "nul byte found in provided data".toList

end Fault
end Brewery
