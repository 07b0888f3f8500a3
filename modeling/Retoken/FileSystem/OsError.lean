/-!
# Operating system errors

The reasons for which an operation on files fails, with the words they are shown in.
-/

namespace Retoken

inductive OsError where
  | notFound
  | alreadyExists
  | notADirectory
  | isADirectory
  | busy
  | nameTooLong
  | tooManyLinks
  | nulInName
  | notText
  | other (text : String)
deriving DecidableEq, Repr

namespace OsError

def numbered (text : String) (number : Nat) : String :=
  s!"{text} (os error {number})"

def message : OsError → String
  | notFound => numbered "No such file or directory" 2
  | busy => numbered "Device or resource busy" 16
  | alreadyExists => numbered "File exists" 17
  | notADirectory => numbered "Not a directory" 20
  | isADirectory => numbered "Is a directory" 21
  | nameTooLong => numbered "File name too long" 36
  | tooManyLinks => numbered "Too many levels of symbolic links" 40
  | nulInName => "file name contained an unexpected NUL byte"
  | notText => "stream did not contain valid UTF-8"
  | other text => text

end OsError

end Retoken
