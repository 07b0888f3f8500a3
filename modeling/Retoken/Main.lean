import Retoken.Program

/-!
# Running on this machine

The files of the machine as a disk, and the program on it. What permissions a file has cannot be asked for here, so `copyPermissions` copies none: a class that is replaced gets the permissions of a new file, also where the former one had others.
-/

namespace Retoken.Machine

/-- The number and the text of an error. -/
def numberOf : IO.Error → Option (UInt32 × String)
  | .alreadyExists _ code details
  | .noFileOrDirectory _ code details
  | .interrupted _ code details
  | .invalidArgument _ code details
  | .permissionDenied _ code details
  | .resourceExhausted _ code details
  | .inappropriateType _ code details
  | .noSuchThing _ code details
  | .otherError code details
  | .resourceBusy code details
  | .resourceVanished code details
  | .unsupportedOperation code details
  | .hardwareFault code details
  | .unsatisfiedConstraints code details
  | .illegalOperation code details
  | .protocolError code details
  | .timeExpired code details => some (code, details)
  | .unexpectedEof
  | .userError _ => none

/-- Some calls report the number of an error with its sign changed. -/
def unsigned (code : UInt32) : UInt32 :=
  if code < 0x80000000 then code else 0 - code

def osError (error : IO.Error) : OsError :=
  match numberOf error with
  | none => .other error.toString
  | some (code, details) =>
    match unsigned code with
    | 2 => .notFound
    | 16 => .busy
    | 17 => .alreadyExists
    | 20 => .notADirectory
    | 21 => .isADirectory
    | 36 => .nameTooLong
    | 40 => .tooManyLinks
    | code => .other (OsError.numbered details code.toNat)

def attempt {α : Type} (action : IO α) : ExceptT OsError IO α :=
  ExceptT.mk do
    match ← action.toBaseIO with
    | .ok value => return .ok value
    | .error error => return .error (osError error)

/-- What a path leads to. -/
def place (path : Path) : IO.FS.DirEntry := ⟨path.text, ""⟩

/-- The entries of a directory with their kinds. The kinds are asked for along the path without links, which is not too long where the path with the name of the entry may be. -/
def entries (directory : Path) : ExceptT ListingError IO (List (String × IO.FS.FileType)) :=
  (attempt do
    let found ← (place directory).root.readDir
    let root ← IO.FS.realPath directory.text
    found.toList.mapM fun entry => do
      return (entry.fileName, (← { entry with root }.path.symlinkMetadata).type)).adapt
    (ListingError.mk directory)

/-- The regular files below a directory, each after the names that lead to the directory. -/
partial def filesFrom (directory : Path) (names : List String) :
    ExceptT ListingError IO (List (List String)) := do
  let found ← (← entries directory).mapM fun (name, kind) =>
    match kind with
    | .file => return [names ++ [name]]
    | .dir => filesFrom (directory.join ⟨name⟩) (names ++ [name])
    | _ => return []
  return found.flatten

instance : Disk IO where
  isDirectory path := (place path).root.isDir
  isPresent path := (place path).root.pathExists
  canonical path := return ⟨(← attempt (IO.FS.realPath path.text)).toString⟩
  filesBelow path := filesFrom path []
  read path := return (← attempt (IO.FS.readBinFile path.text)).data.toList
  write path bytes := attempt (IO.FS.writeBinFile path.text ⟨bytes.toArray⟩)
  makeDirectory path := attempt (IO.FS.createDir path.text)
  copyPermissions _ _ := return ()
  rename source target := attempt (IO.FS.rename source.text target.text)
  remove path := attempt (IO.FS.removeFile path.text)

/-- The milliseconds since the given moment. -/
def since (start : Nat) : IO String :=
  return toString ((← IO.monoMsNow) - start)

end Retoken.Machine

open Retoken in
def main (arguments : List String) : IO UInt32 := do
  let start ← IO.monoMsNow
  let printout ← Program.execute (Machine.since start) arguments
  IO.print printout.output
  IO.eprint printout.errors
  return printout.status.toUInt32
