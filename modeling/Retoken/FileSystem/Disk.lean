import Retoken.FileSystem.OsError
import Retoken.FileSystem.Path

/-!
# Disks

A disk is what a program can do to files, in a monad of its own: the machine's files in one, a value of type `FileSystem` in another. Each operation is one call to the operating system, so that what happens between two of them can be spoken about.
-/

namespace Retoken

/-- A directory that could not be listed. -/
structure ListingError where
  directory : Path
  cause : OsError
deriving DecidableEq, Repr

def ListingError.message (error : ListingError) : String :=
  s!"{error.directory.text}: {error.cause.message}"

class Disk (m : Type → Type) where
  /-- Whether the path leads to a directory, through links. -/
  isDirectory : Path → m Bool
  /-- Whether the path leads to anything, through links. -/
  isPresent : Path → m Bool
  /-- The absolute path without links to what the path leads to. -/
  canonical : Path → ExceptT OsError m Path
  /-- The regular files below a directory, each by the names that lead down to it. Links below the directory are not followed. -/
  filesBelow : Path → ExceptT ListingError m (List (List String))
  read : Path → ExceptT OsError m (List UInt8)
  /-- Makes the whole content of a file the given bytes. The file is created if there is none. -/
  write : Path → List UInt8 → ExceptT OsError m Unit
  makeDirectory : Path → ExceptT OsError m Unit
  /-- Gives the second file the permissions of the first. -/
  copyPermissions : Path → Path → ExceptT OsError m Unit
  /-- Moves a file, in place of the file at its new path if there is one. -/
  rename : Path → Path → ExceptT OsError m Unit
  remove : Path → ExceptT OsError m Unit

namespace Disk

variable {m : Type → Type} [Monad m] [Disk m]

def readText (path : Path) : ExceptT OsError m String := do
  match String.fromUTF8? ⟨(← read path).toArray⟩ with
  | some text => return text
  | none => throw .notText

end Disk

end Retoken
