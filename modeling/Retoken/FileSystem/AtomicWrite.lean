import Retoken.FileSystem.Disk

/-!
# Atomic writes

A file gets its new content by renaming, so that whoever looks at it sees the old content or the new one, each whole. The new content is first written to a temporary file beside it, which is removed if anything goes wrong.
-/

namespace Retoken

/-- The steps of an atomic write at which it may fail. -/
inductive WriteStep where
  | makeDirectory
  | writeTemporary
  | copyPermissions
  | replaceFile
deriving DecidableEq, Repr

def WriteStep.description : WriteStep → String
  | makeDirectory => "Failed to create directory"
  | writeTemporary => "Failed to write temporary file"
  | copyPermissions => "Failed to copy permissions to"
  | replaceFile => "Failed to atomically replace file"

structure WriteError where
  step : WriteStep
  path : Path
  cause : OsError
deriving DecidableEq, Repr

def WriteError.message (error : WriteError) : String :=
  match error.step with
  | .copyPermissions => s!"{error.step.description} {error.path.text}"
  | step => s!"{step.description}: {error.path.text}"

namespace Disk

variable {m : Type → Type} [Monad m] [Disk m]

/-- Makes a directory, and is content if there is one already. -/
def ensureDirectory (path : Path) : ExceptT OsError m Unit :=
  tryCatch (makeDirectory path) fun error => do
    let there ← (isDirectory path : m Bool)
    unless error = .alreadyExists && there do throw error

/-- Makes the first directory of the list. The others are the ones around it, from the inside out, and are made as far as they are missing. -/
def ensureDirectories : List Path → ExceptT OsError m Unit
  | [] => return ()
  | path :: outer => do
    unless path.text = "" do
      tryCatch (ensureDirectory path) fun error => do
        if error = .notFound then
          ensureDirectories outer
          ensureDirectory path
        else throw error

/-- Marks what goes wrong with the step it belongs to. -/
def during {α : Type} (step : WriteStep) (path : Path) (action : ExceptT OsError m α) :
    ExceptT WriteError m α :=
  action.adapt fun cause => ⟨step, path, cause⟩

def replaceThrough (temporary path : Path) (bytes : List UInt8) : ExceptT WriteError m Unit := do
  during .writeTemporary temporary (write temporary bytes)
  if ← (isPresent path : m Bool) then
    during .copyPermissions temporary (copyPermissions path temporary)
  during .replaceFile path (rename temporary path)

/-- Makes the whole content of a file the given bytes, in one step for whoever reads it. The directories around the file are made if need be. -/
def writeAtomically (path : Path) (bytes : List UInt8) : ExceptT WriteError m Unit := do
  if let some parent := path.parent? then
    during .makeDirectory parent (ensureDirectories path.parents)
  let temporary := path.withSuffix ".tmp"
  tryCatch (replaceThrough temporary path bytes) fun error => do
    discard (remove temporary : ExceptT OsError m Unit).run
    throw error

end Disk

end Retoken
