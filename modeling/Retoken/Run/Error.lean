import Retoken.Failure
import Retoken.FileSystem.AtomicWrite

/-!
# Errors of a run
-/

namespace Retoken

inductive RunError where
  | unlistedDirectory (root : Path) (error : ListingError)
  | unreadableClass (path : Path) (error : OsError)
  /-- A class that cannot be retokened, where every class has to be. -/
  | rejectedClass (path : Path) (error : ClassError)
  /-- Two classes that would be written to the same place. -/
  | collision (first second destination : Path)
  | staleOutput (path : Path) (error : OsError)
  | unwrittenClass (source : Path) (error : WriteError)
deriving DecidableEq, Repr

def RunError.failure : RunError → Failure
  | unlistedDirectory root error => ⟨[s!"failed to walk {root.text}", error.message], none⟩
  | unreadableClass path error => ⟨[s!"Failed to read class file: {path.text}"], some (.os error)⟩
  | rejectedClass path error => ⟨[s!"Failed to process {path.text}"], some (.classFile error)⟩
  | collision first second destination =>
    ⟨[s!"{first.text} and {second.text} both map to {destination.text}"], none⟩
  | staleOutput path error => ⟨[s!"Failed to remove stale output: {path.text}"], some (.os error)⟩
  | unwrittenClass source error =>
    ⟨[s!"Failed to write rewritten {source.text}", error.message], some (.os error.cause)⟩

end Retoken
