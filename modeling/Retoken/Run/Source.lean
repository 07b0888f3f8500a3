import Retoken.Run.Error

/-!
# Finding classes

The classes of a run are the files with the ending `class` below its input directories. They come in the order of the directories, and below each in the order of their names. A file that is reached in several ways is taken once, the first time.
-/

namespace Retoken

/-- A class file, by the input directory it was found in and the way down from there. -/
structure ClassSource where
  root : Path
  relative : Path
deriving DecidableEq, Repr

namespace ClassSource

def path (source : ClassSource) : Path :=
  source.root.join source.relative

/-- The path that stands for standard input, which holds no classes. -/
def standardInput : Path := ⟨"-"⟩

/-- The order of two files below one directory. -/
def namesLe (names others : List String) : Bool :=
  (compare names others).isLE

variable {m : Type → Type} [Monad m] [Disk m]

/-- The classes below one directory. There are none below what is no directory. -/
def scan (root : Path) : ExceptT RunError m (List ClassSource) := do
  if !(← (Disk.isDirectory root : m Bool)) || root.same standardInput then return []
  let files ← (Disk.filesBelow root).adapt (RunError.unlistedDirectory root)
  let classes := files.filter fun names => (Path.ofNames names).isClassFile
  return (classes.mergeSort namesLe).map fun names => ⟨root, .ofNames names⟩

/-- What tells one file from another: its path without links, as far as that is known. -/
def identity (source : ClassSource) : m (List Path.Component) := do
  match ← (Disk.canonical source.path).run with
  | .ok path => return path.components
  | .error _ => return source.path.components

/-- The classes below several directories. -/
def scanAll (roots : List Path) : ExceptT RunError m (List ClassSource) := do
  let sources ← roots.flatMapM scan
  let identities ← (sources.mapM identity : m (List (List Path.Component)))
  return ((sources.zip identities).eraseDupsBy fun one other => one.2 == other.2).map (·.1)

end ClassSource

end Retoken
