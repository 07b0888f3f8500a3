import Retoken.Digest.Sha256
import Retoken.Retokening
import Retoken.Run.Report
import Retoken.Run.Settings

/-!
# Runs

A run replaces the tokens in every class below its input directories. It has two parts. The first only looks: it reads all classes, replaces their tokens in memory and decides what is to be written where. Whatever can fail there fails before any file has been touched. The second part removes stale output, if asked to, and writes the changed classes.
-/

namespace Retoken

/-- A class to be written. -/
structure PendingWrite where
  source : Path
  destination : Path
  bytes : List UInt8
deriving DecidableEq, Repr

/-- What came of reading one class and replacing its tokens. -/
abbrev Examined := Except OsError (Except ClassError Retokened)

/-- What a run is going to do, and what it has to say about each class. -/
structure Plan where
  files : Array FileRecord := #[]
  writes : Array PendingWrite := #[]
  unchanged : Nat := 0

namespace Plan

/-- The planned write to the same place as the given one, if there is any. -/
def rival? (plan : Plan) (destination : Path) : Option PendingWrite :=
  let place := destination.components
  plan.writes.toList.find? fun write => write.destination.components == place

/-- Plans for one more class. -/
def add (settings : Settings) (plan : Plan) (source : ClassSource) :
    Examined → Except RunError Plan
  | .error error => throw (.unreadableClass source.path error)
  | .ok (.error error) =>
    if settings.strict then throw (.rejectedClass source.path error)
    else return { plan with files := plan.files.push (.skipped source.path error) }
  | .ok (.ok ⟨_, none⟩) => return { plan with unchanged := plan.unchanged + 1 }
  | .ok (.ok ⟨tally, some bytes⟩) => do
    let destination := settings.output.destination source
    if let some rival := plan.rival? destination then
      throw (.collision rival.source source.path destination)
    let record := .retokened source.path destination tally (Digest.Sha256.hexDigest bytes)
    return { plan with
      files := plan.files.push record
      writes := plan.writes.push ⟨source.path, destination, bytes⟩ }

/-- The plan for all classes. What went wrong first, in their order, decides how the run fails. -/
def ofExamined (settings : Settings) (examined : List (ClassSource × Examined)) :
    Except RunError Plan :=
  examined.foldlM (fun plan (source, examined) => plan.add settings source examined) {}

end Plan

namespace Run

variable {m : Type → Type} [Monad m] [Disk m]

def examine (tokens : TokenTable) (source : ClassSource) : m (ClassSource × Examined) :=
  return (source, (← (Disk.read source.path).run).map (retoken tokens))

/-- The part of a run that only looks. -/
def prepare (settings : Settings) : ExceptT RunError m (List ClassSource × Plan) := do
  let sources ← ClassSource.scanAll settings.roots
  let examined ← (sources.mapM (examine settings.tokens) : m (List (ClassSource × Examined)))
  let plan ← ExceptT.mk (pure (Plan.ofExamined settings examined))
  return (sources, plan)

/-- Removes every class below a directory, and counts them. -/
def removeClasses (root : Path) : ExceptT RunError m Nat := do
  let stale ← ClassSource.scan root
  stale.forM fun source =>
    (Disk.remove source.path).adapt (RunError.staleOutput source.path)
  return stale.length

def removeStale (settings : Settings) : ExceptT RunError m Nat :=
  match settings.clean, settings.output.root? with
  | true, some root => removeClasses root
  | _, _ => return 0

def writeClass (pending : PendingWrite) : ExceptT RunError m Unit :=
  (Disk.writeAtomically pending.destination pending.bytes).adapt
    (RunError.unwrittenClass pending.source)

/-- The part of a run that changes files. The answer is the number of stale classes removed.

Nothing fixes the order of the writes, which a pool of workers may make at the same time. Here they are made one after the other as the classes were found, which is one of the orders that may come about, and up to the first that fails. -/
def carryOut (settings : Settings) (plan : Plan) : ExceptT RunError m Nat := do
  let cleaned ← removeStale settings
  plan.writes.toList.forM writeClass
  return cleaned

end Run

/-- Replaces the tokens in every class below the input directories. -/
def run {m : Type → Type} [Monad m] [Disk m] (settings : Settings) :
    ExceptT RunError m Report := do
  let (sources, plan) ← Run.prepare settings
  let cleaned ← if settings.dryRun then pure 0 else Run.carryOut settings plan
  return {
    roots := settings.roots
    output := settings.output
    dryRun := settings.dryRun
    scanned := sources.length
    retokened := plan.writes.size
    unchanged := plan.unchanged
    skipped := plan.files.size - plan.writes.size
    cleaned
    files := plan.files.toList }

end Retoken
