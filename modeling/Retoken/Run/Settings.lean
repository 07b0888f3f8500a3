import Retoken.Json.Parser
import Retoken.Run.Output

/-!
# Settings of a run

A run is asked for by a request, whose tokens and directories are still to be checked, and is given its settings by `Settings.ofRequest`, which checks them. Tokens are set first by the token file and then one by one. An output directory has to be there and to lie outside of all input directories, and if it is to be cleaned no input directory may lie in it.
-/

namespace Retoken

/-- How a command shows its result. -/
inductive OutputFormat where
  | json
  | text
deriving DecidableEq, Repr

structure ReplaceRequest where
  roots : List Path
  tokens : List String := []
  tokenFile? : Option Path := none
  output? : Option Path := none
  strict : Bool := false
  dryRun : Bool := false
  clean : Bool := false
  jobs? : Option Nat := none
  format : OutputFormat := .json
  quiet : Bool := false
deriving DecidableEq, Repr

structure Settings where
  tokens : TokenTable
  roots : List Path
  output : Output
  /-- Whether a class that cannot be retokened ends the run. -/
  strict : Bool
  /-- Whether everything is done but the writing. -/
  dryRun : Bool
  /-- Whether classes that are in the output directory already are removed first. -/
  clean : Bool
  /-- How many classes may be worked on at a time. The results do not depend on it. -/
  jobs? : Option Nat
deriving DecidableEq, Repr

inductive SettingsError where
  | unreadableTokenFile (path : Path) (error : OsError)
  | tokenFileSyntax (path : Path)
  | invalidTokenFile (path : Path) (error : TokenError)
  | invalidTokenArgument (argument : String) (error : TokenError)
  | noOutputDirectory (output : Path)
  | unresolvedOutput (output : Path) (error : OsError)
  | outputInsideInput (output root : Path)
  | inputInsideOutput (root output : Path)
  | noJobs
deriving DecidableEq, Repr

def SettingsError.failure : SettingsError → Failure
  | unreadableTokenFile path error =>
    ⟨[s!"Failed to read token file: {path.text}"], some (.os error)⟩
  | tokenFileSyntax path => ⟨[s!"Token file is not valid JSON: {path.text}"], some .jsonSyntax⟩
  | invalidTokenFile path error => ⟨[s!"Invalid token file: {path.text}"], some (.token error)⟩
  | invalidTokenArgument argument error =>
    ⟨[s!"Invalid --token argument: {argument}"], some (.token error)⟩
  | noOutputDirectory output =>
    ⟨[s!"Output directory does not exist or is not a directory: {output.text}"], none⟩
  | unresolvedOutput output error =>
    ⟨[s!"Failed to resolve output directory: {output.text}"], some (.os error)⟩
  | outputInsideInput output root =>
    ⟨[s!"Output directory {output.text} must not be inside input directory {root.text}"], none⟩
  | inputInsideOutput root output =>
    ⟨[s!"--clean would delete input directory {root.text} inside output directory {output.text}"], none⟩
  | noJobs => ⟨["--jobs must be at least 1"], none⟩

namespace TokenTable

variable {m : Type → Type} [Monad m] [Disk m]

/-- The tokens of a JSON object in a file. -/
def ofFile (path : Path) : ExceptT SettingsError m TokenTable := do
  let text ← (Disk.readText path).adapt (SettingsError.unreadableTokenFile path)
  match JsonValue.ofText? text with
  | none => throw (.tokenFileSyntax path)
  | some value =>
    match TokenTable.empty.insertObject value with
    | (table, .ok ()) => return table
    | (_, .error error) => throw (.invalidTokenFile path error)

/-- Sets the token of each assignment in turn. -/
def insertArguments (table : TokenTable) (arguments : List String) :
    Except SettingsError TokenTable :=
  arguments.foldlM (fun table argument =>
    (table.insertAssignment argument).mapError (.invalidTokenArgument argument)) table

end TokenTable

namespace Settings

variable {m : Type → Type} [Monad m] [Disk m]

/-- Refuses an output directory that lies in an input directory, and one to be cleaned that holds an input directory. Input directories that are not there are let pass. -/
def checkRoots (output resolved : Path) (clean : Bool) : List Path → ExceptT SettingsError m Unit
  | [] => return ()
  | root :: roots => do
    match ← ((Disk.canonical root).run : m (Except OsError Path)) with
    | .error _ => pure ()
    | .ok canonical =>
      if resolved.isWithin canonical then throw (.outputInsideInput output root)
      if clean && canonical.isWithin resolved then throw (.inputInsideOutput root output)
    checkRoots output resolved clean roots

def checkOutput (output : Path) (roots : List Path) (clean : Bool) :
    ExceptT SettingsError m Unit := do
  unless ← (Disk.isDirectory output : m Bool) do throw (.noOutputDirectory output)
  let resolved ← (Disk.canonical output).adapt (SettingsError.unresolvedOutput output)
  checkRoots output resolved clean roots

def ofRequest (request : ReplaceRequest) : ExceptT SettingsError m Settings := do
  let fromFile ← match request.tokenFile? with
    | some path => TokenTable.ofFile path
    | none => pure .empty
  let tokens ← liftExcept (fromFile.insertArguments request.tokens)
  let output ← match request.output? with
    | some root => do
      checkOutput root request.roots request.clean
      pure (.shadow root)
    | none => pure .inPlace
  if request.jobs? = some 0 then throw .noJobs
  return {
    tokens, output
    roots := request.roots
    strict := request.strict
    dryRun := request.dryRun
    clean := request.clean
    jobs? := request.jobs? }
where
  liftExcept {α : Type} (result : Except SettingsError α) : ExceptT SettingsError m α :=
    ExceptT.mk (pure result)

end Settings

end Retoken
