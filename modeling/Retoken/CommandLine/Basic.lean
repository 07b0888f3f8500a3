import Retoken.CommandLine.Grammar
import Retoken.Run.Settings

/-!
# Commands

There are two commands, `replace` and `sites`, each with options of its own. Options other than tokens may be given once.
-/

namespace Retoken

structure SitesRequest where
  classFile : Path
  format : OutputFormat
deriving DecidableEq, Repr

inductive Command where
  | replace (request : ReplaceRequest)
  | sites (request : SitesRequest)
deriving DecidableEq, Repr

namespace CommandLine

/-! ### Values -/

def path (word : String) : Except UsageError Path :=
  if word = "" then .error .emptyPath else .ok ⟨word⟩

def format (word : String) : Except UsageError OutputFormat :=
  if word = "json" then .ok .json
  else if word = "text" then .ok .text
  else .error (.unlistedValue word)

/-- The number that decimal digits stand for, if there is at least one digit and the number fits 64 bits. -/
def numberOfDigits? (digits : List Char) : Option Nat :=
  if digits ≠ [] ∧ digits.all Char.isDigit then
    let n := digits.foldl (fun n c => 10 * n + (c.toNat - '0'.toNat)) 0
    if n < UInt64.size then some n else none
  else none

/-- A number in decimal, perhaps after a plus sign. -/
def number (word : String) : Except UsageError Nat :=
  let digits := match word.toList with
    | '+' :: digits => digits
    | digits => digits
  match numberOfDigits? digits with
  | some n => .ok n
  | none => .error (.malformedNumber word)

/-! ### Options -/

section

variable {ρ : Type}

/-- A switch that may be set once. -/
def switch (long : String) (short? : Option Char) (isSet : ρ → Bool) (set : ρ → ρ) : OptionRule ρ where
  long
  short?
  action := .flag fun request =>
    if isSet request then .error (.repeatedOption ("--" ++ long)) else .ok (set request)

/-- An option whose value may be given once. -/
def single {α : Type} (long : String) (short? : Option Char) (parse : String → Except UsageError α)
    (value? : ρ → Option α) (set : ρ → α → ρ) : OptionRule ρ where
  long
  short?
  action := .value fun word request =>
    if (value? request).isSome then .error (.repeatedOption ("--" ++ long))
    else return set request (← parse word)

def help : OptionRule ρ where
  long := "help"
  short? := some 'h'
  action := .flag fun _ => .error .helpRequested

end

/-! ### The replace command -/

/-- A request to replace tokens while it is being read, when it is not known yet whether a format will be given. -/
structure ReplaceWords where
  request : ReplaceRequest := { roots := [] }
  format? : Option OutputFormat := none

def replaceGrammar : Grammar ReplaceWords where
  options := [
    { long := "token"
      short? := some 't'
      action := .value fun word words =>
        .ok { words with request.tokens := words.request.tokens ++ [word] } },
    single "tokens" none path (·.request.tokenFile?)
      fun words file => { words with request.tokenFile? := some file },
    single "output" (some 'o') path (·.request.output?)
      fun words root => { words with request.output? := some root },
    switch "strict" none (·.request.strict) fun words => { words with request.strict := true },
    switch "dry-run" none (·.request.dryRun) fun words => { words with request.dryRun := true },
    switch "clean" none (·.request.clean) fun words => { words with request.clean := true },
    single "jobs" (some 'j') number (·.request.jobs?)
      fun words jobs => { words with request.jobs? := some jobs },
    single "format" (some 'f') format (·.format?)
      fun words format => { words with format? := some format },
    switch "quiet" (some 'q') (·.request.quiet) fun words => { words with request.quiet := true },
    help]
  place word words := do
    let root ← path word
    return { words with request.roots := words.request.roots ++ [root] }

def readReplace (words : List String) : Except UsageError ReplaceRequest := do
  let ⟨request, format?⟩ ← replaceGrammar.read {} words
  if request.roots.isEmpty then throw (.missingArgument "<DIR>...")
  if request.clean && request.output?.isNone then throw (.missingArgument "--output <DIR>")
  return { request with format := format?.getD .json }

/-! ### The sites command -/

structure SitesWords where
  classFile? : Option Path := none
  format? : Option OutputFormat := none

def sitesGrammar : Grammar SitesWords where
  options := [
    single "format" (some 'f') format (·.format?)
      fun words format => { words with format? := some format },
    help]
  place word words := return { words with classFile? := some (← path word) }
  placeLimit? := some 1

def readSites (words : List String) : Except UsageError SitesRequest := do
  let ⟨classFile?, format?⟩ ← sitesGrammar.read {} words
  match classFile? with
  | none => throw (.missingArgument "<CLASS_FILE>")
  | some classFile => return { classFile, format := format?.getD .json }

/-! ### Choosing a command -/

/-- Before a command there is nothing but the question for help. -/
def topGrammar : Grammar Unit where
  options := [help]
  place word _ := .error (.unknownCommand word)

def isCommandName (word : String) : Bool :=
  word ∈ ["replace", "sites", "help"]

/-- The words after the help command name the command that help is wanted for. -/
def helpOn : List String → UsageError
  | [] => .helpRequested
  | [word] => if isCommandName word then .helpRequested else .unknownCommand word
  | word :: other :: _ => .unknownCommand (if isCommandName word then other else word)

/-- After a double dash there is no command any more. -/
def afterDoubleDash : List String → UsageError
  | [] => .noCommand
  | word :: _ => if isCommandName word then .unknownArgument word else .unknownCommand word

end CommandLine

open CommandLine in
/-- The command that the words of a command line ask for. -/
def Command.ofWords : List String → Except UsageError Command
  | [] => throw .noCommand
  | word :: words =>
    match word.toList with
    | ['-', '-'] => throw (afterDoubleDash words)
    | '-' :: '-' :: rest => do
      discard (topGrammar.readLong { request := () } rest)
      ofWords words
    | '-' :: c :: rest => do
      discard (topGrammar.readShort { request := () } (c :: rest))
      ofWords words
    | _ =>
      if word = "replace" then return .replace (← readReplace words)
      else if word = "sites" then return .sites (← readSites words)
      else if word = "help" then throw (helpOn words)
      else throw (.unknownCommand word)

end Retoken
