import Retoken.CommandLine.Error

/-!
# Options and positional arguments

A grammar says what the words after a command mean: which options there are, and what the other words are for. Reading builds up a request `ρ` word by word.

The value of an option may be attached, as in `--output=dir`, `-odir` and `-o=dir`, or be the next word, which then must not look like an option. Short options may share one dash. After a double dash every word is positional. A value that comes as a word of its own, and positional words, are looked at only when the next option is met or the words end.
-/

namespace Retoken.CommandLine

/-- What an option does to the request: by itself, or with a value. -/
inductive Action (ρ : Type) where
  | flag (raise : ρ → Except UsageError ρ)
  | value (give : String → ρ → Except UsageError ρ)

structure OptionRule (ρ : Type) where
  long : String
  short? : Option Char := none
  action : Action ρ

structure Grammar (ρ : Type) where
  options : List (OptionRule ρ)
  /-- What one positional word does to the request. -/
  place : String → ρ → Except UsageError ρ
  /-- How many positional words there may be, if not any number. -/
  placeLimit? : Option Nat := none

/-- What has been read and not looked at yet. -/
inductive Pending (ρ : Type) where
  | nothing
  /-- An option whose value is the next word. -/
  | awaiting (option : String) (give : String → ρ → Except UsageError ρ)
  | given (give : String → ρ → Except UsageError ρ) (value : String)
  | words (words : List String)

structure Reading (ρ : Type) where
  request : ρ
  pending : Pending ρ := .nothing
  /-- How many positional words there have been. -/
  placed : Nat := 0

namespace Grammar

variable {ρ : Type} (grammar : Grammar ρ)

/-- The request with everything looked at. -/
def settle (reading : Reading ρ) : Except UsageError ρ :=
  match reading.pending with
  | .nothing => .ok reading.request
  | .awaiting option _ => .error (.missingValue option)
  | .given give value => give value reading.request
  | .words words => words.foldlM (fun request word => grammar.place word request) reading.request

/-- Continues with a change to the settled request. -/
def react (reading : Reading ρ) (change : ρ → Except UsageError ρ) :
    Except UsageError (Reading ρ) := do
  let request ← change (← grammar.settle reading)
  return { reading with request, pending := .nothing }

/-- Reads the name of an option that takes a value, with the value if it is attached. -/
def readOption (reading : Reading ρ) (option : String)
    (give : String → ρ → Except UsageError ρ) :
    Option String → Except UsageError (Reading ρ)
  | some value => grammar.react reading (give value)
  | none => do
    let request ← grammar.settle reading
    return { reading with request, pending := .awaiting option give }

/-- Separates what stands before the first equals sign from what follows it. -/
def splitAttached (word : List Char) : String × Option String :=
  match word.span (· != '=') with
  | (name, []) => (String.ofList name, none)
  | (name, _ :: value) => (String.ofList name, some (String.ofList value))

/-- Reads a word that begins with two dashes, given without them. -/
def readLong (reading : Reading ρ) (word : List Char) : Except UsageError (Reading ρ) :=
  let (name, value?) := splitAttached word
  match grammar.options.find? (·.long == name) with
  | none => .error (.unknownArgument ("--" ++ name))
  | some option =>
    match option.action, value? with
    | .flag raise, none => grammar.react reading raise
    | .flag _, some value => .error (.unexpectedValue ("--" ++ name) value)
    | .value give, value? => grammar.readOption reading ("--" ++ name) give value?

/-- What is attached to a short option. -/
def attachedValue? : List Char → Option String
  | [] => none
  | '=' :: value => some (String.ofList value)
  | value => some (String.ofList value)

/-- Reads a word that begins with one dash, given without it. -/
def readShort (reading : Reading ρ) : List Char → Except UsageError (Reading ρ)
  | [] => .ok reading
  | c :: rest =>
    match grammar.options.find? (·.short? == some c) with
    | none => .error (.unknownArgument ("-" ++ c.toString))
    | some option =>
      match option.action with
      | .flag raise => do readShort (← grammar.react reading raise) rest
      | .value give => grammar.readOption reading ("--" ++ option.long) give (attachedValue? rest)

def readPositional (reading : Reading ρ) (word : String) : Except UsageError (Reading ρ) := do
  if grammar.placeLimit?.any (· ≤ reading.placed) then throw (.unknownArgument word)
  let placed := reading.placed + 1
  match reading.pending with
  | .words words => return { reading with pending := .words (words ++ [word]), placed }
  | _ =>
    let request ← grammar.settle reading
    return { request, pending := .words [word], placed }

/-- Reads a word that does not look like an option. -/
def readPlain (reading : Reading ρ) (word : String) : Except UsageError (Reading ρ) :=
  match reading.pending with
  | .awaiting _ give => .ok { reading with pending := .given give word }
  | _ => grammar.readPositional reading word

def readWords (reading : Reading ρ) : List String → Except UsageError (Reading ρ)
  | [] => .ok reading
  | word :: words =>
    match word.toList with
    | ['-', '-'] => words.foldlM grammar.readPositional reading
    | '-' :: '-' :: rest => do readWords (← grammar.readLong reading rest) words
    | '-' :: c :: rest => do readWords (← grammar.readShort reading (c :: rest)) words
    | _ => do readWords (← grammar.readPlain reading word) words

/-- The request that the words make of the given one. -/
def read (request : ρ) (words : List String) : Except UsageError ρ := do
  grammar.settle (← grammar.readWords { request } words)

end Grammar

end Retoken.CommandLine
