import Retoken.CommandLine.Basic
import Retoken.Run.Basic

/-!
# The program

The program reads a command from its command line, carries it out on a disk, and answers with what it prints and the status it ends with. The caller tells the time that a run took.
-/

namespace Retoken

/-- What a program prints, and its exit status. -/
structure Printout where
  status : UInt8 := 0
  output : String := ""
  errors : String := ""
deriving DecidableEq, Repr

namespace Program

/-- Each line followed by a line break. -/
def linesOf (lines : List String) : String :=
  String.join (lines.map (· ++ "\n"))

/-! ### Failing -/

def blanks (n : Nat) : String :=
  String.ofList (List.replicate n ' ')

/-- A message behind an opening, with a margin as wide before the lines it goes on in. -/
def indented (opening message : String) : String :=
  let margin := List.replicate opening.length ' '
  opening ++ String.ofList (Text.replaceAll ['\n'] ('\n' :: margin) message.toList)

/-- What stands before one of several causes: its number in five columns. -/
def numberedOpening (number : Nat) : String :=
  let digits := toString number
  blanks (5 - digits.length) ++ digits ++ ": "

/-- The causes of a failure, numbered if there are several. -/
def causeLines : List String → List String
  | [] => []
  | [cause] => ["", "Caused by:", indented (blanks 4) cause]
  | causes =>
    ["", "Caused by:"] ++ causes.mapIdx fun i cause => indented (numberedOpening i) cause

/-- The lines in which a failure is told. -/
def failureLines (failure : Failure) : List String :=
  match failure.messages with
  | [] => ["Error: "]
  | message :: causes => ("Error: " ++ message) :: causeLines causes

def failed (failure : Failure) : Printout where
  status := 1
  errors := linesOf (failureLines failure)

/-! ### The replace command -/

inductive ReplaceError where
  | settings (error : SettingsError)
  | run (error : RunError)
deriving DecidableEq, Repr

def ReplaceError.failure : ReplaceError → Failure
  | settings error => error.failure
  | run error => error.failure

def remarkLine (remark : String) : String :=
  "[class-token-replacer] " ++ remark

/-- A report as the request wants it shown. -/
def printReport (request : ReplaceRequest) (report : Report) (milliseconds : String) : Printout where
  output := match request.format with
    | .json => (report.toJson milliseconds).pretty ++ "\n"
    | .text => linesOf (report.lines milliseconds)
  errors :=
    if request.quiet then "" else linesOf ((report.remarks milliseconds).map remarkLine)

variable {m : Type → Type} [Monad m] [Disk m]

def replace (request : ReplaceRequest) : ExceptT ReplaceError m Report := do
  let settings ← (Settings.ofRequest request).adapt ReplaceError.settings
  (run settings).adapt ReplaceError.run

/-! ### The sites command -/

inductive SitesError where
  | unreadable (path : Path) (error : OsError)
  | undecodable (path : Path) (error : ClassError)
deriving DecidableEq, Repr

def SitesError.failure : SitesError → Failure
  | unreadable path error => ⟨[s!"Failed to read class file: {path.text}"], some (.os error)⟩
  | undecodable path error => ⟨[s!"Failed to decode {path.text}"], some (.classFile error)⟩

def sites (path : Path) : ExceptT SitesError m (List Declaration.SiteRecord) := do
  let bytes ← (Disk.read path).adapt (SitesError.unreadable path)
  match ClassFile.ofBytes bytes with
  | .ok file => return file.declaration.records
  | .error error => throw (.undecodable path error)

def siteJson (site : Declaration.SiteRecord) : JsonValue :=
  .object [("location", .string site.place.label), ("value", .string site.text)]

def siteLine (site : Declaration.SiteRecord) : String :=
  s!"{site.place.label}\t{Text.quoted site.text}"

def printSites (format : OutputFormat) (sites : List Declaration.SiteRecord) : Printout where
  output := match format with
    | .json => (JsonValue.array (sites.map siteJson)).pretty ++ "\n"
    | .text => linesOf (sites.map siteLine)

/-! ### From the command line to the exit -/

def usage : String :=
  linesOf [
    "Replace literal tokens inside the string constants of compiled Java classes",
    "",
    "Usage: class-token-replacer replace [OPTIONS] <DIR>...",
    "       class-token-replacer sites [--format <FORMAT>] <CLASS_FILE>",
    "",
    "Options of replace:",
    "  -t, --token <KEY=VALUE>  A single token, applied after the token file",
    "      --tokens <FILE>      JSON object mapping tokens to replacements",
    "  -o, --output <DIR>       Write changed classes under DIR instead of replacing them in place",
    "      --strict             Abort before writing anything if any class fails to process",
    "      --dry-run            Write nothing",
    "      --clean              Delete existing .class files under the output directory first",
    "  -j, --jobs <N>           Work on N classes at a time",
    "  -f, --format <FORMAT>    json or text",
    "  -q, --quiet              Print the report only",
    "  -h, --help               Print help"]

/-- What a command line that asks for no command is answered with. -/
def misused : UsageError → Printout
  | .helpRequested => { output := usage }
  | .noCommand => { status := 2, errors := usage }
  | error => { status := 2, errors := linesOf [s!"error: {error.message}"] }

def perform (milliseconds : m String) : Command → m Printout
  | .replace request => do
    match ← (replace request).run with
    | .ok report => return printReport request report (← milliseconds)
    | .error error => return failed error.failure
  | .sites request => do
    match ← (sites request.classFile).run with
    | .ok sites => return printSites request.format sites
    | .error error => return failed error.failure

/-- The whole program. The first argument tells the time since it was started. -/
def execute (milliseconds : m String) (words : List String) : m Printout :=
  match Command.ofWords words with
  | .ok command => perform milliseconds command
  | .error error => return misused error

end Program

end Retoken
