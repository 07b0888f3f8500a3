import Retoken.ClassFile.Place
import Retoken.Json.Printer
import Retoken.Run.Output

/-!
# Reports

A report says what a run did, with a record for each class that was retokened or could not be. Classes in which nothing changed are only counted.
-/

namespace Retoken

inductive FileRecord where
  | retokened (source destination : Path) (tally : Tally) (digest : String)
  | skipped (source : Path) (error : ClassError)
deriving DecidableEq, Repr

namespace FileRecord

def isSkipped : FileRecord → Bool
  | retokened .. => false
  | skipped .. => true

def toJson : FileRecord → JsonValue
  | retokened source destination tally digest => .object [
    ("source", .string source.text),
    ("status", .string "rewritten"),
    ("destination", .string destination.text),
    ("sites", .number (toString tally.sites)),
    ("rewritten_sites", .number (toString tally.replaced)),
    ("sha256", .string digest)]
  | skipped source error => .object [
    ("source", .string source.text),
    ("status", .string "skipped"),
    ("sites", .number "0"),
    ("rewritten_sites", .number "0"),
    ("error_kind", .string error.category),
    ("reason", .string error.message)]

def line : FileRecord → String
  | retokened source destination tally _ =>
    s!"- rewritten {source.text} -> {destination.text} ({tally.replaced} of {tally.sites} sites)"
  | skipped source error => s!"- skipped {source.text}: {error.message}"

end FileRecord

structure Report where
  roots : List Path
  output : Output
  dryRun : Bool
  /-- How many classes were found. -/
  scanned : Nat
  retokened : Nat
  unchanged : Nat
  skipped : Nat
  /-- How many classes were removed from the output directory. -/
  cleaned : Nat
  files : List FileRecord
deriving DecidableEq, Repr

namespace Report

def skippedFiles (report : Report) : List FileRecord :=
  report.files.filter FileRecord.isSkipped

/-- The report as JSON. The time the run took is given as the numeral to show. -/
def toJson (report : Report) (milliseconds : String) : JsonValue :=
  .object [
    ("roots", .array (report.roots.map (.string ·.text))),
    ("mode", .string report.output.name),
    ("output_root", (report.output.root?.map (JsonValue.string ·.text)).getD .null),
    ("dry_run", .bool report.dryRun),
    ("scanned", .number (toString report.scanned)),
    ("rewritten", .number (toString report.retokened)),
    ("unchanged", .number (toString report.unchanged)),
    ("skipped", .number (toString report.skipped)),
    ("cleaned", .number (toString report.cleaned)),
    ("duration_ms", .number milliseconds),
    ("files", .array (report.files.map FileRecord.toJson))]

/-- The report as lines of text. -/
def lines (report : Report) (milliseconds : String) : List String :=
  [s!"mode: {report.output.name}"]
    ++ (report.output.root?.map fun root => s!"output_root: {root.text}").toList
    ++ [s!"scanned: {report.scanned}",
      s!"rewritten: {report.retokened}",
      s!"unchanged: {report.unchanged}",
      s!"skipped: {report.skipped}",
      s!"duration_ms: {milliseconds}"]
    ++ report.files.map FileRecord.line

/-- What is told about the run while its report goes to the output. -/
def remarks (report : Report) (milliseconds : String) : List String :=
  let verb := if report.dryRun then "would rewrite" else "rewrote"
  (report.files.filterMap fun
    | .skipped source error => some s!"skipped {source.text}: {error.message}"
    | .retokened .. => none)
    ++ [s!"{verb} {report.retokened} of {report.scanned} classes ({report.unchanged} unchanged, {report.skipped} skipped) in {milliseconds} ms"]

end Report

end Retoken
