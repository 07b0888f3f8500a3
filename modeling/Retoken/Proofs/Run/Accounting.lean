import Mathlib.Data.List.Forall2
import Retoken.Proofs.Rerun
import Retoken.Proofs.Run.Aborting

/-!
# What a report accounts for

Each class that a run finds is retokened, skipped or left as it is, and `Run.Tells` says which record a report owes it. The report of a run that succeeds holds these records in the order in which the classes were found and nothing else. So its three numbers, which are counted on the way, are the numbers of records of each kind and of classes without one, and they add up to the number of classes.
-/

namespace Retoken

open Retoken.FileSystem

variable {fs fs' : FileSystem} {settings : Settings} {sources : List ClassSource} {source : ClassSource}
  {report : Report} {examined : Examined}

namespace Run

/-- The record that a report owes a class, if it owes one. -/
inductive Tells (fs : FileSystem) (settings : Settings) (source : ClassSource) : Option FileRecord → Prop where
  | retokened {old new : List UInt8} {tally : Tally} (hread : fs.read source.path = .ok old)
      (hretoken : retoken settings.tokens old = .ok ⟨tally, some new⟩) :
      Tells fs settings source
        (some (.retokened source.path (settings.output.destination source) tally (Digest.Sha256.hexDigest new)))
  | skipped {old : List UInt8} {error : ClassError} (hread : fs.read source.path = .ok old)
      (hretoken : retoken settings.tokens old = .error error) : Tells fs settings source
        (some (.skipped source.path error))
  | unchanged {old : List UInt8} {tally : Tally} (hread : fs.read source.path = .ok old)
      (hretoken : retoken settings.tokens old = .ok ⟨tally, none⟩) : Tells fs settings source none

theorem tells_record? {outcome : Except ClassError Retokened}
    (hexamined : (fs.read source.path).map (retoken settings.tokens) = .ok outcome) :
    Tells fs settings source (Plan.record? settings source (.ok outcome)) := by
  obtain ⟨old, hread, hretoken⟩ := except_map_eq_ok.mp hexamined
  match outcome with
  | .error error => exact .skipped hread hretoken
  | .ok ⟨tally, none⟩ => exact .unchanged hread hretoken
  | .ok ⟨tally, some new⟩ => exact .retokened hread hretoken

theorem isUnchanged_eq (settings : Settings) (source : ClassSource) (outcome : Except ClassError Retokened) :
    Plan.isUnchanged (.ok outcome) = (Plan.record? settings source (.ok outcome)).isNone := by
  match outcome with
  | .error error => rfl
  | .ok ⟨tally, none⟩ => rfl
  | .ok ⟨tally, some new⟩ => rfl

theorem isSome_write? (settings : Settings) (source : ClassSource) (examined : Examined) :
    (Plan.write? settings source examined).isSome = (Plan.record? settings source examined).any (!·.isSkipped) := by
  match examined with
  | .error error => rfl
  | .ok (.error error) => rfl
  | .ok (.ok ⟨tally, none⟩) => rfl
  | .ok (.ok ⟨tally, some new⟩) => rfl

theorem countP_told (p : FileRecord → Bool) (told : List (Option FileRecord)) :
    (told.filterMap id).countP p = told.countP (Option.any p) := by
  rw [List.countP_filterMap]
  exact List.countP_congr fun record? _ => by cases record? <;> simp

theorem length_told (told : List (Option FileRecord)) :
    (told.filterMap id).length = told.countP (Option.any (!·.isSkipped)) + told.countP (Option.any (·.isSkipped)) := by
  have hlength := List.length_eq_countP_add_countP FileRecord.isSkipped (l := told.filterMap id)
  simp only [Bool.not_eq_true, Bool.decide_eq_false] at hlength
  rw [hlength, countP_told, countP_told, Nat.add_comm]

theorem length_records (told : List (Option FileRecord)) :
    told.length = (told.filterMap id).length + told.countP Option.isNone := by
  induction told with
  | nil => rfl
  | cons record? told ih =>
    cases record? <;> simp [ih] <;> omega

def records (fs : FileSystem) (settings : Settings) (sources : List ClassSource) : List (Option FileRecord) :=
  sources.map fun source => Plan.record? settings source ((fs.read source.path).map (retoken settings.tokens))

section Covers

variable {plan : Plan}

theorem examined_of_covers (hcovers : Plan.Covers settings (examinedIn fs settings sources) plan)
    (hsource : source ∈ sources) :
    ∃ outcome, (fs.read source.path).map (retoken settings.tokens) = .ok outcome := by
  obtain ⟨outcome, hexamined, -⟩ := hcovers.passes _ (mem_examinedIn.mpr ⟨hsource, rfl⟩)
  exact ⟨outcome, hexamined⟩

theorem tells_records (hcovers : Plan.Covers settings (examinedIn fs settings sources) plan) :
    List.Forall₂ (Tells fs settings) sources (records fs settings sources) := by
  rw [records, List.forall₂_map_right_iff, List.forall₂_same]
  intro source hsource
  obtain ⟨outcome, hexamined⟩ := examined_of_covers hcovers hsource
  rw [hexamined]
  exact tells_record? hexamined

theorem files_eq (hcovers : Plan.Covers settings (examinedIn fs settings sources) plan) :
    plan.files.toList = (records fs settings sources).filterMap id := by
  rw [hcovers.files, examinedIn, records, List.filterMap_map, List.filterMap_map]
  rfl

theorem unchanged_eq (hcovers : Plan.Covers settings (examinedIn fs settings sources) plan) :
    plan.unchanged = (records fs settings sources).countP Option.isNone := by
  rw [hcovers.unchanged, examinedIn, records, List.countP_map, List.countP_map]
  refine List.countP_congr fun source hsource => ?_
  obtain ⟨outcome, hexamined⟩ := examined_of_covers hcovers hsource
  simp only [Function.comp_apply]
  rw [hexamined, isUnchanged_eq settings source]

theorem writes_eq (hcovers : Plan.Covers settings (examinedIn fs settings sources) plan) :
    plan.writes.size = (records fs settings sources).countP (Option.any (!·.isSkipped)) := by
  have hsize : plan.writes.size = (Plan.writesOf settings (examinedIn fs settings sources)).length := by
    rw [← hcovers.writes, Array.length_toList]
  rw [hsize, Plan.writesOf, List.length_filterMap_eq_countP, examinedIn, records, List.countP_map, List.countP_map]
  exact List.countP_congr fun source _ => iff_of_eq (congrArg (· = true) (isSome_write? settings source _))

theorem size_files (hcovers : Plan.Covers settings (examinedIn fs settings sources) plan) :
    plan.files.size = plan.writes.size + (records fs settings sources).countP (Option.any (·.isSkipped)) := by
  rw [← Array.length_toList, files_eq hcovers, length_told, writes_eq hcovers]

end Covers

section Report

variable {plan : Plan} {cleaned : Nat} (hcovers : Plan.Covers settings (examinedIn fs settings sources) plan)

include hcovers

theorem skipped_eq : (reportOn settings sources plan cleaned).skipped
    = (records fs settings sources).countP (Option.any (·.isSkipped)) := by
  rw [reportOn, size_files hcovers, Nat.add_sub_cancel_left]

theorem length_skippedFiles : (reportOn settings sources plan cleaned).skippedFiles.length
    = (records fs settings sources).countP (Option.any (·.isSkipped)) := by
  rw [Report.skippedFiles, ← List.countP_eq_length_filter, reportOn, files_eq hcovers, countP_told]

end Report

end Run

/-- A run that succeeds accounts for every class that it found. The numbers of the report make up all of them, and it holds the record owed to each, in their order: one for a class that was retokened, which was also planned to be written, one for a class that was skipped, and none for a class that stays as it is. -/
theorem run_accounts_for_all (hrun : runOn fs settings = (.ok report, fs')) :
    report.scanned = report.retokened + report.unchanged + report.skipped
      ∧ report.skippedFiles.length = report.skipped
      ∧ ∃ sources told plan,
        (Run.prepare settings : ExceptT RunError (StateM FileSystem) (List ClassSource × Plan)).run fs
            = (.ok (sources, plan), fs)
          ∧ Run.Scanned fs settings sources ∧ report.scanned = sources.length
          ∧ List.Forall₂ (Run.Tells fs settings) sources told ∧ report.files = told.filterMap id
          ∧ report.retokened = told.countP (Option.any (!·.isSkipped)) ∧ report.retokened = plan.writes.size
          ∧ report.unchanged = told.countP Option.isNone
          ∧ report.skipped = told.countP (Option.any (·.isSkipped)) := by
  obtain ⟨sources, plan, cleaned, hscan, hprepare, hcovers, rfl, -⟩ := run_ok_cases hrun
  have hfiles : (Run.reportOn settings sources plan cleaned).files = (Run.records fs settings sources).filterMap id :=
    Run.files_eq hcovers
  have hretokened : (Run.reportOn settings sources plan cleaned).retokened
      = (Run.records fs settings sources).countP (Option.any (!·.isSkipped)) := Run.writes_eq hcovers
  have hunchanged : (Run.reportOn settings sources plan cleaned).unchanged
      = (Run.records fs settings sources).countP Option.isNone := Run.unchanged_eq hcovers
  have hskipped : (Run.reportOn settings sources plan cleaned).skipped = _ := Run.skipped_eq hcovers
  have hskippedFiles : (Run.reportOn settings sources plan cleaned).skippedFiles.length = _ :=
    Run.length_skippedFiles hcovers
  refine ⟨?_, hskippedFiles.trans hskipped.symm, sources, Run.records fs settings sources, plan, hprepare, hscan, rfl,
    Run.tells_records hcovers, hfiles, hretokened, rfl, hunchanged, hskipped⟩
  have hscanned : (Run.records fs settings sources).length = sources.length := List.length_map _
  rw [hretokened, hunchanged, hskipped, Nat.add_right_comm, ← Run.length_told, ← Run.length_records, hscanned]
  rfl

def ClassFile.plainClass : List UInt8 :=
  [0xca, 0xfe, 0xba, 0xbe, 0, 0, 0, 0x34, 0, 3, 7, 0, 2, 1, 0, 1, 0x41, 0, 0x21, 0, 1, 0, 0, 0, 0, 0, 0, 0, 0, 0, 0]

/-- Three input directories: one has a class that is changed, one a file that is no class, and one a class that stays as it is. -/
def mixedDirectories : FileSystem where
  nodes := .ofList [
    (["a"], Node.directory),
    (["a", "X.class"], .file ClassFile.nestedClass),
    (["b"], .directory),
    (["b", "X.class"], .file [0xca, 0xfe]),
    (["c"], .directory),
    (["c", "X.class"], .file ClassFile.plainClass)]

def mixedSettings : Settings where
  tokens := ⟨[("ab", "-")]⟩
  roots := [⟨"a"⟩, ⟨"b"⟩, ⟨"c"⟩]
  output := .inPlace
  strict := false
  dryRun := false
  clean := false
  jobs? := none

/-- One class of each kind. -/
theorem run_accounts_for_all_mixedDirectories :
    ∃ report fs', runOn mixedDirectories mixedSettings = (.ok report, fs')
      ∧ report.scanned = report.retokened + report.unchanged + report.skipped
      ∧ (report.retokened, report.unchanged, report.skipped) = (1, 1, 1) := by
  have hnumbers : (runOn mixedDirectories mixedSettings).1.map
      (fun report => (report.retokened, report.unchanged, report.skipped)) = .ok (1, 1, 1) := by
    decide +kernel
  rcases hrun : runOn mixedDirectories mixedSettings with ⟨error | report, fs'⟩
  · rw [hrun] at hnumbers
    cases hnumbers
  · rw [hrun] at hnumbers
    exact ⟨report, fs', rfl, (run_accounts_for_all hrun).1, Except.ok.inj hnumbers⟩

end Retoken
