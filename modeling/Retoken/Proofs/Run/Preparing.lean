import Retoken.Proofs.Run.Planning
import Retoken.Proofs.Run.Scanning

/-!
# What a run is going to do

The part of a run that only looks leaves the files as they are. It makes a plan for the classes that it finds, in which there is a write for each class that replacing the tokens changes.
-/

namespace Retoken

open Retoken.FileSystem

variable {fs : FileSystem} {settings : Settings} {sources : List ClassSource} {source : ClassSource} {plan : Plan}
  {bytes : List UInt8} {error : RunError} {write : PendingWrite}

/-- A planned write: its class stands below an input directory, and replacing the tokens changes it. -/
structure Planned (fs : FileSystem) (settings : Settings) (pending : PendingWrite) (source : ClassSource)
    (names : List String) : Prop where
  found : ClassSource.Found fs settings.roots source names
  destination : pending.destination = settings.output.destination source
  changed : ∃ bytes tally, fs.read source.path = .ok bytes
    ∧ retoken settings.tokens bytes = .ok ⟨tally, some pending.bytes⟩

namespace Run

def Scanned (fs : FileSystem) (settings : Settings) (sources : List ClassSource) : Prop :=
  ((ClassSource.scanAll settings.roots : ExceptT RunError (StateM FileSystem) (List ClassSource)).run fs).1
    = .ok sources

def Changes (fs : FileSystem) (settings : Settings) (source : ClassSource) (bytes : List UInt8) : Prop :=
  ∃ old tally, fs.read source.path = .ok old ∧ retoken settings.tokens old = .ok ⟨tally, some bytes⟩

theorem Changes.unique {content : List UInt8} (hchanges : Changes fs settings source bytes)
    (hother : Changes fs settings source content) : content = bytes := by
  obtain ⟨old, tally, hread, hretoken⟩ := hchanges
  obtain ⟨_, _, hread', hretoken'⟩ := hother
  rw [hread] at hread'
  cases hread'
  rw [hretoken] at hretoken'
  cases hretoken'
  rfl

def examinedIn (fs : FileSystem) (settings : Settings) (sources : List ClassSource) : List (ClassSource × Examined) :=
  sources.map fun source => (source, (fs.read source.path).map (retoken settings.tokens))

theorem mem_examinedIn {examined : Examined} :
    (source, examined) ∈ examinedIn fs settings sources
      ↔ source ∈ sources ∧ (fs.read source.path).map (retoken settings.tokens) = examined := by
  rw [examinedIn, List.mem_map]
  constructor
  · rintro ⟨_, hsource, ⟨⟩⟩
    exact ⟨hsource, rfl⟩
  · rintro ⟨hsource, rfl⟩
    exact ⟨source, hsource, rfl⟩

theorem write?_eq_some {examined : Examined} :
    Plan.write? settings source examined = some write
      ↔ ∃ tally bytes, examined = .ok (.ok ⟨tally, some bytes⟩)
        ∧ write = ⟨source.path, settings.output.destination source, bytes⟩ := by
  constructor
  · intro hwrite
    rw [Plan.write?.eq_def] at hwrite
    split at hwrite
    case h_1 tally bytes =>
      cases hwrite
      exact ⟨tally, bytes, rfl, rfl⟩
    case h_2 => cases hwrite
  · rintro ⟨tally, bytes, rfl, rfl⟩
    rfl

def writeIn? (fs : FileSystem) (settings : Settings) (source : ClassSource) : Option PendingWrite :=
  Plan.write? settings source ((fs.read source.path).map (retoken settings.tokens))

theorem writeIn?_eq_some : writeIn? fs settings source = some write
    ↔ ∃ bytes, Changes fs settings source bytes ∧ write = ⟨source.path, settings.output.destination source, bytes⟩ := by
  rw [writeIn?, write?_eq_some]
  constructor
  · rintro ⟨tally, bytes, hexamined, rfl⟩
    obtain ⟨old, hread, hretoken⟩ := except_map_eq_ok.mp hexamined
    exact ⟨bytes, ⟨old, tally, hread, hretoken⟩, rfl⟩
  · rintro ⟨bytes, ⟨old, tally, hread, hretoken⟩, rfl⟩
    exact ⟨tally, bytes, except_map_eq_ok.mpr ⟨old, hread, hretoken⟩, rfl⟩

theorem Changes.writeIn? (hchanges : Changes fs settings source bytes) :
    writeIn? fs settings source = some ⟨source.path, settings.output.destination source, bytes⟩ :=
  writeIn?_eq_some.mpr ⟨bytes, hchanges, rfl⟩

theorem writesOf_examinedIn : Plan.writesOf settings (examinedIn fs settings sources)
    = sources.filterMap (writeIn? fs settings) :=
  List.filterMap_map

theorem mem_writesOf : write ∈ Plan.writesOf settings (examinedIn fs settings sources)
    ↔ ∃ source ∈ sources, ∃ bytes, Changes fs settings source bytes
      ∧ write = ⟨source.path, settings.output.destination source, bytes⟩ := by
  rw [writesOf_examinedIn, List.mem_filterMap]
  simp only [writeIn?_eq_some]

theorem prepare_looks (settings : Settings) :
    Maintains (· = fs) (prepare settings : ExceptT RunError (StateM FileSystem) (List ClassSource × Plan)).run := by
  refine Maintains.bind (ClassSource.scanAll_looks _) fun _ _ _ _ => ?_
  refine Maintains.bind (mapM_looks fun _ _ => rfl) fun _ examined _ _ => ?_
  exact Maintains.bind (Maintains.result _) fun _ _ _ _ => Maintains.pure _

theorem prepare_of_scanned (hscan : Scanned fs settings sources) :
    (prepare settings : ExceptT RunError (StateM FileSystem) (List ClassSource × Plan)).run fs
      = ((Plan.ofExamined settings (examinedIn fs settings sources)).map (sources, ·), fs) := by
  have hexamined : sources.map (fun source => ((examine settings.tokens source :
    StateM FileSystem (ClassSource × Examined)) fs).1)
      = examinedIn fs settings sources :=
    rfl
  rw [prepare, run_bind_looking (ClassSource.scanAll_looks _) hscan, run_bind_mapM fun _ _ => rfl, hexamined]
  cases hplan : Plan.ofExamined settings (examinedIn fs settings sources) with
  | ok plan => exact run_bind_looking (Maintains.result _) rfl
  | error error => rfl

/-- Either a plan is made for the classes that are found, or something is in the way and nothing has happened. -/
theorem prepare_cases (hscan : Scanned fs settings sources) :
    (∃ plan, (prepare settings : ExceptT RunError (StateM FileSystem) (List ClassSource × Plan)).run fs
          = (.ok (sources, plan), fs)
        ∧ Plan.Covers settings (examinedIn fs settings sources) plan)
      ∨ ∃ error, (prepare settings : ExceptT RunError (StateM FileSystem) (List ClassSource × Plan)).run fs
          = (.error error, fs)
        ∧ Plan.Hindered settings (examinedIn fs settings sources) error := by
  rw [prepare_of_scanned hscan]
  rcases Plan.ofExamined_cases settings (examinedIn fs settings sources)
    with ⟨plan, hplan, hcovers⟩ | ⟨error, hplan, hhindered⟩
  · rw [hplan]
    exact .inl ⟨plan, rfl, hcovers⟩
  · rw [hplan]
    exact .inr ⟨error, rfl, hhindered⟩

theorem prepare_of_scan_error
    (hscan : ((ClassSource.scanAll settings.roots : ExceptT RunError (StateM FileSystem) (List ClassSource)).run fs).1
      = .error error) :
    (prepare settings : ExceptT RunError (StateM FileSystem) (List ClassSource × Plan)).run fs = (.error error, fs) :=
  run_bind_of_error (Prod.ext hscan (ClassSource.scanAll_looks settings.roots fs rfl))

theorem covers_of_prepare
    (hprepare : ((prepare settings : ExceptT RunError (StateM FileSystem) (List ClassSource × Plan)).run fs).1
      = .ok (sources, plan)) : Scanned fs settings sources
        ∧ Plan.Covers settings (examinedIn fs settings sources) plan := by
  cases hscan : ((ClassSource.scanAll settings.roots :
      ExceptT RunError (StateM FileSystem) (List ClassSource)).run fs).1 with
  | error error =>
    rw [prepare_of_scan_error hscan] at hprepare
    cases hprepare
  | ok scanned =>
    rcases prepare_cases hscan with ⟨plan', hprepared, hcovers⟩ | ⟨error, hprepared, -⟩
    · rw [hprepared] at hprepare
      cases hprepare
      exact ⟨hscan, hcovers⟩
    · rw [hprepared] at hprepare
      cases hprepare

theorem planned_of_prepare
    (hprepare : ((prepare settings : ExceptT RunError (StateM FileSystem) (List ClassSource × Plan)).run fs).1
      = .ok (sources, plan)) {pending : PendingWrite} (hpending : pending ∈ plan.writes) :
    ∃ source names, Planned fs settings pending source names := by
  obtain ⟨hscan, hcovers⟩ := covers_of_prepare hprepare
  rw [Array.mem_def, hcovers.writes] at hpending
  obtain ⟨source, hsource, bytes, ⟨old, tally, hread, hretoken⟩, rfl⟩ := mem_writesOf.mp hpending
  obtain ⟨names, hfound, -⟩ := ClassSource.found_of_mem_scanAll hscan hsource
  exact ⟨source, names, hfound, rfl, old, tally, hread, hretoken⟩

end Run

end Retoken
