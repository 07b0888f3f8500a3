import Retoken.Proofs.Run.Preparing

/-!
# Runs that end before they write

A run first examines all classes and plans for them, and that only looks. So whatever keeps it from making a plan leaves all files as they are, also those that it was to clean, and a run that gets as far as writing has a plan. The plan is the same for a dry run, which therefore foretells the report.
-/

namespace Retoken

open Retoken.FileSystem

variable {α β ε δ : Type} {fs fs' : FileSystem} {settings : Settings} {sources : List ClassSource}
  {source : ClassSource} {plan : Plan} {bytes : List UInt8} {error : RunError} {write : PendingWrite}

/-! ### Failures by their kind -/

def Raises (kind : ε → Prop) (action : ExceptT ε (StateM FileSystem) α) : Prop :=
  ∀ fs error, (action.run fs).1 = .error error → kind error

namespace Raises

variable {kind : ε → Prop} {first : ExceptT ε (StateM FileSystem) α} {next : α → ExceptT ε (StateM FileSystem) β}

theorem pure (a : α) : Raises kind (Pure.pure a : ExceptT ε (StateM FileSystem) α) :=
  fun _ _ hfails => by cases hfails

theorem adapt {action : ExceptT δ (StateM FileSystem) α} {f : δ → ε} (hkind : ∀ error, kind (f error)) :
    Raises kind (action.adapt f) := by
  intro fs error hfails
  change ((action.run fs).1).mapError f = .error error at hfails
  cases hresult : (action.run fs).1 with
  | ok a =>
    rw [hresult] at hfails
    cases hfails
  | error cause =>
    rw [hresult] at hfails
    cases hfails
    exact hkind cause

theorem bind (hfirst : Raises kind first) (hnext : ∀ a, Raises kind (next a)) : Raises kind (first >>= next) := by
  intro fs error hfails
  have hrun : (first >>= next).run fs = ExceptT.bindCont next (first.run fs).1 (first.run fs).2 := rfl
  rw [hrun] at hfails
  cases hresult : (first.run fs).1 with
  | ok a =>
    rw [hresult] at hfails
    exact hnext a _ error hfails
  | error cause =>
    rw [hresult] at hfails
    cases hfails
    exact hfirst fs error hresult

theorem forM {items : List α} {step : α → ExceptT ε (StateM FileSystem) PUnit}
    (hstep : ∀ item, Raises kind (step item)) :
    Raises kind (items.forM step) := by
  induction items with
  | nil => exact pure _
  | cons item items ih => exact bind (hstep item) fun _ => ih

end Raises

/-- Whether the error is about a class that a plan was to be made for. -/
def RunError.precedesWriting : RunError → Bool
  | unreadableClass .. | rejectedClass .. | collision .. => true
  | unlistedDirectory .. | staleOutput .. | unwrittenClass .. => false

namespace Run

theorem carryOut_raises (settings : Settings) (plan : Plan) :
    Raises (·.precedesWriting = false) (carryOut settings plan : ExceptT RunError (StateM FileSystem) Nat) := by
  have hscan (root : Path) :
      Raises (·.precedesWriting = false) (ClassSource.scan root :
          ExceptT RunError (StateM FileSystem) (List ClassSource)) := by
    refine Raises.bind (fun _ _ hfails => by cases hfails) fun there => ?_
    cases !there || root.same ClassSource.standardInput with
    | true => exact Raises.pure _
    | false => exact Raises.bind (Raises.adapt fun _ => rfl) fun _ => Raises.pure _
  have hstale : Raises (·.precedesWriting = false) (removeStale settings :
      ExceptT RunError (StateM FileSystem) Nat) := by
    rw [removeStale]
    split
    · refine Raises.bind (hscan _) fun stale => Raises.bind (Raises.forM fun source => ?_) fun _ => Raises.pure _
      exact Raises.adapt fun _ => rfl
    · exact Raises.pure _
  refine Raises.bind hstale fun cleaned => Raises.bind (Raises.forM fun write => ?_) fun _ => Raises.pure _
  exact Raises.adapt fun _ => rfl

/-! ### Reasons to fail -/

def Unreadable (fs : FileSystem) (sources : List ClassSource) : Prop :=
  ∃ source ∈ sources, ∃ error, fs.read source.path = .error error

def Rejected (fs : FileSystem) (settings : Settings) (sources : List ClassSource) : Prop :=
  ∃ source ∈ sources, ∃ bytes error, fs.read source.path = .ok bytes ∧ retoken settings.tokens bytes = .error error

def Collides (fs : FileSystem) (settings : Settings) (sources : List ClassSource) : Prop :=
  ∃ first second bytes bytes', [first, second].Sublist sources ∧ Changes fs settings first bytes
    ∧ Changes fs settings second bytes'
    ∧ (settings.output.destination first).components = (settings.output.destination second).components

theorem exists_of_sublist_writesOf {first second : PendingWrite}
    (horder : [first, second].Sublist (Plan.writesOf settings (examinedIn fs settings sources))) :
    ∃ one other bytes bytes', [one, other].Sublist sources ∧ Changes fs settings one bytes
      ∧ Changes fs settings other bytes'
      ∧ first = ⟨one.path, settings.output.destination one, bytes⟩
      ∧ second = ⟨other.path, settings.output.destination other, bytes'⟩ := by
  rw [writesOf_examinedIn] at horder
  obtain ⟨order, hsublist, hpair⟩ := List.sublist_filterMap_iff.mp horder
  obtain ⟨_, one, later, rfl, -, hone, hlater⟩ := List.filterMap_eq_cons_iff.mp hpair.symm
  obtain ⟨_, other, _, rfl, -, hother, -⟩ := List.filterMap_eq_cons_iff.mp hlater
  obtain ⟨bytes, hchanges, rfl⟩ := writeIn?_eq_some.mp hone
  obtain ⟨bytes', hchanges', rfl⟩ := writeIn?_eq_some.mp hother
  refine ⟨one, other, bytes, bytes', List.Sublist.trans ?_ hsublist, hchanges, hchanges', rfl, rfl⟩
  simp

theorem of_hindered (hhindered : Plan.Hindered settings (examinedIn fs settings sources) error) :
    error.precedesWriting = true
      ∧ (Unreadable fs sources ∨ settings.strict = true ∧ Rejected fs settings sources
        ∨ Collides fs settings sources) := by
  cases hhindered with
  | unreadable hmem =>
    obtain ⟨hsource, hread⟩ := mem_examinedIn.mp hmem
    exact ⟨rfl, .inl ⟨_, hsource, _, except_map_eq_error.mp hread⟩⟩
  | rejected hstrict hmem =>
    obtain ⟨hsource, hexamined⟩ := mem_examinedIn.mp hmem
    obtain ⟨bytes, hread, hretoken⟩ := except_map_eq_ok.mp hexamined
    exact ⟨rfl, .inr (.inl ⟨hstrict, _, hsource, bytes, _, hread, hretoken⟩)⟩
  | collision horder hsame =>
    obtain ⟨one, other, bytes, bytes', hsublist, hchanges, hchanges', rfl, rfl⟩ := exists_of_sublist_writesOf horder
    exact ⟨rfl, .inr (.inr ⟨one, other, bytes, bytes', hsublist, hchanges, hchanges', hsame⟩)⟩

theorem exists_hindered (hobstacle : Unreadable fs sources ∨ settings.strict = true ∧ Rejected fs settings sources
    ∨ Collides fs settings sources) : ∃ error, Plan.Hindered settings (examinedIn fs settings sources) error := by
  rcases hobstacle with ⟨source, hsource, error, hread⟩ | ⟨hstrict, source, hsource, bytes, error, hread, hretoken⟩
    | ⟨first, second, bytes, bytes', horder, hfirst, hsecond, hsame⟩
  · exact ⟨_, .unreadable (mem_examinedIn.mpr ⟨hsource, except_map_eq_error.mpr hread⟩)⟩
  · exact ⟨_, .rejected hstrict (mem_examinedIn.mpr ⟨hsource, except_map_eq_ok.mpr ⟨bytes, hread, hretoken⟩⟩)⟩
  · have hwrites := horder.filterMap (writeIn? fs settings)
    rw [List.filterMap_cons_some hfirst.writeIn?, List.filterMap_cons_some hsecond.writeIn?,
      List.filterMap_nil] at hwrites
    rw [← writesOf_examinedIn] at hwrites
    exact ⟨_, Plan.Hindered.collision hwrites hsame⟩

def reportOn (settings : Settings) (sources : List ClassSource) (plan : Plan) (cleaned : Nat) : Report where
  roots := settings.roots
  output := settings.output
  dryRun := settings.dryRun
  scanned := sources.length
  retokened := plan.writes.size
  unchanged := plan.unchanged
  skipped := plan.files.size - plan.writes.size
  cleaned := cleaned
  files := plan.files.toList

end Run

def runOn (fs : FileSystem) (settings : Settings) : Except RunError Report × FileSystem :=
  (run settings : ExceptT RunError (StateM FileSystem) Report).run fs

theorem run_of_prepare_error
    (hprepare : (Run.prepare settings : ExceptT RunError (StateM FileSystem) (List ClassSource × Plan)).run fs
      = (.error error, fs)) :
    runOn fs settings = (.error error, fs) :=
  run_bind_of_error hprepare

theorem run_of_prepare
    (hprepare : (Run.prepare settings : ExceptT RunError (StateM FileSystem) (List ClassSource × Plan)).run fs
      = (.ok (sources, plan), fs)) :
    runOn fs settings
      = if settings.dryRun then (.ok (Run.reportOn settings sources plan 0), fs)
        else
          let carried := (Run.carryOut settings plan : ExceptT RunError (StateM FileSystem) Nat).run fs
          (carried.1.map (Run.reportOn settings sources plan), carried.2) := by
  rw [runOn, run, run_bind_of_ok hprepare]
  dsimp only
  by_cases hdry : settings.dryRun = true
  · rw [if_pos hdry, if_pos hdry]
    rfl
  · rw [if_neg hdry, if_neg hdry]
    rcases hcarried : (Run.carryOut settings plan : ExceptT RunError (StateM FileSystem) Nat).run fs
      with ⟨_ | cleaned, fs'⟩
    · exact run_bind_of_error hcarried
    · exact run_bind_of_ok hcarried

theorem run_dry (hdry : settings.dryRun = true) :
    ((run settings : ExceptT RunError (StateM FileSystem) Report).run fs).2 = fs := by
  refine Maintains.bind (Run.prepare_looks settings) (fun _ planned _ _ => ?_) fs rfl
  dsimp only
  rw [if_pos hdry]
  exact Maintains.pure _

/-- How a run fails: no plan is made and nothing has happened, or it fails while carrying out its plan. -/
theorem run_error_cases
    (hfails : (runOn fs settings).1 = .error error) :
    runOn fs settings = (.error error, fs)
        ∧ (((ClassSource.scanAll settings.roots : ExceptT RunError (StateM FileSystem) (List ClassSource)).run fs).1
            = .error error
          ∨ ∃ sources, Run.Scanned fs settings sources
            ∧ Plan.Hindered settings (Run.examinedIn fs settings sources) error)
      ∨ settings.dryRun = false ∧ error.precedesWriting = false
        ∧ ∃ sources plan, (Run.prepare settings : ExceptT RunError (StateM FileSystem) (List ClassSource × Plan)).run fs
            = (.ok (sources, plan), fs)
          ∧ ((Run.carryOut settings plan : ExceptT RunError (StateM FileSystem) Nat).run fs).1 = .error error := by
  cases hscan : ((ClassSource.scanAll settings.roots :
      ExceptT RunError (StateM FileSystem) (List ClassSource)).run fs).1 with
  | error cause =>
    have hrun := run_of_prepare_error (Run.prepare_of_scan_error hscan)
    rw [hrun] at hfails
    cases hfails
    exact .inl ⟨hrun, .inl rfl⟩
  | ok sources =>
    rcases Run.prepare_cases hscan with ⟨plan, hprepare, -⟩ | ⟨cause, hprepare, hhindered⟩
    · rw [run_of_prepare hprepare] at hfails
      by_cases hdry : settings.dryRun = true
      · rw [if_pos hdry] at hfails
        cases hfails
      · rw [if_neg hdry] at hfails
        have hcarried := except_map_eq_error.mp hfails
        exact .inr ⟨Bool.eq_false_iff.mpr hdry, Run.carryOut_raises settings plan fs error hcarried,
          sources, plan, hprepare, hcarried⟩
    · have hrun := run_of_prepare_error hprepare
      rw [hrun] at hfails
      cases hfails
      exact .inl ⟨hrun, .inr ⟨sources, hscan, hhindered⟩⟩

/-- How a run succeeds: with a plan that covers all classes, which is carried out unless the run is dry. -/
theorem run_ok_cases {report : Report}
    (hrun : runOn fs settings = (.ok report, fs')) :
    ∃ sources plan cleaned, Run.Scanned fs settings sources
      ∧ (Run.prepare settings : ExceptT RunError (StateM FileSystem) (List ClassSource × Plan)).run fs
          = (.ok (sources, plan), fs)
      ∧ Plan.Covers settings (Run.examinedIn fs settings sources) plan
      ∧ report = Run.reportOn settings sources plan cleaned
      ∧ (settings.dryRun = false → (Run.carryOut settings plan : ExceptT RunError (StateM FileSystem) Nat).run fs
          = (.ok cleaned, fs')) := by
  cases hscan : ((ClassSource.scanAll settings.roots :
      ExceptT RunError (StateM FileSystem) (List ClassSource)).run fs).1 with
  | error cause =>
    rw [run_of_prepare_error (Run.prepare_of_scan_error hscan)] at hrun
    cases hrun
  | ok sources =>
    rcases Run.prepare_cases hscan with ⟨plan, hprepare, hcovers⟩ | ⟨cause, hprepare, -⟩
    · rw [run_of_prepare hprepare] at hrun
      by_cases hdry : settings.dryRun = true
      · rw [if_pos hdry] at hrun
        cases hrun
        exact ⟨sources, plan, 0, hscan, hprepare, hcovers, rfl, fun hwet => by rw [hwet] at hdry; cases hdry⟩
      · rw [if_neg hdry] at hrun
        obtain ⟨hreport, hstate⟩ := Prod.mk.inj hrun
        obtain ⟨cleaned, hcarried, rfl⟩ := except_map_eq_ok.mp hreport
        exact ⟨sources, plan, cleaned, hscan, hprepare, hcovers, rfl, fun _ => Prod.ext hcarried hstate⟩
    · rw [run_of_prepare_error hprepare] at hrun
      cases hrun

theorem prepare_dry (settings : Settings) :
    (Run.prepare { settings with dryRun := true } : ExceptT RunError (StateM FileSystem) (List ClassSource × Plan))
      = Run.prepare settings :=
  rfl

theorem runOn_dry_of_prepare
    (hprepare : (Run.prepare settings : ExceptT RunError (StateM FileSystem) (List ClassSource × Plan)).run fs
      = (.ok (sources, plan), fs)) :
    runOn fs { settings with dryRun := true }
      = (.ok { Run.reportOn settings sources plan 0 with dryRun := true }, fs) := by
  rw [← prepare_dry] at hprepare
  rw [run_of_prepare hprepare]
  rfl

/-- A dry run foretells what the run reports. -/
theorem runOn_dry {report : Report} (hrun : runOn fs settings = (.ok report, fs')) :
    runOn fs { settings with dryRun := true } = (.ok { report with dryRun := true, cleaned := 0 }, fs) := by
  obtain ⟨sources, plan, cleaned, -, hprepare, -, rfl, -⟩ := run_ok_cases hrun
  exact runOn_dry_of_prepare hprepare

/-- Nothing is written before all classes have been examined. A dry run changes no file, and neither does a run that fails because a class cannot be read, because every class has to be retokened and one cannot be, or because two changed classes go to one place. If every class has to be retokened, a run succeeds only if all of them are; otherwise a class that cannot be is never the reason for a failure. And a run that succeeds is foretold by the dry run. -/
theorem run_aborts_before_writing (fs : FileSystem) (settings : Settings) :
    (settings.dryRun = true → (runOn fs settings).2 = fs)
    ∧ (∀ error, (runOn fs settings).1 = .error error → error.precedesWriting = true → (runOn fs settings).2 = fs)
    ∧ (∀ sources, Run.Scanned fs settings sources →
        Run.Unreadable fs sources ∨ settings.strict = true ∧ Run.Rejected fs settings sources
          ∨ Run.Collides fs settings sources →
        ∃ error, error.precedesWriting = true ∧ runOn fs settings = (.error error, fs))
    ∧ (settings.strict = true → ∀ report sources, (runOn fs settings).1 = .ok report → Run.Scanned fs settings sources →
        ∀ source ∈ sources, ∃ bytes retokened, fs.read source.path = .ok bytes
          ∧ retoken settings.tokens bytes = .ok retokened)
    ∧ (settings.strict = false → ∀ sources, Run.Scanned fs settings sources →
        ¬ Run.Unreadable fs sources → ¬ Run.Collides fs settings sources →
        (∃ report, runOn fs { settings with dryRun := true } = (.ok report, fs))
          ∧ ∀ error, (runOn fs settings).1 = .error error → error.precedesWriting = false
            ∧ ∃ plan, (Run.prepare settings : ExceptT RunError (StateM FileSystem) (List ClassSource × Plan)).run fs
                = (.ok (sources, plan), fs)
              ∧ ((Run.carryOut settings plan : ExceptT RunError (StateM FileSystem) Nat).run fs).1 = .error error)
    ∧ (settings.dryRun = false → ∀ report fs', runOn fs settings = (.ok report, fs') →
        runOn fs { settings with dryRun := true } = (.ok { report with dryRun := true, cleaned := 0 }, fs)) := by
  refine ⟨run_dry, ?_, ?_, ?_, ?_, fun _ report fs' hrun => runOn_dry hrun⟩
  · intro error hfails hprecedes
    rcases run_error_cases hfails with ⟨hrun, -⟩ | ⟨-, hlate, -⟩
    · rw [hrun]
    · rw [hlate] at hprecedes
      cases hprecedes
  · intro sources hscan hobstacle
    obtain ⟨error, hhindered⟩ := Run.exists_hindered hobstacle
    -- A plan would cover all classes, and no plan can when one of them is in the way.
    rcases Run.prepare_cases hscan with ⟨plan, -, hcovers⟩ | ⟨cause, hprepare, hcause⟩
    · exact absurd hhindered hcovers.not_hindered
    · exact ⟨cause, (Run.of_hindered hcause).1, run_of_prepare_error hprepare⟩
  · intro hstrict report sources hrun hscan source hsource
    obtain ⟨scanned, plan, cleaned, hscanned, -, hcovers, -, -⟩ := run_ok_cases (Prod.ext hrun rfl)
    obtain rfl : scanned = sources := Except.ok.inj (hscanned.symm.trans hscan)
    obtain ⟨outcome, hread, hretokened⟩ := hcovers.passes _ (Run.mem_examinedIn.mpr ⟨hsource, rfl⟩)
    obtain ⟨bytes, hbytes, rfl⟩ := except_map_eq_ok.mp hread
    obtain ⟨retokened, hretoken⟩ := hretokened hstrict
    exact ⟨bytes, retokened, hbytes, hretoken⟩
  · intro hstrict sources hscan hreadable hapart
    rcases Run.prepare_cases hscan with ⟨plan, hprepare, hcovers⟩ | ⟨cause, -, hcause⟩
    · refine ⟨⟨_, runOn_dry_of_prepare hprepare⟩, fun error hfails => ?_⟩
      rcases run_error_cases hfails with ⟨hrun, hearly⟩ | ⟨-, hlate, scanned, carried, hprepared, hcarried⟩
      · rcases hearly with hunscanned | ⟨scanned, hscanned, hhindered⟩
        · rw [hscan] at hunscanned
          cases hunscanned
        · obtain rfl : scanned = sources := Except.ok.inj (hscanned.symm.trans hscan)
          exact absurd hhindered hcovers.not_hindered
      · rw [hprepare] at hprepared
        cases hprepared
        exact ⟨hlate, plan, hprepare, hcarried⟩
    · rcases (Run.of_hindered hcause).2 with hunreadable | ⟨hother, -⟩ | hcollides
      · exact absurd hunreadable hreadable
      · rw [hstrict] at hother
        cases hother
      · exact absurd hcollides hapart

/-! ### A class that cannot be retokened -/

/-- An input directory with a file that is no class, and an output directory with a class that is to be removed. -/
def brokenDirectory : FileSystem where
  nodes := .ofList [
    (["in"], Node.directory),
    (["in", "X.class"], .file [0xca, 0xfe]),
    (["out"], .directory),
    (["out", "Old.class"], .file [0xca, 0xfe])]

def strictSettings : Settings where
  tokens := ⟨[("ab", "-")]⟩
  roots := [⟨"in"⟩]
  output := .shadow ⟨"out"⟩
  strict := true
  dryRun := false
  clean := true
  jobs? := none

/-- The run fails, and the class is not removed. -/
theorem run_aborts_before_writing_brokenDirectory :
    brokenDirectory.node? ["out", "Old.class"] = some (.file [0xca, 0xfe])
      ∧ ∃ error, error.precedesWriting = true
        ∧ runOn brokenDirectory strictSettings = (.error error, brokenDirectory) := by
  have hscan : Run.Scanned brokenDirectory strictSettings [⟨⟨"in"⟩, ⟨"X.class"⟩⟩] := by
    rw [Run.Scanned]
    decide +kernel
  have hread : brokenDirectory.read (ClassSource.mk ⟨"in"⟩ ⟨"X.class"⟩).path = .ok [0xca, 0xfe] := by
    decide +kernel
  have hrejected : Run.Rejected brokenDirectory strictSettings [⟨⟨"in"⟩, ⟨"X.class"⟩⟩] := by
    have hfails : (retoken strictSettings.tokens [0xca, 0xfe]).isOk = false := by decide +kernel
    cases hretoken : retoken strictSettings.tokens [0xca, 0xfe] with
    | error error => exact ⟨_, List.mem_singleton.mpr rfl, _, error, hread, hretoken⟩
    | ok retokened =>
      rw [hretoken] at hfails
      cases hfails
  refine ⟨by decide +kernel, ?_⟩
  exact (run_aborts_before_writing brokenDirectory strictSettings).2.2.1 _ hscan (.inr (.inl ⟨rfl, hrejected⟩))

end Retoken
