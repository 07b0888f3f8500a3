import Retoken.Proofs.Rerun
import Retoken.Proofs.Run.Aborting
import Retoken.Proofs.Run.Accepting
import Retoken.Proofs.Run.Preparing

/-!
# What a run into an output directory leaves alone

As long as no link is in its way, a run into an output directory changes files only where it lays out a changed class, at the temporary file beside that, and where it is to clean. The checks of the request keep all of this apart from the input directories if the output directory is to be cleaned. If it is not, an input directory may lie in it, and a class may be laid out over a file of that input directory.
-/

namespace Retoken

open Retoken.FileSystem Retoken.Path

variable {fs : FileSystem} {settings : Settings} {request : ReplaceRequest} {output root : Path}
  {place directory location : Location} {pending : PendingWrite} {source : ClassSource} {names : List String}
  {plan : Plan} {bytes : List UInt8}

/-- A place below the output directory that is written to: where a changed class is laid out, or the temporary file beside it. -/
def LaidOut (fs : FileSystem) (settings : Settings) (place location : Location) : Prop :=
  ∃ pending source names, Planned fs settings pending source names
    ∧ (location = place ++ names ∨ location = place ++ temporary names)

def MayChange (fs : FileSystem) (settings : Settings) (place location : Location) : Prop :=
  settings.clean = true ∧ place <+: location ∨ LaidOut fs settings place location

def Diverted (fs : FileSystem) (settings : Settings) (place : Location) : Prop :=
  ∃ pending source names below target, Planned fs settings pending source names
    ∧ below ≠ [] ∧ (below <+: names ∨ below <+: temporary names) ∧ fs.node? (place ++ below) = some (.link target)

theorem LaidOut.within (hlaid : LaidOut fs settings place location) : place <+: location := by
  obtain ⟨_, _, names, -, rfl | rfl⟩ := hlaid
  · exact List.prefix_append place names
  · exact List.prefix_append place (temporary names)

theorem Planned.straight (hplanned : Planned fs settings pending source names) (hproper : fs.Proper)
    (hplace : fs.resolve output = .ok (place, .directory)) (hdiverted : ¬ Diverted fs settings place) :
    Straight fs output place names ∧ Straight fs output place (temporary names) := by
  have hnames := hplanned.found.isName hproper
  constructor
  · refine ⟨.of_resolve hplace, hnames, ?_⟩
    intro below target hbelow hwithin hlink
    exact hdiverted ⟨pending, source, names, below, target, hplanned, hbelow, .inl hwithin, hlink⟩
  · refine ⟨.of_resolve hplace, isName_temporary hnames, ?_⟩
    intro below target hbelow hwithin hlink
    exact hdiverted ⟨pending, source, names, below, target, hplanned, hbelow, .inr hwithin, hlink⟩

namespace Run

section

variable (hproper : fs.Proper) (hplace : fs.resolve output = .ok (place, .directory))

include hproper hplace

theorem removeClasses_keeps (hclean : settings.clean = true) :
    Kept (MayChange fs settings place) fs
      ((removeClasses output : ExceptT RunError (StateM FileSystem) Nat).run fs).2 := by
  refine run_bind_ends (Kept.refl fs) (ClassSource.scan_looks output) fun stale hscan => ?_
  refine Maintains.bind (Maintains.forM fun source hsource => ?_) (fun _ _ _ _ => Maintains.pure _) fs (Kept.refl fs)
  obtain ⟨names, hfound, -⟩ := ClassSource.found_of_mem_scan hscan hsource
  obtain rfl : source.root = output := List.mem_singleton.mp hfound.root_mem
  rw [ClassSource.path, hfound.relative]
  apply Maintains.adapt
  apply Disk.remove_maintains (hfound.straight hproper hplace) hfound.ne_nil
  exact .inl ⟨hclean, List.prefix_append place names⟩

variable (houtput : settings.output = .shadow output)

include houtput

theorem removeStale_keeps :
    Kept (MayChange fs settings place) fs
      ((removeStale settings : ExceptT RunError (StateM FileSystem) Nat).run fs).2 := by
  rw [removeStale, houtput]
  cases hclean : settings.clean with
  | true => exact removeClasses_keeps hproper hplace hclean
  | false => exact Kept.refl fs

variable (hdiverted : ¬ Diverted fs settings place)

include hdiverted

theorem writeClass_maintains (hplanned : Planned fs settings pending source names) :
    Maintains (Kept (MayChange fs settings place) fs)
      (writeClass pending : ExceptT RunError (StateM FileSystem) Unit).run := by
  obtain ⟨hstraight, hbeside⟩ := hplanned.straight hproper hplace hdiverted
  have hdestination : pending.destination = output.join (.ofNames names) := by
    rw [hplanned.destination, houtput, Output.destination, hplanned.found.relative]
  rw [writeClass, hdestination]
  apply Maintains.adapt
  apply Disk.writeAtomically_maintains hstraight hplanned.found.ne_nil hbeside
  · exact .inr ⟨pending, source, names, hplanned, .inl rfl⟩
  · exact .inr ⟨pending, source, names, hplanned, .inr rfl⟩

theorem carryOut_keeps (hplan : ∀ pending ∈ plan.writes, ∃ source names, Planned fs settings pending source names) :
    Kept (MayChange fs settings place) fs
      ((carryOut settings plan : ExceptT RunError (StateM FileSystem) Nat).run fs).2 := by
  have hcleaned := removeStale_keeps hproper hplace houtput
  refine Maintains.run_bind_ends hcleaned fun cleaned _ => ?_
  refine Maintains.bind (Maintains.forM fun pending hpending => ?_) (fun _ _ _ _ => Maintains.pure _) _ hcleaned
  obtain ⟨source, names, hplanned⟩ := hplan pending (Array.mem_def.mpr hpending)
  exact writeClass_maintains hproper hplace houtput hdiverted hplanned

end

end Run

/-- A run into an output directory changes files only where it lays out classes or cleans. -/
theorem run_keeps (hproper : fs.Proper) (hplace : fs.resolve output = .ok (place, .directory))
    (houtput : settings.output = .shadow output) (hdiverted : ¬ Diverted fs settings place) :
    Kept (MayChange fs settings place) fs
      ((run settings : ExceptT RunError (StateM FileSystem) Report).run fs).2 := by
  refine run_bind_ends (Kept.refl fs) (Run.prepare_looks settings) fun planned hprepare => ?_
  dsimp only
  split
  case isTrue => exact Kept.refl fs
  case isFalse =>
    have hplan : ∀ pending ∈ planned.2.writes, ∃ source names, Planned fs settings pending source names :=
      fun pending hpending => Run.planned_of_prepare hprepare hpending
    have hcarried := Run.carryOut_keeps hproper hplace houtput hdiverted hplan
    exact Maintains.run_bind_ends hcarried fun _ _ => hcarried

/-- A location that changes may lie below an input directory only without cleaning, and only if that directory lies in the output directory. -/
theorem laidOut_of_mayChange (hchange : MayChange fs settings place (directory ++ names))
    (houtside : ¬ directory <+: place) (hclean : settings.clean = true → ¬ place <+: directory) :
    settings.clean = false ∧ place <+: directory ∧ LaidOut fs settings place (directory ++ names) := by
  have hwithin : place <+: directory ++ names := by
    rcases hchange with ⟨-, hwithin⟩ | hlaid
    · exact hwithin
    · exact hlaid.within
  have hinside : place <+: directory :=
    (List.prefix_or_prefix_of_prefix hwithin (List.prefix_append directory names)).resolve_right houtside
  rcases hchange with ⟨hcleaned, -⟩ | hlaid
  · exact absurd hinside (hclean hcleaned)
  · refine ⟨?_, hinside, hlaid⟩
    cases hcleaned : settings.clean with
    | false => rfl
    | true => exact absurd hinside (hclean hcleaned)

def nestedDirectories : FileSystem where
  nodes := .ofList [
    (["out"], Node.directory),
    (["out", "a"], .directory),
    (["out", "a", "X.class"], .file ClassFile.nestedClass),
    (["out", "a", "a"], .directory),
    (["out", "a", "a", "X.class"], .file ClassFile.nestedClass)]

def nestedRequest : ReplaceRequest where
  roots := [⟨"out/a"⟩]
  tokens := ["ab=-"]
  output? := some ⟨"out"⟩

def nestedSettings : Settings where
  tokens := ⟨[("ab", "-")]⟩
  roots := [⟨"out/a"⟩]
  output := .shadow ⟨"out"⟩
  strict := false
  dryRun := false
  clean := false
  jobs? := none

theorem nestedDirectories_proper : nestedDirectories.Proper := by
  decide +kernel

theorem nestedDirectories_unlinked (target : Path) : nestedDirectories.node? location ≠ some (.link target) := by
  have hunlinked : nestedDirectories.Unlinked := by decide +kernel
  exact hunlinked location target

theorem run_nestedDirectories :
    ((run nestedSettings : ExceptT RunError (StateM FileSystem) Report).run nestedDirectories).2.node?
      ["out", "a", "X.class"] ≠ some (.file ClassFile.nestedClass) := by
  have hscan : ((ClassSource.scan ⟨"out/a"⟩ : ExceptT RunError (StateM FileSystem) (List ClassSource)).run
      nestedDirectories).1 = .ok [⟨⟨"out/a"⟩, ⟨"X.class"⟩⟩, ⟨⟨"out/a"⟩, ⟨"a/X.class"⟩⟩] := by
    have hfiles : nestedDirectories.filesBelow ⟨"out/a"⟩ = .ok [["X.class"], ["a", "X.class"]] := by
      decide +kernel
    exact ClassSource.scan_of_sorted (by decide +kernel) (by decide +kernel) hfiles (by decide +kernel)
  rw [run, Run.prepare, ClassSource.scanAll, nestedSettings, List.flatMapM_cons]
  simp only [bind_assoc]
  rw [run_bind_looking (ClassSource.scan_looks _) hscan]
  decide +kernel

end Retoken
