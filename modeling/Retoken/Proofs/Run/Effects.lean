import Retoken.Proofs.Rerun
import Retoken.Proofs.Run.Aborting
import Retoken.Proofs.Run.Accepting
import Retoken.Proofs.Run.Writing

/-!
# What a run does to the files

A run that succeeds writes each changed class to its destination, removes the stale classes that it was to remove, and makes directories around the destinations. One more thing happens: what stands where the temporary file beside a destination goes is lost. Everything else stays as it was, as long as no link stands there. Classes that are replaced in place are never in each other's way, but two destinations in an output directory may be one location, reached through links.
-/

namespace Retoken

open Retoken.FileSystem Retoken.Path

variable {fs fs' : FileSystem} {settings : Settings} {sources : List ClassSource} {source other : ClassSource}
  {location : Location} {bytes : List UInt8} {write : PendingWrite} {report : Report} {node : Node}

namespace Run

def writesIn (fs : FileSystem) (settings : Settings) (sources : List ClassSource) : List PendingWrite :=
  sources.filterMap (writeIn? fs settings)

theorem mem_writesIn : write ∈ writesIn fs settings sources
    ↔ ∃ source ∈ sources, ∃ bytes, Changes fs settings source bytes
      ∧ write = ⟨source.path, settings.output.destination source, bytes⟩ := by
  rw [writesIn, List.mem_filterMap]
  simp only [writeIn?_eq_some]

theorem mem_writesIn_of_changes (hsource : source ∈ sources) (hchanges : Changes fs settings source bytes) :
    ⟨source.path, settings.output.destination source, bytes⟩ ∈ writesIn fs settings sources :=
  mem_writesIn.mpr ⟨source, hsource, bytes, hchanges, rfl⟩

/-- The path of a destination leads to what the destination denotes, unless a class took the place of a link. -/
theorem read_of_changes {content : List UInt8} (hcarried : Carried fs settings (writesIn fs settings sources) fs')
    (hunlinked : ∀ place target, Target fs (writesIn fs settings sources) place → fs.node? place ≠ some (.link target))
    (hsource : source ∈ sources) (hchanges : Changes fs settings source bytes)
    (hdenotes : fs.Denotes (settings.output.destination source) location)
    (hnode : fs'.node? location = some (.file content)) :
    fs'.read (settings.output.destination source) = .ok content := by
  obtain ⟨place, hplace, -, hlocated⟩ := hcarried.landed _ (mem_writesIn_of_changes hsource hchanges)
  rw [hdenotes.unique hplace] at hnode
  exact read_eq_ok.mpr ⟨place, resolve_eq_ok.mpr ⟨hlocated hunlinked, hnode⟩⟩

section

variable (hproper : fs.Proper) (hscan : Scanned fs settings sources)

include hproper hscan

theorem classPath_of_mem_writesIn (hwrite : write ∈ writesIn fs settings sources) : ClassPath write.destination := by
  obtain ⟨source, hsource, bytes, -, rfl⟩ := mem_writesIn.mp hwrite
  obtain ⟨names, hfound, hclass⟩ := ClassSource.found_of_mem_scanAll hscan hsource
  have hpath (root : Path) : ClassPath (root.join source.relative) := by
    rw [hfound.relative]
    exact classPath_join root hfound.ne_nil (hfound.isName hproper) hclass
  show ClassPath (settings.output.destination source)
  cases settings.output with
  | inPlace => exact hpath source.root
  | shadow output => exact hpath output

theorem exists_of_mem_sources (hsource : source ∈ sources) (hread : fs.read source.path = .ok bytes) :
    ∃ location, fs.resolve source.path = .ok (location, .file bytes) ∧ fs.Denotes source.path location := by
  obtain ⟨names, hfound, -⟩ := ClassSource.found_of_mem_scanAll hscan hsource
  obtain ⟨directory, _, hroot, hne, -⟩ := hfound.file
  obtain ⟨location, hresolve⟩ := read_eq_ok.mp hread
  have hstraight := hfound.straight hproper hroot
  have hpath : source.path = source.root.join (.ofNames names) := by rw [ClassSource.path, hfound.relative]
  rw [hpath] at hresolve ⊢
  obtain rfl := hstraight.locate_join hne (resolve_eq_ok.mp hresolve).1
  exact ⟨_, hresolve, hstraight.denotes hne⟩

theorem eq_of_denotes (hsource : source ∈ sources) (hother : other ∈ sources) {content : List UInt8}
    (hread : fs.read source.path = .ok bytes) (hreadOther : fs.read other.path = .ok content)
    (hdenotes : fs.Denotes source.path location) (hdenotesOther : fs.Denotes other.path location) : other = source := by
  obtain ⟨place, hresolve, hplace⟩ := exists_of_mem_sources hproper hscan hsource hread
  obtain ⟨place', hresolve', hplace'⟩ := exists_of_mem_sources hproper hscan hother hreadOther
  rw [hplace.unique hdenotes] at hresolve
  rw [hplace'.unique hdenotesOther] at hresolve'
  have hdistinct : (sources.map (ClassSource.identityIn fs)).Nodup :=
    List.pairwise_map.mpr (ClassSource.scanAll_pairwise hscan)
  refine List.inj_on_of_nodup_map hdistinct hother hsource ?_
  rw [ClassSource.identityIn_of_canonical (canonical_of_resolve hresolve),
    ClassSource.identityIn_of_canonical (canonical_of_resolve hresolve')]

theorem unlinked_of_inPlace (hplace : settings.output = .inPlace) (target : Path)
    (htarget : Target fs (writesIn fs settings sources) location) : fs.node? location ≠ some (.link target) := by
  obtain ⟨write, hwrite, hdenotes⟩ := htarget
  obtain ⟨source, hsource, bytes, ⟨old, _, hread, -⟩, rfl⟩ := mem_writesIn.mp hwrite
  rw [hplace] at hdenotes
  obtain ⟨found, hresolve, hfound⟩ := exists_of_mem_sources hproper hscan hsource hread
  rw [hdenotes.unique hfound, (resolve_eq_ok.mp hresolve).2]
  nofun

theorem isDirectory_of_inPlace (hplace : settings.output = .inPlace) (hwrite : write ∈ writesIn fs settings sources)
    (hsurrounds : fs.Surrounds write.destination location) : fs.node? location = some .directory := by
  obtain ⟨source, hsource, bytes, ⟨old, _, hread, -⟩, rfl⟩ := mem_writesIn.mp hwrite
  rw [hplace] at hsurrounds
  obtain ⟨found, hresolve, -⟩ := exists_of_mem_sources hproper hscan hsource hread
  exact hsurrounds.isDirectory (resolve_eq_ok.mp hresolve).1

/-- A changed class is at the location of its destination, or another one with the same location is. -/
theorem landed_of_changes (hcarried : Carried fs settings (writesIn fs settings sources) fs')
    (hsource : source ∈ sources) (hchanges : Changes fs settings source bytes) :
    ∃ location, fs.Denotes (settings.output.destination source) location
      ∧ (fs'.node? location = some (.file bytes)
        ∨ settings.output ≠ .inPlace ∧ ∃ other ∈ sources, other ≠ source ∧ ∃ content, Changes fs settings other content
            ∧ fs.Denotes (settings.output.destination other) location ∧ fs'.node? location = some (.file content)) := by
  obtain ⟨location, hdenotes, ⟨write, hwrite, hother, hnode⟩, -⟩ :=
    hcarried.landed _ (mem_writesIn_of_changes hsource hchanges)
  obtain ⟨other, hmem, content, hcontent, rfl⟩ := mem_writesIn.mp hwrite
  refine ⟨location, hdenotes, ?_⟩
  by_cases hsame : other = source
  · subst hsame
    rw [hchanges.unique hcontent] at hnode
    exact .inl hnode
  · refine .inr ⟨fun hplace => hsame ?_, other, hmem, hsame, content, hcontent, hother, hnode⟩
    obtain ⟨_, _, hread, -⟩ := hchanges
    obtain ⟨_, _, hreadOther, -⟩ := hcontent
    rw [hplace] at hdenotes hother
    exact eq_of_denotes hproper hscan hsource hmem hread hreadOther hdenotes hother

/-- What a run does that succeeds and is not dry. -/
theorem carried_of_run (hdry : settings.dryRun = false) (hrun : runOn fs settings = (.ok report, fs'))
    (hbeside : ∀ location target, Beside fs (writesIn fs settings sources) location →
      fs.node? location ≠ some (.link target)) :
    ∃ plan, report = reportOn settings sources plan {location | Stale fs settings location}.ncard
      ∧ Plan.Covers settings (examinedIn fs settings sources) plan
      ∧ Carried fs settings (writesIn fs settings sources) fs' := by
  obtain ⟨scanned, plan, cleaned, hscanned, -, hcovers, rfl, hcarry⟩ := run_ok_cases hrun
  obtain rfl : scanned = sources := Except.ok.inj (hscanned.symm.trans hscan)
  have hwrites : plan.writes.toList = writesIn fs settings scanned := hcovers.writes.trans writesOf_examinedIn
  have hclass : ∀ write ∈ plan.writes.toList, ClassPath write.destination := by
    rw [hwrites]
    exact fun write hwrite => classPath_of_mem_writesIn hproper hscan hwrite
  rw [← hwrites] at hbeside ⊢
  obtain ⟨hcarried, rfl⟩ := carried_of_carryOut hproper hclass hbeside (hcarry hdry)
  exact ⟨plan, rfl, hcovers, hcarried⟩

end

/-- The files after a run, compared to those before it. -/
structure Effect (fs : FileSystem) (settings : Settings) (sources : List ClassSource) (fs' : FileSystem) : Prop where
  /-- The destination of a changed class denotes a location. There stands that class, or another one whose destination denotes the same location. -/
  destination : ∀ source ∈ sources, ∀ bytes, Changes fs settings source bytes →
    ∃ location, fs.Denotes (settings.output.destination source) location
      ∧ (fs'.node? location = some (.file bytes)
        ∨ settings.output ≠ .inPlace ∧ ∃ other ∈ sources, other ≠ source ∧ ∃ content, Changes fs settings other content
            ∧ fs.Denotes (settings.output.destination other) location ∧ fs'.node? location = some (.file content))
  /-- A destination leads to the class there, unless some class took the place of a link. -/
  read : (∀ place target, Target fs (writesIn fs settings sources) place → fs.node? place ≠ some (.link target)) →
    ∀ source ∈ sources, ∀ bytes location content, Changes fs settings source bytes →
      fs.Denotes (settings.output.destination source) location → fs'.node? location = some (.file content) →
      fs'.read (settings.output.destination source) = .ok content
  /-- Classes that are replaced in place are all there, and no directories are made for them. -/
  inPlace : settings.output = .inPlace →
    (∀ source ∈ sources, ∀ bytes, Changes fs settings source bytes → fs'.read source.path = .ok bytes)
      ∧ ∀ location, fs'.node? location = some .directory → fs.node? location = some .directory
  outcome : ∀ location, Outcome fs settings (writesIn fs settings sources) location (fs'.node? location)
  /-- Whatever stood where a temporary file goes is lost. -/
  beside : ∀ location, Beside fs (writesIn fs settings sources) location →
    fs'.node? location = none ∨ fs'.node? location = some .directory

end Run

def crowdedDirectory : FileSystem where
  nodes := .ofList [
    (["in"], Node.directory),
    (["in", "X.class"], .file ClassFile.nestedClass),
    (["in", "X.class.tmp"], .file [0x68, 0x69])]

def crowdedSettings : Settings where
  tokens := ⟨[("ab", "-")]⟩
  roots := [⟨"in"⟩]
  output := .inPlace
  strict := false
  dryRun := false
  clean := false
  jobs? := none

theorem scanned_crowdedDirectory : Run.Scanned crowdedDirectory crowdedSettings [⟨⟨"in"⟩, ⟨"X.class"⟩⟩] := by
  rw [Run.Scanned]
  decide +kernel

theorem beside_crowdedDirectory : Run.Beside crowdedDirectory
    (Run.writesIn crowdedDirectory crowdedSettings [⟨⟨"in"⟩, ⟨"X.class"⟩⟩]) ["in", "X.class.tmp"] := by
  have hproper : crowdedDirectory.Proper := by decide +kernel
  have hchanged : (Run.writeIn? crowdedDirectory crowdedSettings ⟨⟨"in"⟩, ⟨"X.class"⟩⟩).isSome = true := by
    decide +kernel
  have hread : crowdedDirectory.read (ClassSource.mk ⟨"in"⟩ ⟨"X.class"⟩).path = .ok ClassFile.nestedClass := by
    decide +kernel
  have hresolve : crowdedDirectory.resolve (ClassSource.mk ⟨"in"⟩ ⟨"X.class"⟩).path
      = .ok (["in", "X.class"], .file ClassFile.nestedClass) := by
    decide +kernel
  obtain ⟨write, hwrite⟩ := Option.isSome_iff_exists.mp hchanged
  obtain ⟨location, hfound, hdenotes⟩ :=
    Run.exists_of_mem_sources hproper scanned_crowdedDirectory (List.mem_singleton.mpr rfl) hread
  rw [hresolve] at hfound
  cases hfound
  refine ⟨["in", "X.class"], ⟨write, List.mem_filterMap.mpr ⟨_, List.mem_singleton.mpr rfl, hwrite⟩, ?_⟩, rfl⟩
  obtain ⟨bytes, -, rfl⟩ := Run.writeIn?_eq_some.mp hwrite
  exact hdenotes

end Retoken
