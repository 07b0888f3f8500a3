import Retoken.Proofs.Run.Effects
import Retoken.Proofs.Run.Shadowing

/-!
# What a cleaned output directory holds

After a run into an output directory that is cleaned, the class files in it are those that the report lists, each with the digest that the report gives, and all files below the input directories are as they were. The one directory that is not cleaned is that with the path of standard input: the classes that were in it stay.
-/

namespace Retoken

open Retoken.FileSystem Retoken.Path

variable {fs fs' : FileSystem} {settings : Settings} {request : ReplaceRequest} {sources : List ClassSource}
  {output source destination : Path} {place location : Location} {names : List String} {bytes : List UInt8}
  {write other : PendingWrite} {report : Report} {plan : Plan} {tally : Tally} {digest : String} {cleaned : Nat}

/-- A class file does not stand beside another one. -/
theorem FileSystem.ClassBelow.ne_temporary (hproper : fs.Proper) (hbelow : fs.ClassBelow place names)
    (hlocation : location ≠ []) :
    place ++ names ≠ temporary location := by
  obtain ⟨hne, hclass, bytes, hnode⟩ := hbelow
  have hnames := hproper.names _ _ hnode
  obtain ⟨init, last, rfl⟩ := (List.eq_nil_or_concat names).resolve_left hne
  rw [List.concat_eq_append] at *
  rw [isClassFile, extension?_ofNames fun other hother => hnames other (List.mem_append_right place hother)] at hclass
  rw [← List.append_assoc]
  exact concat_ne_temporary (beq_iff_eq.mp hclass) hlocation

namespace Run

/-! ### Records of changed classes -/

theorem record?_eq_retokened {found : ClassSource} {examined : Examined} :
    Plan.record? settings found examined = some (.retokened source destination tally digest)
      ↔ ∃ bytes, examined = .ok (.ok ⟨tally, some bytes⟩) ∧ source = found.path
        ∧ destination = settings.output.destination found ∧ digest = Digest.Sha256.hexDigest bytes := by
  constructor
  · intro hrecord
    rw [Plan.record?.eq_def] at hrecord
    split at hrecord
    case h_1 tally' bytes =>
      cases hrecord
      exact ⟨bytes, rfl, rfl, rfl, rfl⟩
    case h_2 => cases hrecord
    case h_3 => cases hrecord
  · rintro ⟨bytes, rfl, rfl, rfl, rfl⟩
    rfl

theorem mem_files (hcovers : Plan.Covers settings (examinedIn fs settings sources) plan) :
    (∃ tally, .retokened source destination tally digest ∈ (reportOn settings sources plan cleaned).files)
      ↔ ∃ write ∈ writesIn fs settings sources, source = write.source ∧ destination = write.destination
        ∧ digest = Digest.Sha256.hexDigest write.bytes := by
  have hfiles : (reportOn settings sources plan cleaned).files
      = (examinedIn fs settings sources).filterMap fun pair => Plan.record? settings pair.1 pair.2 := hcovers.files
  rw [hfiles]
  constructor
  · rintro ⟨tally, hrecord⟩
    obtain ⟨⟨found, examined⟩, hmem, hrecord⟩ := List.mem_filterMap.mp hrecord
    obtain ⟨bytes, rfl, rfl, rfl, rfl⟩ := record?_eq_retokened.mp hrecord
    obtain ⟨hsource, hexamined⟩ := mem_examinedIn.mp hmem
    obtain ⟨old, hread, hretoken⟩ := except_map_eq_ok.mp hexamined
    exact ⟨_, mem_writesIn_of_changes hsource ⟨old, tally, hread, hretoken⟩, rfl, rfl, rfl⟩
  · rintro ⟨write, hwrite, rfl, rfl, rfl⟩
    obtain ⟨found, hsource, bytes, ⟨old, tally, hread, hretoken⟩, rfl⟩ := mem_writesIn.mp hwrite
    refine ⟨tally, List.mem_filterMap.mpr ⟨_, mem_examinedIn.mpr ⟨hsource, rfl⟩, ?_⟩⟩
    exact record?_eq_retokened.mpr ⟨bytes, except_map_eq_ok.mpr ⟨old, hread, hretoken⟩, rfl, rfl, rfl⟩

/-! ### Writes below an output directory -/

section

variable (hproper : fs.Proper) (hscan : Scanned fs settings sources) (houtput : settings.output = .shadow output)
  (hplace : fs.resolve output = .ok (place, .directory))
  (hunlinked : ∀ names target, names ≠ [] → fs.node? (place ++ names) ≠ some (.link target))

include hproper hscan houtput hplace hunlinked

theorem exists_of_mem_writesIn (hwrite : write ∈ writesIn fs settings sources) :
    ∃ names, write.destination = output.join (.ofNames names) ∧ names ≠ [] ∧ (ofNames names).isClassFile = true
      ∧ fs.Denotes write.destination (place ++ names) := by
  obtain ⟨source, hsource, bytes, -, rfl⟩ := mem_writesIn.mp hwrite
  obtain ⟨names, hfound, hclass⟩ := ClassSource.found_of_mem_scanAll hscan hsource
  have hdestination : settings.output.destination source = output.join (.ofNames names) := by
    rw [houtput, Output.destination, hfound.relative]
  have hstraight : Straight fs output place names :=
    ⟨.of_resolve hplace, hfound.isName hproper, fun below target hbelow _ => hunlinked below target hbelow⟩
  refine ⟨names, hdestination, hfound.ne_nil, hclass, ?_⟩
  rw [hdestination]
  exact hstraight.denotes hfound.ne_nil

theorem not_link_of_target
    (hnode : Target fs (writesIn fs settings sources) location ∨ Beside fs (writesIn fs settings sources) location)
    (target : Path) : fs.node? location ≠ some (.link target) := by
  have htarget : ∀ location, Target fs (writesIn fs settings sources) location → ∃ names, names ≠ []
      ∧ location = place ++ names := by
    rintro location ⟨write, hwrite, hdenotes⟩
    obtain ⟨names, -, hne, -, hnames⟩ := exists_of_mem_writesIn hproper hscan houtput hplace hunlinked hwrite
    exact ⟨names, hne, hdenotes.unique hnames⟩
  rcases hnode with hnode | ⟨other, hnode, rfl⟩
  · obtain ⟨names, hne, rfl⟩ := htarget location hnode
    exact hunlinked names target hne
  · obtain ⟨names, hne, rfl⟩ := htarget other hnode
    obtain ⟨init, last, rfl⟩ := (List.eq_nil_or_concat names).resolve_left hne
    rw [List.concat_eq_append, ← List.append_assoc, temporary_concat, List.append_assoc]
    exact hunlinked _ target (List.append_ne_nil_of_right_ne_nil _ (List.cons_ne_nil _ _))

theorem eq_of_mem_writesIn (hapart : (writesIn fs settings sources).Pairwise PendingWrite.Apart)
    (hwrite : write ∈ writesIn fs settings sources) (hother : other ∈ writesIn fs settings sources)
    (hdenotes : fs.Denotes write.destination location) (hdenotesOther : fs.Denotes other.destination location) :
    other = write := by
  obtain ⟨names, hdestination, -, -, hnames⟩ := exists_of_mem_writesIn hproper hscan houtput hplace hunlinked hwrite
  obtain ⟨names', hdestination', -, -, hnames'⟩ := exists_of_mem_writesIn hproper hscan houtput hplace hunlinked hother
  obtain rfl := List.append_cancel_left ((hnames.unique hdenotes).trans (hdenotesOther.unique hnames'))
  have hdistinct : ((writesIn fs settings sources).map (·.destination.components)).Nodup := List.pairwise_map.mpr hapart
  refine List.inj_on_of_nodup_map hdistinct hother hwrite ?_
  rw [hdestination, hdestination']

/-! ### The output directory after the run -/

section

variable (hcovers : Plan.Covers settings (examinedIn fs settings sources) plan)
  (hcarried : Carried fs settings (writesIn fs settings sources) fs')

include hcovers hcarried

/-- A class in the cleaned directory is one of those that were written. -/
theorem mem_files_of_classBelow (hclean : settings.clean = true) (hroot : output.same ClassSource.standardInput = false)
    (hbelow : fs'.ClassBelow place names) :
    ∃ source tally digest,
      .retokened source (output.join (.ofNames names)) tally digest ∈
        (reportOn settings sources plan cleaned).files := by
  obtain ⟨hne, hclass, bytes, hnode⟩ := hbelow
  rcases (hcarried.outcome (place ++ names)).file hnode with ⟨hold, hfresh⟩ | ⟨write, hwrite, hdenotes, -⟩
  · refine absurd ?_ hfresh
    rw [stale_iff hclean houtput hroot hplace]
    exact ⟨names, ⟨hne, hclass, bytes, hold⟩, rfl⟩
  · obtain ⟨names', hdestination, -, -, hnames⟩ := exists_of_mem_writesIn hproper hscan houtput hplace hunlinked hwrite
    obtain rfl := List.append_cancel_left (hdenotes.unique hnames)
    obtain ⟨tally, hrecord⟩ := (mem_files hcovers).mpr ⟨write, hwrite, rfl, rfl, rfl⟩
    rw [hdestination] at hrecord
    exact ⟨_, tally, _, hrecord⟩

theorem classBelow_of_mem_files
    (hrecord : .retokened source destination tally digest ∈ (reportOn settings sources plan cleaned).files) :
    ∃ names bytes, destination = output.join (.ofNames names) ∧ fs'.ClassBelow place names
      ∧ fs'.node? (place ++ names) = some (.file bytes) ∧ fs'.read destination = .ok bytes
      ∧ Digest.Sha256.hexDigest bytes = digest := by
  have hapart := hcovers.apart
  rw [writesOf_examinedIn] at hapart
  obtain ⟨write, hwrite, rfl, rfl, rfl⟩ := (mem_files hcovers).mp ⟨tally, hrecord⟩
  obtain ⟨names, hdestination, hne, hclass, hnames⟩ :=
    exists_of_mem_writesIn hproper hscan houtput hplace hunlinked hwrite
  obtain ⟨location, hdenotes, ⟨other, hother, hdenotesOther, hnode⟩, hlocated⟩ := hcarried.landed write hwrite
  obtain rfl := eq_of_mem_writesIn hproper hscan houtput hplace hunlinked hapart hwrite hother hdenotes hdenotesOther
  obtain rfl := hdenotes.unique hnames
  have hlocate := hlocated fun location target htarget =>
    not_link_of_target hproper hscan houtput hplace hunlinked (.inl htarget) target
  refine ⟨names, other.bytes, hdestination, ⟨hne, hclass, other.bytes, hnode⟩, hnode, ?_, rfl⟩
  exact read_eq_ok.mpr ⟨_, resolve_eq_ok.mpr ⟨hlocate, hnode⟩⟩

end

end

/-- A class is left where there was one, if the output directory has the path of standard input. -/
theorem classBelow_of_standardInput (hproper : fs.Proper) (houtput : settings.output = .shadow output)
    (hcarried : Carried fs settings (writesIn fs settings sources) fs')
    (hroot : output.same ClassSource.standardInput = true)
    (hbelow : fs.ClassBelow place names) : fs'.ClassBelow place names := by
  obtain ⟨hne, hclass, bytes, hnode⟩ := id hbelow
  have hother : ¬ Beside fs (writesIn fs settings sources) (place ++ names) := by
    rintro ⟨target, ⟨write, -, hdenotes⟩, hsame⟩
    exact hbelow.ne_temporary hproper hdenotes.ne_nil hsame
  exact ⟨hne, hclass, (hcarried.outcome _).stays hnode (not_stale houtput hroot) hother⟩

end Run

/-- The files after a run into an output directory that is cleaned, compared to those before it. -/
structure Run.Cleaned (fs : FileSystem) (request : ReplaceRequest) (output : Path) (place : Location) (report : Report)
    (fs' : FileSystem) : Prop where
  resolved : fs.resolve output = .ok (place, .directory)
  /-- Every class in the output directory is the destination of one that the report says was retokened. -/
  classes : output.same ClassSource.standardInput = false → ∀ names, fs'.ClassBelow place names →
    ∃ source tally digest, .retokened source (output.join (.ofNames names)) tally digest ∈ report.files
  /-- Every such destination is a class in the output directory, with the digest in the report. -/
  destinations : ∀ source destination tally digest, .retokened source destination tally digest ∈ report.files →
    ∃ names bytes, destination = output.join (.ofNames names) ∧ fs'.ClassBelow place names
      ∧ fs'.node? (place ++ names) = some (.file bytes) ∧ fs'.read destination = .ok bytes
      ∧ Digest.Sha256.hexDigest bytes = digest
  cleaned : output.same ClassSource.standardInput = false → report.cleaned = {names | fs.ClassBelow place names}.ncard
  /-- Files below the inputs are kept, and so is an input that is a file itself. -/
  inputs : ∀ root ∈ request.roots, ∀ directory node names bytes, fs.resolve root = .ok (directory, node) →
    fs.node? (directory ++ names) = some (.file bytes) → fs'.node? (directory ++ names) = some (.file bytes)
  /-- The path of standard input is not cleaned. -/
  standardInput : output.same ClassSource.standardInput = true →
    report.cleaned = 0 ∧ ∀ names, fs.ClassBelow place names → fs'.ClassBelow place names

def staleDirectory (name : String) : FileSystem where
  nodes := .ofList [
    (["in"], Node.directory),
    (["in", "X.class"], .file ClassFile.nestedClass),
    ([name], .directory),
    ([name, "Old.class"], .file ClassFile.nestedClass)]

def cleaningRequest (name : String) : ReplaceRequest where
  roots := [⟨"in"⟩]
  tokens := ["ab=-"]
  output? := some ⟨name⟩
  clean := true

def cleaningSettings (name : String) : Settings where
  tokens := ⟨[("ab", "-")]⟩
  roots := [⟨"in"⟩]
  output := .shadow ⟨name⟩
  strict := false
  dryRun := false
  clean := true
  jobs? := none

end Retoken
