import Retoken.Proofs.FileSystem.Faults
import Retoken.Proofs.FileSystem.Steadiness

/-!
# Atomic writes are all or nothing

Whichever calls of an atomic write fail, and however much of the temporary file is written then, a steady path shows what it did or the new bytes after each call. If the write fails, the path shows what it did, and the temporary file is gone unless no file was touched at all; if it succeeds, the path shows the new bytes.

The argument follows the program. While directories are made the files stay `Prepared` for the write, and until the temporary file is moved they are `Drafted`, of which the path shows nothing.
-/

namespace Retoken

open Retoken.FileSystem Retoken.Path

namespace Disk

variable {fs now now' : FileSystem} {seen property : FileSystem → Prop} {path parent : Path} {paths : List Path}
  {bytes content : List UInt8}

/-- Whoever follows the path finds what was there, or a file with the new bytes. -/
def Shows (fs : FileSystem) (path : Path) (bytes : List UInt8) (now : FileSystem) : Prop :=
  (now.resolve path).toOption = (fs.resolve path).toOption ∨ ∃ location, now.resolve path = .ok (location, .file bytes)

theorem Shows.read (hshows : Shows fs path bytes now) (hread : now.read path = .ok content) :
    fs.read path = .ok content ∨ content = bytes := by
  obtain ⟨location, hresolve⟩ := read_eq_ok.mp hread
  rcases hshows with hsame | ⟨location', hnew⟩
  · rw [hresolve] at hsame
    cases hold : fs.resolve path with
    | error error =>
      rw [hold] at hsame
      cases hsame
    | ok found =>
      rw [hold] at hsame
      cases hsame
      exact .inl (read_eq_ok.mpr ⟨location, hold⟩)
  · rw [hresolve] at hnew
    cases hnew
    exact .inr rfl

def OnlyFurnished (fs now : FileSystem) : Prop :=
  ∀ location, now.node? location = fs.node? location ∨ fs.node? location = none ∧ now.node? location = some .directory

/-! ### Before the temporary file is written -/

/-- The files as they may be while the directories around the path are made. -/
structure Prepared (fs : FileSystem) (path : Path) (now : FileSystem) : Prop where
  proper : now.Proper
  steady : now.Steady path
  beside : ∀ target, now.named? (path.withSuffix ".tmp") ≠ some (.link target)
  shown : (now.resolve path).toOption = (fs.resolve path).toOption
  furnished : OnlyFurnished fs now

theorem Prepared.makeDirectory (hprepared : Prepared fs path now) (hparent : parent ∈ path.parents)
    (htext : parent.text ≠ "") (hmake : now.makeDirectory parent = .ok now') : Prepared fs path now' := by
  obtain ⟨place, hnone, rfl, hproper, hvacant, hbefore⟩ :=
    vacant_of_makeDirectory hprepared.proper hprepared.steady.grounded hparent htext hmake
  have hkept : Kept (fun _ => False) now (now.put place .directory) := .putDirectory hnone
  have hplace : place ≠ [] := by
    rintro rfl
    rw [node?_root] at hnone
    cases hnone
  refine ⟨hproper, hvacant.steady (hprepared.steady.grounded.kept hkept), fun target => ?_, ?_, fun location => ?_⟩
  · rw [hvacant.temporary.named?_eq]
    nofun
  · rw [hvacant.resolve_eq, ← hprepared.shown, hbefore]
  · rw [node?_put hplace]
    split
    case isTrue hmade =>
      subst hmade
      rcases hprepared.furnished place with hsame | ⟨-, hthere⟩
      · exact .inr ⟨hsame ▸ hnone, rfl⟩
      · rw [hnone] at hthere
        cases hthere
    case isFalse => exact hprepared.furnished location

theorem ensureDirectory_runs
    (hmake : Runs seen property (makeDirectory path :
      ExceptT OsError (StateM Device) Unit) (fun _ => property) fun _ => property) :
    Runs seen property (ensureDirectory path : ExceptT OsError (StateM Device) Unit) (fun _ => property) fun _ =>
      property := by
  refine Runs.tryCatch hmake fun error => Runs.bind (Runs.lift (·.isDirectory path)) fun there => ?_
  cases error = .alreadyExists && there with
  | true => exact Runs.pure fun _ hproperty => hproperty
  | false => exact Runs.throw fun _ hproperty => hproperty

theorem ensureDirectories_runs (hmake : ∀ path ∈ paths, path.text ≠ "" →
      Runs seen property (makeDirectory path : ExceptT OsError (StateM Device) Unit)
        (fun _ => property) fun _ => property) :
    Runs seen property (ensureDirectories paths : ExceptT OsError (StateM Device) Unit) (fun _ => property) fun _ =>
      property := by
  induction paths with
  | nil => exact Runs.pure fun _ hproperty => hproperty
  | cons path outer ih =>
    rw [ensureDirectories]
    by_cases hempty : path.text = ""
    · rw [if_pos hempty]
      exact Runs.pure fun _ hproperty => hproperty
    · rw [if_neg hempty]
      have hensure := ensureDirectory_runs (hmake path List.mem_cons_self hempty)
      refine Runs.tryCatch hensure fun error => ?_
      by_cases hmissing : error = .notFound
      · rw [if_pos hmissing]
        exact Runs.bind (ih fun later hlater => hmake later (List.mem_cons_of_mem _ hlater)) fun _ => hensure
      · rw [if_neg hmissing]
        exact Runs.throw fun _ hproperty => hproperty

theorem ensureParents_runs (fs : FileSystem) (path : Path) (bytes : List UInt8) :
    Runs (Shows fs path bytes) (Prepared fs path) (ensureDirectories path.parents :
      ExceptT OsError (StateM Device) Unit)
      (fun _ => Prepared fs path) fun _ => Prepared fs path := by
  refine ensureDirectories_runs fun parent hparent htext => Runs.call ?_ ?_ ?_
  · intro now now' hprepared hmake
    have hmade := hprepared.makeDirectory hparent htext hmake
    exact ⟨.inl hmade.shown, hmade⟩
  · exact fun now _ hprepared _ => ⟨.inl hprepared.shown, hprepared⟩
  · exact fun now _ hprepared => ⟨.inl hprepared.shown, hprepared⟩

/-! ### From there on -/

def Begun (fs : FileSystem) (path : Path) (now : FileSystem) : Prop :=
  ∃ prepared, Prepared fs path prepared ∧ Drafted prepared path now

theorem Begun.shown (hbegun : Begun fs path now) : (now.resolve path).toOption = (fs.resolve path).toOption := by
  obtain ⟨prepared, hprepared, hdrafted⟩ := hbegun
  rw [hdrafted.resolve_eq hprepared.steady, hprepared.shown]

def Written (fs : FileSystem) (path : Path) (bytes : List UInt8) (now : FileSystem) : Prop :=
  ∃ prepared location, Prepared fs path prepared ∧ prepared.Spare path location
    ∧ now = prepared.put location (.file bytes)

theorem Written.begun (hwritten : Written fs path bytes now) : Begun fs path now := by
  obtain ⟨prepared, location, hprepared, hspare, rfl⟩ := hwritten
  exact ⟨prepared, hprepared, .inr ⟨location, bytes, hspare, rfl⟩⟩

theorem Prepared.begun (hprepared : Prepared fs path now) : Begun fs path now :=
  ⟨now, hprepared, .inl rfl⟩

theorem Prepared.written (hprepared : Prepared fs path now)
    (hwrite : now.write (path.withSuffix ".tmp") bytes = .ok now') :
    Written fs path bytes now' := by
  obtain ⟨location, hspare, rfl⟩ := spare_of_write hprepared.beside hwrite
  exact ⟨now, location, hprepared, hspare, rfl⟩

theorem Prepared.begun_partialWrite (hprepared : Prepared fs path now) (bytes : List UInt8) (fault : CallFault) :
    Begun fs path (Device.partialWrite (path.withSuffix ".tmp") bytes fault now) := by
  rw [Device.partialWrite]
  split
  case h_1 count _ =>
    cases hwrite : now.write (path.withSuffix ".tmp") (bytes.take count) with
    | error error => exact hprepared.begun
    | ok now' => exact (hprepared.written hwrite).begun
  case h_2 => exact hprepared.begun

def Finished (path : Path) (bytes : List UInt8) (now : FileSystem) : Prop :=
  (∃ location, now.resolve path = .ok (location, .file bytes)) ∧ now.named? (path.withSuffix ".tmp") = none

theorem Written.finished (hwritten : Written fs path bytes now)
    (hrename : now.rename (path.withSuffix ".tmp") path = .ok now') : Finished path bytes now' := by
  obtain ⟨prepared, location, hprepared, hspare, rfl⟩ := hwritten
  exact hprepared.steady.of_rename hspare hrename

def Withdrawn (fs : FileSystem) (path : Path) (now : FileSystem) : Prop :=
  (now.resolve path).toOption = (fs.resolve path).toOption
    ∧ ∀ content, now.named? (path.withSuffix ".tmp") ≠ some (.file content)

theorem Begun.withdrawn (hbegun : Begun fs path now) (hremove : now.remove (path.withSuffix ".tmp") = .ok now') :
    Withdrawn fs path now' := by
  obtain ⟨prepared, hprepared, hdrafted⟩ := hbegun
  obtain ⟨hshown, hgone⟩ := hdrafted.of_remove hprepared.beside hprepared.steady hremove
  refine ⟨hshown.trans hprepared.shown, fun content => ?_⟩
  rw [hgone]
  nofun

theorem replaceThrough_runs (fs : FileSystem) (path : Path) (bytes : List UInt8) :
    Runs (Shows fs path bytes) (Prepared fs path)
      (replaceThrough (path.withSuffix ".tmp") path bytes : ExceptT WriteError (StateM Device) Unit)
      (fun _ => Finished path bytes) fun _ => Begun fs path := by
  -- Each of the three calls may succeed, fail and change nothing, or fail and leave a part of its work.
  have hwrite : Runs (Shows fs path bytes) (Prepared fs path)
      (write (path.withSuffix ".tmp") bytes : ExceptT OsError (StateM Device) Unit)
      (fun _ => Written fs path bytes) fun _ => Begun fs path := by
    refine Runs.call ?_ ?_ ?_
    · intro now now' hprepared hwrite
      have hwritten := hprepared.written hwrite
      exact ⟨.inl hwritten.begun.shown, hwritten⟩
    · exact fun now _ hprepared _ => ⟨.inl hprepared.shown, hprepared.begun⟩
    · intro now fault hprepared
      have hbegun := hprepared.begun_partialWrite bytes fault
      exact ⟨.inl hbegun.shown, hbegun⟩
  have hcopy : Runs (Shows fs path bytes) (Written fs path bytes)
      (copyPermissions path (path.withSuffix ".tmp") : ExceptT OsError (StateM Device) Unit)
      (fun _ => Written fs path bytes) fun _ => Begun fs path := by
    refine Runs.call ?_ ?_ ?_
    · intro now now' hwritten hcopied
      obtain ⟨⟨⟩, -, rfl⟩ := except_map_eq_ok.mp hcopied
      exact ⟨.inl hwritten.begun.shown, hwritten⟩
    · exact fun now _ hwritten _ => ⟨.inl hwritten.begun.shown, hwritten.begun⟩
    · exact fun now _ hwritten => ⟨.inl hwritten.begun.shown, hwritten.begun⟩
  have hmove : Runs (Shows fs path bytes) (Written fs path bytes)
      (rename (path.withSuffix ".tmp") path : ExceptT OsError (StateM Device) Unit)
      (fun _ => Finished path bytes) fun _ => Begun fs path := by
    refine Runs.call ?_ ?_ ?_
    · intro now now' hwritten hrename
      have hfinished := hwritten.finished hrename
      exact ⟨.inr hfinished.1, hfinished⟩
    · exact fun now _ hwritten _ => ⟨.inl hwritten.begun.shown, hwritten.begun⟩
    · exact fun now _ hwritten => ⟨.inl hwritten.begun.shown, hwritten.begun⟩
  refine Runs.bind (Runs.adapt hwrite) fun _ => Runs.bind (Runs.lift (·.isPresent path)) fun present => ?_
  cases present with
  | true => exact Runs.bind (Runs.adapt hcopy) fun _ => Runs.adapt hmove
  | false => exact Runs.adapt hmove

/-- Removing the temporary file leaves none, whatever it answers. -/
theorem removeTemporary_runs (fs : FileSystem) (path : Path) (bytes : List UInt8) :
    Runs (Shows fs path bytes) (Begun fs path) (remove (path.withSuffix ".tmp") : ExceptT OsError (StateM Device) Unit)
      (fun _ => Withdrawn fs path) fun _ => Withdrawn fs path := by
  refine Runs.soundCall ?_ ?_
  · intro now now' hbegun hremove
    have hwithdrawn := hbegun.withdrawn hremove
    exact ⟨.inl hwithdrawn.1, hwithdrawn⟩
  · exact fun now error hbegun hremove =>
      ⟨.inl hbegun.shown, hbegun.shown, fun content => named?_of_remove_error hremove⟩

def Failed (fs : FileSystem) (path : Path) (error : WriteError) (now : FileSystem) : Prop :=
  (now.resolve path).toOption = (fs.resolve path).toOption
    ∧ (error.step = .makeDirectory ∧ OnlyFurnished fs now
      ∨ ∀ content, now.named? (path.withSuffix ".tmp") ≠ some (.file content))

theorem writeAtomically_runs (fs : FileSystem) (path : Path) (bytes : List UInt8) :
    Runs (Shows fs path bytes) (Prepared fs path) (writeAtomically path bytes : ExceptT WriteError (StateM Device) Unit)
      (fun _ => Finished path bytes) (Failed fs path) := by
  have hreplace : Runs (Shows fs path bytes) (Prepared fs path)
      (tryCatch (replaceThrough (path.withSuffix ".tmp") path bytes) fun error => do
        discard (remove (path.withSuffix ".tmp") : ExceptT OsError (StateM Device) Unit).run
        throw error : ExceptT WriteError (StateM Device) Unit)
      (fun _ => Finished path bytes) (Failed fs path) := by
    refine Runs.tryCatch (replaceThrough_runs fs path bytes) fun error => ?_
    refine Runs.bind (Runs.ignoring (removeTemporary_runs fs path bytes)) fun _ => Runs.throw ?_
    exact fun now hwithdrawn => ⟨hwithdrawn.1, .inr hwithdrawn.2⟩
  rw [writeAtomically]
  cases path.parent? with
  | none => exact hreplace
  | some parent =>
    refine Runs.bind (Runs.adapt ((ensureParents_runs fs path bytes).mono_failed fun error now hprepared => ?_))
      fun _ => hreplace
    exact ⟨hprepared.shown, .inl ⟨rfl, hprepared.furnished⟩⟩

/-- An atomic write is all or nothing, whichever of its calls fail. -/
def AllOrNothing (fs : FileSystem) (path : Path) (bytes : List UInt8) (fault? : Nat → Option CallFault) : Prop :=
  let ended := (writeAtomically path bytes : ExceptT WriteError (StateM Device) Unit).run { files := fs, fault? }
  (∀ now ∈ ended.2.past, Shows fs path bytes now)
    ∧ (∀ error, ended.1 = .error error → Failed fs path error ended.2.files)
    ∧ (ended.1 = .ok () → Finished path bytes ended.2.files)

def linkedDirectory : FileSystem where
  nodes := .ofList [
    (["in"], Node.directory),
    (["in", "x"], .file [0x6f, 0x6c, 0x64]),
    (["way"], .link ⟨"in"⟩)]

/-- One call fails for want of space, after two bytes if it is a write. -/
def fullDisk (failing call : Nat) : Option CallFault :=
  if call = failing then some ⟨.other "No space left on device (os error 28)", some 2⟩ else none

def selfLink : FileSystem where
  nodes := .ofList [(["x"], Node.link ⟨"."⟩)]

def occupiedTemporary : FileSystem where
  nodes := .ofList [
    (["x"], Node.file [0x6f, 0x6c, 0x64]),
    (["x.tmp"], .directory)]

def temporaryLink : FileSystem where
  nodes := .ofList [
    (["x"], Node.link ⟨"x.tmp"⟩),
    (["x.tmp"], .file [0x6f, 0x6c, 0x64])]

end Disk

end Retoken
