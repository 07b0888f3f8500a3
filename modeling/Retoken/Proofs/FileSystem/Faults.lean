import Retoken.FileSystem.AtomicWrite
import Retoken.FileSystem.Operations
import Retoken.Proofs.Reading

/-!
# Devices on which calls fail

On a `Device` any call that changes files may fail before it has done its work, and a write may have written some of the bytes by then. The device keeps what the files were after each of these calls, so that it can be said what someone sees who looks in between. Calls that only look do not fail for other reasons than on a file system, and neither does removing a file.

`Runs` says of a program on such a device how it may find the files and how it leaves them, and what holds of them after each call. It is put together along the program.
-/

namespace Retoken

/-- How a call fails. A write may have written that many bytes before it does. -/
structure CallFault where
  cause : OsError
  written? : Option Nat := none
deriving DecidableEq, Repr

/-- Files, what they were after the calls so far, and which of the calls to come fail. -/
structure Device where
  files : FileSystem
  /-- The files after each of the calls so far, the latest first. -/
  past : List FileSystem := []
  /-- The fault of a call, by the number of calls before it. -/
  fault? : Nat → Option CallFault

namespace Device

def record (device : Device) (files : FileSystem) : Device :=
  { device with files, past := files :: device.past }

def look {ε α : Type} (operation : FileSystem → Except ε α) : ExceptT ε (StateM Device) α :=
  ExceptT.mk fun device => (operation device.files, device)

def soundCall (operation : FileSystem → Except OsError FileSystem) : ExceptT OsError (StateM Device) Unit :=
  ExceptT.mk fun device => match operation device.files with
    | .ok files => (.ok (), device.record files)
    | .error error => (.error error, device.record device.files)

/-- A call that may have a fault, which leaves something else of its work. -/
def call (operation : FileSystem → Except OsError FileSystem) (remnant : CallFault → FileSystem → FileSystem) :
    ExceptT OsError (StateM Device) Unit :=
  ExceptT.mk fun device => match device.fault? device.past.length with
    | some fault => (.error fault.cause, device.record (remnant fault device.files))
    | none => (soundCall operation).run device

/-- What is left of a write with a fault: the first of the bytes, if the file could be opened at all. -/
def partialWrite (path : Path) (bytes : List UInt8) (fault : CallFault) (fs : FileSystem) : FileSystem :=
  match fault.written? with
  | some count => (fs.write path (bytes.take count)).toOption.getD fs
  | none => fs

def unchanged (_ : CallFault) (fs : FileSystem) : FileSystem :=
  fs

instance : Disk (StateM Device) where
  isDirectory path := return (← get).files.isDirectory path
  isPresent path := return (← get).files.isPresent path
  canonical path := look (·.canonical path)
  filesBelow path := look (·.filesBelow path)
  read path := look (·.read path)
  write path bytes := call (·.write path bytes) (partialWrite path bytes)
  makeDirectory path := call (·.makeDirectory path) unchanged
  copyPermissions source target := call (fun fs => (fs.copyPermissions source target).map fun _ => fs) unchanged
  rename source target := call (·.rename source target) unchanged
  remove path := soundCall (·.remove path)

end Device

variable {α β ε δ : Type} {seen before : FileSystem → Prop}

/-- A program that starts with files of the second property ends with files as told, by its answer, and the files after each call have the first property. -/
def Runs (seen before : FileSystem → Prop) (program : ExceptT ε (StateM Device) α) (done : α → FileSystem → Prop)
    (failed : ε → FileSystem → Prop) : Prop :=
  ∀ device : Device, before device.files → (∀ now ∈ device.past, seen now) →
    (∀ now ∈ (program.run device).2.past, seen now)
      ∧ (∀ a, (program.run device).1 = .ok a → done a (program.run device).2.files)
      ∧ ∀ error, (program.run device).1 = .error error → failed error (program.run device).2.files

namespace Runs

variable {program first : ExceptT ε (StateM Device) α} {next : α → ExceptT ε (StateM Device) β}
  {done : α → FileSystem → Prop} {failed : ε → FileSystem → Prop}

theorem pure {a : α} (hdone : ∀ fs, before fs → done a fs) :
    Runs seen before (Pure.pure a : ExceptT ε (StateM Device) α) done failed := by
  intro device hbefore hpast
  refine ⟨hpast, fun _ hok => ?_, fun _ herror => ?_⟩
  · cases hok
    exact hdone _ hbefore
  · cases herror

theorem throw {error : ε} (hfailed : ∀ fs, before fs → failed error fs) :
    Runs seen before (throw error : ExceptT ε (StateM Device) α) done failed := by
  intro device hbefore hpast
  refine ⟨hpast, fun _ hok => ?_, fun _ herror => ?_⟩
  · cases hok
  · cases herror
    exact hfailed _ hbefore

theorem bind {later : β → FileSystem → Prop} (hfirst : Runs seen before first done failed)
    (hnext : ∀ a, Runs seen (done a) (next a) later failed) : Runs seen before (first >>= next) later failed := by
  intro device hbefore hpast
  obtain ⟨hpast, hdone, hfailed⟩ := hfirst device hbefore hpast
  have hrun : (first >>= next).run device = ExceptT.bindCont next (first.run device).1 (first.run device).2 := rfl
  rw [hrun]
  cases hresult : (first.run device).1 with
  | ok a => exact hnext a _ (hdone a hresult) hpast
  | error error =>
    refine ⟨hpast, fun _ hok => ?_, fun _ herror => ?_⟩
    · cases hok
    · cases herror
      exact hfailed error hresult

theorem tryCatch {handler : ε → ExceptT ε (StateM Device) α} {caught : ε → FileSystem → Prop}
    (hprogram : Runs seen before program done caught)
    (hhandler : ∀ error, Runs seen (caught error) (handler error) done failed) :
    Runs seen before (tryCatch program handler) done failed := by
  intro device hbefore hpast
  obtain ⟨hpast, hdone, hcaught⟩ := hprogram device hbefore hpast
  have hrun : ∀ resume : Except ε α → StateM Device (Except ε α),
      (program.run >>= resume) device = resume (program.run device).1 (program.run device).2 := fun _ => rfl
  rw [ExceptT.run_tryCatch, hrun]
  cases hresult : (program.run device).1 with
  | ok a =>
    refine ⟨hpast, fun _ hok => ?_, fun _ herror => ?_⟩
    · cases hok
      exact hdone a hresult
    · cases herror
  | error error => exact hhandler error _ (hcaught error hresult) hpast

theorem adapt {f : ε → δ} {marked : δ → FileSystem → Prop}
    (hprogram : Runs seen before program done fun error => marked (f error)) :
    Runs seen before (program.adapt f) done marked := by
  intro device hbefore hpast
  obtain ⟨hpast, hdone, hfailed⟩ := hprogram device hbefore hpast
  have hrun : (program.adapt f).run device = ((program.run device).1.mapError f, (program.run device).2) := rfl
  rw [hrun]
  cases hresult : (program.run device).1 with
  | ok a =>
    refine ⟨hpast, fun _ hok => ?_, fun _ herror => ?_⟩
    · cases hok
      exact hdone a hresult
    · cases herror
  | error error =>
    refine ⟨hpast, fun _ hok => ?_, fun _ herror => ?_⟩
    · cases hok
    · cases herror
      exact hfailed error hresult

theorem lift (look : FileSystem → α) :
    Runs seen before (liftM (do return look (← get).files : StateM Device α) : ExceptT ε (StateM Device) α)
      (fun _ => before) failed := by
  intro device hbefore hpast
  refine ⟨hpast, fun _ _ => hbefore, fun _ herror => ?_⟩
  cases herror

theorem mono_failed {failed' : ε → FileSystem → Prop} (hprogram : Runs seen before program done failed)
    (hfailed : ∀ error fs, failed error fs → failed' error fs) : Runs seen before program done failed' := by
  intro device hbefore hpast
  obtain ⟨hpast, hdone, hfails⟩ := hprogram device hbefore hpast
  exact ⟨hpast, hdone, fun error herror => hfailed error _ (hfails error herror)⟩

theorem ignoring {after : FileSystem → Prop} {failed : δ → FileSystem → Prop}
    (hprogram : Runs seen before program (fun _ => after) fun _ => after) :
    Runs seen before (liftM (discard program.run : StateM Device Unit) : ExceptT δ (StateM Device) Unit)
      (fun _ => after) failed := by
  intro device hbefore hpast
  obtain ⟨hpast, hdone, hfailed⟩ := hprogram device hbefore hpast
  refine ⟨hpast, fun _ _ => ?_, fun _ herror => ?_⟩
  · change after (program.run device).2.files
    cases hresult : (program.run device).1 with
    | ok a => exact hdone a hresult
    | error error => exact hfailed error hresult
  · cases herror

theorem soundCall {operation : FileSystem → Except OsError FileSystem} {done failed : FileSystem → Prop}
    (hdone : ∀ fs fs', before fs → operation fs = .ok fs' → seen fs' ∧ done fs')
    (hfailed : ∀ fs error, before fs → operation fs = .error error → seen fs ∧ failed fs) :
    Runs seen before (Device.soundCall operation) (fun _ => done) fun _ => failed := by
  intro device hbefore hpast
  cases hresult : operation device.files with
  | ok files =>
    have hrun : (Device.soundCall operation).run device = (.ok (), device.record files) := by
      simp only [Device.soundCall, ExceptT.run_mk, hresult]
    obtain ⟨hseen, hends⟩ := hdone _ _ hbefore hresult
    rw [hrun]
    exact ⟨List.forall_mem_cons.mpr ⟨hseen, hpast⟩, fun _ _ => hends, nofun⟩
  | error error =>
    have hrun : (Device.soundCall operation).run device = (.error error, device.record device.files) := by
      simp only [Device.soundCall, ExceptT.run_mk, hresult]
    obtain ⟨hseen, hends⟩ := hfailed _ _ hbefore hresult
    rw [hrun]
    exact ⟨List.forall_mem_cons.mpr ⟨hseen, hpast⟩, nofun, fun _ _ => hends⟩

theorem call {operation : FileSystem → Except OsError FileSystem} {remnant : CallFault → FileSystem → FileSystem}
    {done failed : FileSystem → Prop} (hdone : ∀ fs fs', before fs → operation fs = .ok fs' → seen fs' ∧ done fs')
    (hfailed : ∀ fs error, before fs → operation fs = .error error → seen fs ∧ failed fs)
    (hremnant : ∀ fs fault, before fs → seen (remnant fault fs) ∧ failed (remnant fault fs)) :
    Runs seen before (Device.call operation remnant) (fun _ => done) fun _ => failed := by
  intro device hbefore hpast
  cases hfault : device.fault? device.past.length with
  | none =>
    have hrun : (Device.call operation remnant).run device = (Device.soundCall operation).run device := by
      simp only [Device.call, ExceptT.run_mk, hfault]
    rw [hrun]
    exact soundCall hdone hfailed device hbefore hpast
  | some fault =>
    have hrun : (Device.call operation remnant).run device
        = (.error fault.cause, device.record (remnant fault device.files)) := by
      simp only [Device.call, ExceptT.run_mk, hfault]
    obtain ⟨hseen, hends⟩ := hremnant _ fault hbefore
    rw [hrun]
    exact ⟨List.forall_mem_cons.mpr ⟨hseen, hpast⟩, nofun, fun _ _ => hends⟩

end Runs

end Retoken
