import Retoken.Proofs.FileSystem.Replacing
import Retoken.Proofs.Run.Removing

/-!
# What writing the changed classes does

Each write puts its class where its destination denotes, which is told by the file system at the start, and leaves nothing at the temporary file beside it. `Outcome` says what may have become of a location after some of the writes, and one more write changes it at its own places only. Places of temporary files are never places of classes, as their names end differently.
-/

namespace Retoken

open Retoken.FileSystem Retoken.Path

variable {fs state state' : FileSystem} {settings : Settings} {writes rest : List PendingWrite} {write : PendingWrite}
  {location place : Location} {path : Path} {names : List String} {after : Option Node}

/-- The last piece of the path is the name of a class file. -/
def ClassPath (path : Path) : Prop :=
  ∃ before name, path.pieces = before ++ [name] ∧ IsName name ∧ extensionOf? name = some "class"

theorem classPath_join (root : Path) (hne : names ≠ []) (hnames : ∀ name ∈ names, IsName name)
    (hclass : (ofNames names).isClassFile = true) : ClassPath (root.join (ofNames names)) := by
  obtain ⟨before, hpieces⟩ := exists_pieces_join root hne hnames
  obtain ⟨init, last, rfl⟩ := (List.eq_nil_or_concat names).resolve_left hne
  rw [List.concat_eq_append] at *
  refine ⟨before ++ init, last, ?_, hnames last List.mem_concat_self, ?_⟩
  · rw [hpieces, List.append_assoc]
  · rw [isClassFile, extension?_ofNames hnames] at hclass
    exact beq_iff_eq.mp hclass

theorem concat_ne_temporary {init : Location} {name : String} (hclass : extensionOf? name = some "class")
    (hplace : place ≠ []) :
    init ++ [name] ≠ temporary place := by
  obtain ⟨front, last, rfl⟩ := (List.eq_nil_or_concat place).resolve_left hplace
  rw [List.concat_eq_append, temporary_concat]
  intro hsame
  obtain ⟨-, hlast⟩ := List.append_inj' hsame rfl
  rw [List.singleton_inj.mp hlast] at hclass
  exact extensionOf?_temporary last hclass

theorem ClassPath.ne_temporary (hpath : ClassPath path) (hdenotes : fs.Denotes path location) (hplace : place ≠ []) :
    location ≠ temporary place := by
  obtain ⟨before, name, hpieces, -, hclass⟩ := hpath
  obtain ⟨before', name', directory, hpieces', -, -, rfl⟩ := hdenotes
  rw [hpieces] at hpieces'
  obtain ⟨-, hname⟩ := List.append_inj' hpieces' rfl
  obtain rfl := List.singleton_inj.mp hname
  exact concat_ne_temporary hclass hplace

namespace Run

def Target (fs : FileSystem) (writes : List PendingWrite) (location : Location) : Prop :=
  ∃ write ∈ writes, fs.Denotes write.destination location

def Beside (fs : FileSystem) (writes : List PendingWrite) (location : Location) : Prop :=
  ∃ place, Target fs writes place ∧ location = temporary place

/-- What has become of a location once stale classes have been removed and classes have been written. -/
inductive Outcome (fs : FileSystem) (settings : Settings) (writes : List PendingWrite) (location : Location) :
    Option Node → Prop
  | kept (hfresh : ¬ Stale fs settings location) (htarget : ¬ Target fs writes location)
      (hbeside : ¬ Beside fs writes location) : Outcome fs settings writes location (fs.node? location)
  | removed (hstale : Stale fs settings location) (htarget : ¬ Target fs writes location)
      (hbeside : ¬ Beside fs writes location) : Outcome fs settings writes location none
  | written {write : PendingWrite} (hwrite : write ∈ writes) (hdenotes : fs.Denotes write.destination location) :
      Outcome fs settings writes location (some (.file write.bytes))
  | freed (hbeside : Beside fs writes location) : Outcome fs settings writes location none
  | made {write : PendingWrite} (hwrite : write ∈ writes) (hsurrounds : fs.Surrounds write.destination location)
      (hmissing : fs.node? location ≠ some .directory)
      (hempty : fs.node? location = none ∨ Stale fs settings location ∨ Beside fs writes location) :
      Outcome fs settings writes location (some .directory)

structure Carried (fs : FileSystem) (settings : Settings) (writes : List PendingWrite) (state : FileSystem) : Prop where
  later : Later fs state
  outcome : ∀ location, Outcome fs settings writes location (state.node? location)
  directories : ∀ location, fs.node? location = some .directory → state.node? location = some .directory
  landed : ∀ write ∈ writes, ∃ location, fs.Denotes write.destination location
    ∧ (∃ other ∈ writes, fs.Denotes other.destination location ∧ state.node? location = some (.file other.bytes))
    ∧ ((∀ place target, Target fs writes place → fs.node? place ≠ some (.link target)) →
        state.locate .find write.destination = .ok location)

theorem carried_of_removed (hremoved : Removed (Stale fs settings) fs state) : Carried fs settings [] state where
  later := by
    have hlinks : ∀ location target, fs.node? location = some (.link target) → ¬ Stale fs settings location := by
      intro location target hlink hstale
      obtain ⟨bytes, hfile⟩ := hstale.isFile
      rw [hlink] at hfile
      cases hfile
    refine ⟨hremoved.workingDirectory, fun location target hlink => ?_, fun location target hlink => ?_⟩
    · by_cases hstale : Stale fs settings location
      · rw [hremoved.removed location hstale] at hlink
        cases hlink
      · rw [← hremoved.others location hstale, hlink]
    · rw [hremoved.others location (hlinks location target hlink)]
      exact .inl hlink
  outcome location := by
    by_cases hstale : Stale fs settings location
    · rw [hremoved.removed location hstale]
      exact .removed hstale nofun nofun
    · rw [hremoved.others location hstale]
      exact .kept hstale nofun nofun
  directories location hdirectory := by
    rw [hremoved.others location, hdirectory]
    intro hstale
    obtain ⟨bytes, hfile⟩ := hstale.isFile
    rw [hdirectory] at hfile
    cases hfile
  landed := nofun

/-! ### One more write -/

theorem target_append :
    Target fs (writes ++ [write]) place ↔ Target fs writes place ∨ fs.Denotes write.destination place := by
  simp [Target, or_and_right, exists_or]

theorem Target.append (htarget : Target fs writes place) : Target fs (writes ++ [write]) place :=
  target_append.mpr (.inl htarget)

theorem Beside.append (hbeside : Beside fs writes place) : Beside fs (writes ++ [write]) place := by
  obtain ⟨target, htarget, hsame⟩ := hbeside
  exact ⟨target, htarget.append, hsame⟩

section

variable {other : Location} (hdenotes : fs.Denotes write.destination location) (hwritten : other ≠ location)

include hdenotes hwritten

theorem not_target_append (htarget : ¬ Target fs writes other) : ¬ Target fs (writes ++ [write]) other := by
  rw [target_append, not_or]
  exact ⟨htarget, fun hother => hwritten (hother.unique hdenotes)⟩

omit hwritten

variable (hfreed : other ≠ temporary location)

include hfreed

theorem not_beside_append (hbeside : ¬ Beside fs writes other) : ¬ Beside fs (writes ++ [write]) other := by
  rintro ⟨place, htarget, rfl⟩
  rcases target_append.mp htarget with hold | hnew
  · exact hbeside ⟨place, hold, rfl⟩
  · exact hfreed (by rw [hnew.unique hdenotes])

include hwritten

theorem Outcome.append (houtcome : Outcome fs settings writes other after) :
    Outcome fs settings (writes ++ [write]) other after := by
  cases houtcome with
  | kept hfresh htarget hbeside =>
    exact .kept hfresh (not_target_append hdenotes hwritten htarget) (not_beside_append hdenotes hfreed hbeside)
  | removed hstale htarget hbeside =>
    exact .removed hstale (not_target_append hdenotes hwritten htarget) (not_beside_append hdenotes hfreed hbeside)
  | written hwrite hother => exact .written (List.mem_append_left _ hwrite) hother
  | freed hbeside => exact .freed hbeside.append
  | made hwrite hsurrounds hmissing hempty =>
    exact .made (List.mem_append_left _ hwrite) hsurrounds hmissing (hempty.imp_right (Or.imp_right Beside.append))

end

theorem Outcome.empty (houtcome : Outcome fs settings writes location after) (hafter : after = none) :
    fs.node? location = none ∨ Stale fs settings location ∨ Beside fs writes location := by
  cases houtcome with
  | kept => exact .inl hafter
  | removed hstale => exact .inr (.inl hstale)
  | written => cases hafter
  | freed hbeside => exact .inr (.inr hbeside)
  | made => cases hafter

theorem Outcome.directory (houtcome : Outcome fs settings writes location after) (hafter : after = some .directory) :
    fs.node? location = some .directory ∨ ∃ write ∈ writes, fs.Surrounds write.destination location := by
  cases houtcome with
  | kept => exact .inl hafter
  | removed => cases hafter
  | written => cases hafter
  | freed => cases hafter
  | made hwrite hsurrounds => exact .inr ⟨_, hwrite, hsurrounds⟩

theorem Outcome.file {bytes : List UInt8} (houtcome : Outcome fs settings writes location after)
    (hafter : after = some (.file bytes)) : fs.node? location = some (.file bytes) ∧ ¬ Stale fs settings location
      ∨ ∃ write ∈ writes, fs.Denotes write.destination location ∧ write.bytes = bytes := by
  cases houtcome with
  | kept hfresh => exact .inl ⟨hafter, hfresh⟩
  | removed => cases hafter
  | written hwrite hdenotes =>
    cases hafter
    exact .inr ⟨_, hwrite, hdenotes, rfl⟩
  | freed => cases hafter
  | made => cases hafter

/-- A file that is neither stale nor beside a class stays or is written over. -/
theorem Outcome.stays {bytes : List UInt8} (houtcome : Outcome fs settings writes location after)
    (hnode : fs.node? location = some (.file bytes)) (hfresh : ¬ Stale fs settings location)
    (hbeside : ¬ Beside fs writes location) : ∃ content, after = some (.file content) := by
  cases houtcome with
  | kept => exact ⟨bytes, hnode⟩
  | removed hstale => exact absurd hstale hfresh
  | written => exact ⟨_, rfl⟩
  | freed hfreed => exact absurd hfreed hbeside
  | made _ _ _ hempty =>
    rcases hempty with hnone | hstale | hfreed
    · rw [hnode] at hnone
      cases hnone
    · exact absurd hstale hfresh
    · exact absurd hfreed hbeside

theorem Outcome.beside (houtcome : Outcome fs settings writes location after)
    (hclass : ∀ write ∈ writes, ClassPath write.destination) (hbeside : Beside fs writes location) :
    after = none ∨ after = some .directory := by
  cases houtcome with
  | kept _ _ hfree => exact absurd hbeside hfree
  | removed _ _ hfree => exact absurd hbeside hfree
  | written hwrite hdenotes =>
    obtain ⟨place, ⟨_, _, hplace⟩, rfl⟩ := hbeside
    exact absurd rfl ((hclass _ hwrite).ne_temporary hdenotes hplace.ne_nil)
  | freed => exact .inl rfl
  | made => exact .inr rfl

theorem Carried.append (hcarried : Carried fs settings writes state)
    (hrewritten : Rewritten fs write.destination write.bytes location state state')
    (hclass : ∀ other ∈ writes, ClassPath other.destination)
    (hbeside : ∀ target, fs.node? (temporary location) ≠ some (.link target)) :
    Carried fs settings (writes ++ [write]) state' where
  later := hrewritten.later hcarried.later hbeside
  outcome other := by
    have hdenotes := hrewritten.denotes
    by_cases hwritten : other = location
    · rw [hwritten, hrewritten.written]
      exact .written List.mem_concat_self hdenotes
    by_cases hfreed : other = temporary location
    · rw [hfreed, hrewritten.freed]
      exact .freed ⟨location, target_append.mpr (.inr hdenotes), rfl⟩
    have houtcome := hcarried.outcome other
    rcases hrewritten.others other hwritten hfreed with hsame | ⟨hnone, hmade, hsurrounds⟩
    · rw [hsame]
      exact houtcome.append hdenotes hwritten hfreed
    · rw [hnone] at houtcome
      rw [hmade]
      refine .made List.mem_concat_self hsurrounds (fun hdirectory => ?_)
        ((houtcome.empty rfl).imp_right (Or.imp_right Beside.append))
      rw [hcarried.directories other hdirectory] at hnone
      cases hnone
  directories other hdirectory := hrewritten.directories other (hcarried.directories other hdirectory)
  landed := by
    intro one hone
    -- A class that had landed is still there, or the new one has taken its place.
    rcases List.mem_append.mp hone with hone | hone
    · obtain ⟨place, hplace, ⟨other, hother, hdenotes, hnode⟩, hlocated⟩ := hcarried.landed one hone
      refine ⟨place, hplace, ?_, fun hunlinked => ?_⟩
      · by_cases hwritten : place = location
        · rw [hwritten]
          exact ⟨write, List.mem_concat_self, hrewritten.denotes, hrewritten.written⟩
        · have hfreed := (hclass one hone).ne_temporary hplace hrewritten.denotes.ne_nil
          refine ⟨other, List.mem_append_left _ hother, hdenotes, ?_⟩
          rcases hrewritten.others place hwritten hfreed with hsame | ⟨hnone, -, -⟩
          · rw [hsame, hnode]
          · rw [hnode] at hnone
            cases hnone
      · have hlocate := hlocated fun other target hother => hunlinked other target hother.append
        have hfree := fun target => hunlinked location target (target_append.mpr (.inr hrewritten.denotes))
        exact hrewritten.locate hcarried.later hfree hbeside hlocate
    · rw [List.mem_singleton.mp hone]
      refine ⟨location, hrewritten.denotes, ⟨write, List.mem_concat_self, hrewritten.denotes, hrewritten.written⟩, ?_⟩
      intro hunlinked
      exact hrewritten.located fun target => hunlinked location target (target_append.mpr (.inr hrewritten.denotes))

/-! ### All writes -/

theorem Carried.forM {done : List PendingWrite} (hcarried : Carried fs settings done state)
    (hclass : ∀ write ∈ done ++ rest, ClassPath write.destination)
    (hbeside : ∀ location target, Beside fs (done ++ rest) location → fs.node? location ≠ some (.link target))
    (hrun : (rest.forM writeClass : ExceptT RunError (StateM FileSystem) Unit).run state = (.ok (), state')) :
    Carried fs settings (done ++ rest) state' := by
  induction rest generalizing done state with
  | nil =>
    cases hrun
    rw [List.append_nil]
    exact hcarried
  | cons write rest ih =>
    have hwrite : write ∈ done ++ write :: rest := List.mem_append_right _ List.mem_cons_self
    obtain ⟨⟨⟩, middle, hfirst, hrest⟩ := run_bind_eq.mp hrun
    obtain ⟨before, name, hpieces, hname, -⟩ := hclass write hwrite
    have hunlinked : ∀ location target, fs.Denotes write.destination location →
        fs.node? (temporary location) ≠ some (.link target) :=
      fun location target hdenotes => hbeside _ target ⟨location, ⟨write, hwrite, hdenotes⟩, rfl⟩
    obtain ⟨location, hrewritten⟩ :=
      Disk.rewritten_of_writeAtomically hcarried.later hpieces hname hunlinked (run_adapt_eq.mp hfirst)
    have hdone : ∀ other ∈ done, ClassPath other.destination :=
      fun other hother => hclass other (List.mem_append_left _ hother)
    have hnext := hcarried.append hrewritten hdone fun target => hunlinked location target hrewritten.denotes
    rw [List.append_cons] at hclass hbeside ⊢
    exact ih hnext hclass hbeside hrest

/-- What carrying out a plan does, if it succeeds. -/
theorem carried_of_carryOut {fs' : FileSystem} {plan : Plan} {cleaned : Nat} (hproper : fs.Proper)
    (hclass : ∀ write ∈ plan.writes.toList, ClassPath write.destination)
    (hbeside : ∀ location target, Beside fs plan.writes.toList location → fs.node? location ≠ some (.link target))
    (hrun : (carryOut settings plan : ExceptT RunError (StateM FileSystem) Nat).run fs = (.ok cleaned, fs')) :
    Carried fs settings plan.writes.toList fs' ∧ cleaned = {location | Stale fs settings location}.ncard := by
  obtain ⟨count, middle, hstale, hrun⟩ := run_bind_eq.mp hrun
  obtain ⟨⟨⟩, last, hwrites, hcount⟩ := run_bind_eq.mp hrun
  obtain ⟨hcleaned, rfl⟩ := Prod.mk.inj hcount
  obtain rfl := Except.ok.inj hcleaned
  obtain ⟨hremoved, hnumber⟩ := removeStale_eq_ok hproper hstale
  exact ⟨(carried_of_removed hremoved).forM hclass hbeside hwrites, hnumber⟩

end Run

end Retoken
