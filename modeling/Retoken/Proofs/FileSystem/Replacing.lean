import Retoken.Proofs.FileSystem.Landing
import Retoken.Proofs.FileSystem.Maintaining

/-!
# What an atomic write does

An atomic write that succeeds puts the new content where its path denotes, leaves nothing at the place of the temporary file beside it, and makes the directories around the path that were missing. Nothing else changes, unless a link stands where the temporary file goes: then the file at the end of that link is written to, and the link is moved.
-/

namespace Retoken

open Retoken.FileSystem Retoken.Path

variable {fs state state' state'' : FileSystem} {path : Path} {location place other : Location} {before : List String}
  {name : String} {bytes : List UInt8}

namespace FileSystem

/-! ### Single changes -/

theorem Later.put (hlater : Later fs state) (hlocation : location ≠ []) (bytes : List UInt8) :
    Later fs (state.put location (.file bytes)) where
  workingDirectory := hlater.workingDirectory
  links other target hlink := by
    rw [node?_put hlocation] at hlink
    split at hlink
    case isTrue => cases hlink
    case isFalse => exact hlater.links other target hlink
  replaced other target hlink := by
    rw [node?_put hlocation]
    split
    case isTrue => exact .inr ⟨bytes, rfl⟩
    case isFalse => exact hlater.replaced other target hlink

/-! ### Making directories -/

structure Furnished (fs : FileSystem) (path : Path) (state state' : FileSystem) : Prop where
  workingDirectory : state'.workingDirectory = state.workingDirectory
  nodes : ∀ location, state'.node? location = state.node? location
    ∨ state.node? location = none ∧ state'.node? location = some .directory ∧ fs.Surrounds path location

namespace Furnished

theorem refl (state : FileSystem) : Furnished fs path state state where
  workingDirectory := rfl
  nodes _ := .inl rfl

variable (hfurnished : Furnished fs path state state')

include hfurnished

theorem trans (hsecond : Furnished fs path state' state'') : Furnished fs path state state'' where
  workingDirectory := hsecond.workingDirectory.trans hfurnished.workingDirectory
  nodes location := by
    rcases hsecond.nodes location with hsame | ⟨hnone, hdirectory, hsurrounds⟩
    · rw [hsame]
      exact hfurnished.nodes location
    · rcases hfurnished.nodes location with hsame | ⟨-, hmade, -⟩
      · rw [hsame] at hnone
        exact .inr ⟨hnone, hdirectory, hsurrounds⟩
      · rw [hmade] at hnone
        cases hnone

theorem later (hlater : Later fs state) : Later fs state' where
  workingDirectory := hfurnished.workingDirectory.trans hlater.workingDirectory
  links location target hlink := by
    rcases hfurnished.nodes location with hsame | ⟨-, hmade, -⟩
    · rw [hsame] at hlink
      exact hlater.links location target hlink
    · rw [hmade] at hlink
      cases hlink
  replaced location target hlink := by
    rcases hfurnished.nodes location with hsame | ⟨hnone, -, -⟩
    · rw [hsame]
      exact hlater.replaced location target hlink
    · rcases hlater.replaced location target hlink with hstill | ⟨bytes, hfile⟩
      · rw [hstill] at hnone
        cases hnone
      · rw [hfile] at hnone
        cases hnone

theorem directories (hdirectory : state.node? location = some .directory) :
    state'.node? location = some .directory := by
  rcases hfurnished.nodes location with hsame | ⟨-, hmade, -⟩
  · rw [hsame, hdirectory]
  · exact hmade

end Furnished

theorem makeDirectory_furnished {parent : Path} (hlater : Later fs state) (hparent : parent ∈ path.parents)
    (htext : parent.text ≠ "") (hmake : state.makeDirectory parent = .ok state') : Furnished fs path state state' := by
  obtain ⟨before, name, directory, hentry, hnone, rfl⟩ := of_makeDirectory hmake
  have hlocation : directory ++ [name] ≠ [] := List.append_ne_nil_of_right_ne_nil _ (List.cons_ne_nil _ _)
  have hunlinked : ∀ target, fs.node? (directory ++ [name]) ≠ some (.link target) := by
    intro target hlink
    rcases hlater.replaced _ target hlink with hstill | ⟨bytes, hfile⟩
    · rw [hstill] at hnone
      cases hnone
    · rw [hfile] at hnone
      cases hnone
  refine ⟨rfl, fun location => ?_⟩
  rw [node?_put hlocation]
  split
  case isTrue hsame =>
    subst hsame
    exact .inr ⟨hnone, rfl, parent, hparent, htext, hlater.lands_entry hentry hunlinked⟩
  case isFalse => exact .inl rfl

/-! ### Replacing a file -/

/-- The files after an atomic write, compared to those before it. What the path denotes is told by an earlier file system. -/
structure Rewritten (fs : FileSystem) (path : Path) (bytes : List UInt8) (location : Location)
    (state state' : FileSystem) : Prop where
  denotes : fs.Denotes path location
  workingDirectory : state'.workingDirectory = state.workingDirectory
  written : state'.node? location = some (.file bytes)
  freed : state'.node? (temporary location) = none
  others : ∀ other, other ≠ location → other ≠ temporary location → state'.node? other = state.node? other
    ∨ state.node? other = none ∧ state'.node? other = some .directory ∧ fs.Surrounds path other
  directories : ∀ other, state.node? other = some .directory → state'.node? other = some .directory
  located : (∀ target, fs.node? location ≠ some (.link target)) → state'.locate .find path = .ok location

theorem Rewritten.later (hrewritten : Rewritten fs path bytes location state state') (hlater : Later fs state)
    (hbeside : ∀ target, fs.node? (temporary location) ≠ some (.link target)) : Later fs state' where
  workingDirectory := hrewritten.workingDirectory.trans hlater.workingDirectory
  links other target hlink := by
    by_cases hwritten : other = location
    · rw [hwritten, hrewritten.written] at hlink
      cases hlink
    by_cases hfreed : other = temporary location
    · rw [hfreed, hrewritten.freed] at hlink
      cases hlink
    rcases hrewritten.others other hwritten hfreed with hsame | ⟨-, hmade, -⟩
    · rw [hsame] at hlink
      exact hlater.links other target hlink
    · rw [hmade] at hlink
      cases hlink
  replaced other target hlink := by
    by_cases hwritten : other = location
    · rw [hwritten]
      exact .inr ⟨bytes, hrewritten.written⟩
    have hfreed : other ≠ temporary location := by
      rintro rfl
      exact hbeside target hlink
    have hold := hlater.replaced other target hlink
    rcases hrewritten.others other hwritten hfreed with hsame | ⟨hnone, -, -⟩
    · rw [hsame]
      exact hold
    · rw [hnone] at hold
      rcases hold with hold | ⟨_, hold⟩ <;> cases hold

/-- A path leads on to where it led if there are no links at the two places that change. -/
theorem Rewritten.locate {path' : Path} (hrewritten : Rewritten fs path bytes location state state')
    (hlater : Later fs state) (hunlinked : ∀ target, fs.node? location ≠ some (.link target))
    (hbeside : ∀ target, fs.node? (temporary location) ≠ some (.link target))
    (hlocate : state.locate .find path' = .ok place) : state'.locate .find path' = .ok place := by
  have hlinks : ∀ other target, state'.node? other = some (.link target) ↔ state.node? other = some (.link target) := by
    intro other target
    by_cases hwritten : other = location
    · rw [hwritten, hrewritten.written]
      exact ⟨nofun, fun hlink => absurd (hlater.links _ target hlink) (hunlinked target)⟩
    by_cases hfreed : other = temporary location
    · rw [hfreed, hrewritten.freed]
      exact ⟨nofun, fun hlink => absurd (hlater.links _ target hlink) (hbeside target)⟩
    rcases hrewritten.others other hwritten hfreed with hsame | ⟨hnone, hmade, -⟩
    · rw [hsame]
    · rw [hnone, hmade]
      exact ⟨nofun, nofun⟩
  obtain ⟨hcheck, hleads⟩ := locate_eq_ok.mp hlocate
  rw [← hrewritten.workingDirectory] at hleads
  exact locate_eq_ok.mpr ⟨hcheck, hleads.kept hrewritten.directories hlinks⟩

theorem Furnished.rewritten {furnished : FileSystem} (hfurnished : Furnished fs path state furnished)
    (hrewritten : Rewritten fs path bytes location furnished state') :
    Rewritten fs path bytes location state state' where
  denotes := hrewritten.denotes
  workingDirectory := hrewritten.workingDirectory.trans hfurnished.workingDirectory
  written := hrewritten.written
  freed := hrewritten.freed
  others other hwritten hfreed := by
    rcases hfurnished.nodes other with hsame | ⟨hnone, hmade, hsurrounds⟩
    · rw [← hsame]
      exact hrewritten.others other hwritten hfreed
    · exact .inr ⟨hnone, hrewritten.directories other hmade, hsurrounds⟩
  directories other hold := hrewritten.directories other (hfurnished.directories hold)
  located := hrewritten.located

theorem EntryAt.locate {directory : Location} (hentry : EntryAt state path before name directory)
    (hpieces : path.pieces = before ++ [name]) (hworking : state'.workingDirectory = state.workingDirectory)
    (hdirectories : ∀ other, state.node? other = some .directory → state'.node? other = some .directory)
    (hlinks : ∀ other target, state'.node? other = some (.link target) ↔ state.node? other = some (.link target))
    (hnode : ∀ target, state'.node? (directory ++ [name]) ≠ some (.link target)) :
    state'.locate .find path = .ok (directory ++ [name]) := by
  refine locate_eq_ok.mpr ⟨hentry.checked, ?_⟩
  rw [hpieces, hworking]
  have hleads := hentry.leads.kept hdirectories hlinks
  exact hleads.concat (hdirectories directory hentry.isDirectory) hentry.isName hentry.short hnode

theorem node?_moved {beside : Location} (hlocation : location ≠ []) (hbeside : beside ≠ []) (node : Node)
    (other : Location) :
    (((state.put beside node).erase beside).put location node).node? other
      = if location = other then some node else if beside = other then none else state.node? other := by
  rw [node?_put hlocation, node?_erase hbeside, node?_put hbeside]
  by_cases hsame : beside = other
  · rw [if_pos hsame, if_pos hsame]
  · rw [if_neg hsame, if_neg hsame, if_neg hsame]

theorem EntryAt.locate_moved {directory beside : Location}
    (hentry : EntryAt (state.put beside (.file bytes)) path before name directory)
    (hpieces : path.pieces = before ++ [name])
    (hbeside : beside ≠ []) (hother : beside ≠ directory ++ [name])
    (hfree : state.node? (directory ++ [name]) ≠ some .directory)
    (hunlinked : ∀ target, state.node? (directory ++ [name]) ≠ some (.link target)) :
    (((state.put beside (.file bytes)).erase beside).put (directory ++ [name]) (.file bytes)).locate .find path
      = .ok (directory ++ [name]) := by
  have hlocation : directory ++ [name] ≠ [] := List.append_ne_nil_of_right_ne_nil _ (List.cons_ne_nil _ _)
  refine hentry.locate hpieces rfl (fun other hold => ?_) (fun other target => ?_) fun target hlink => ?_
  · rw [node?_put hbeside] at hold
    rw [node?_moved hlocation hbeside]
    split at hold
    case isTrue => cases hold
    case isFalse hunfreed =>
      rw [if_neg, if_neg hunfreed, hold]
      rintro rfl
      exact hfree hold
  · rw [node?_moved hlocation hbeside, node?_put hbeside]
    by_cases hwritten : directory ++ [name] = other
    · subst hwritten
      rw [if_pos rfl, if_neg hother]
      exact ⟨nofun, fun hlink => absurd hlink (hunlinked target)⟩
    · rw [if_neg hwritten]
      split
      case isTrue => exact ⟨nofun, nofun⟩
      case isFalse => exact Iff.rfl
  · rw [node?_moved hlocation hbeside, if_pos rfl] at hlink
    cases hlink

/-- A file that is written beside another one and then moved in its place. -/
theorem rewritten_of_rename {middle : FileSystem} (hlater : Later fs state) (hpieces : path.pieces = before ++ [name])
    (hname : IsName name)
    (hbeside : ∀ location target, fs.Denotes path location → fs.node? (temporary location) ≠ some (.link target))
    (hwrite : state.write (path.withSuffix ".tmp") bytes = .ok middle)
    (hrename : middle.rename (path.withSuffix ".tmp") path = .ok state') :
    ∃ location, Rewritten fs path bytes location state state' := by
  obtain ⟨found, hlocate, hdirectory, rfl⟩ := of_write hwrite
  obtain ⟨_, _, _, first, last, directory, node, hsource, htarget, hnode, -, hfree, rfl⟩ := of_rename hrename
  -- The temporary file and the file itself are entries of the directory that the pieces before their names land at.
  obtain ⟨place, rest, hlands, -⟩ :=
    hlater.denotes_of_locate hlocate (pieces_withSuffix (by decide) hpieces) hname.temporary
  rw [startOf, isAbsolute_withSuffix (text_ne_empty hpieces hname.ne_empty)] at hlands
  have hdenotes : fs.Denotes path (place ++ [name]) := ⟨before, name, place, hpieces, hname, hlands, rfl⟩
  have hunlinked := fun target => hbeside _ target hdenotes
  have hlocation := hdenotes.ne_nil
  have hother := temporary_ne hlocation
  have hbesideNil := temporary_ne_nil hlocation
  obtain rfl := hlater.locate_eq hdenotes.beside hunlinked hlocate
  have hmiddle := hlater.put hbesideNil bytes
  rw [hmiddle.entry_eq hdenotes.beside hsource] at hnode ⊢
  obtain ⟨rfl, rfl⟩ := htarget.of_pieces hpieces hname.ne_empty
  obtain ⟨rfl, -⟩ := List.append_inj' (hmiddle.entry_eq hdenotes htarget) rfl
  rw [node?_put hbesideNil, if_pos rfl] at hnode
  cases hnode
  rw [node?_put hbesideNil, if_neg hother] at hfree
  have hnodes : ∀ other, (((state.put _ _).erase _).put _ _).node? other = _ :=
    node?_moved hlocation hbesideNil (.file bytes)
  refine ⟨_, hdenotes, rfl, ?_, ?_, ?_, ?_, ?_⟩
  · rw [hnodes, if_pos rfl]
  · rw [hnodes, if_neg (Ne.symm hother), if_pos rfl]
  · intro other hwritten hfreed
    rw [hnodes, if_neg (Ne.symm hwritten), if_neg (Ne.symm hfreed)]
    exact .inl rfl
  · intro other hold
    rw [hnodes, if_neg, if_neg, hold]
    · rintro rfl
      exact hdirectory hold
    · rintro rfl
      exact hfree hold
  · intro hunlinkedFile
    exact htarget.locate_moved hpieces hbesideNil hother hfree fun target hlink =>
      hunlinkedFile target (hlater.links _ target hlink)

end FileSystem

namespace Disk

theorem of_replaceThrough {beside : Path}
    (hrun : (replaceThrough beside path bytes : ExceptT WriteError (StateM FileSystem) Unit).run state
      = (.ok (), state')) :
    ∃ middle, state.write beside bytes = .ok middle ∧ middle.rename beside path = .ok state' := by
  obtain ⟨⟨⟩, middle, hwrite, hrun⟩ := run_bind_eq.mp hrun
  obtain ⟨present, same, hpresent, hrun⟩ := run_bind_eq.mp hrun
  obtain ⟨-, rfl⟩ := Prod.mk.inj hpresent
  refine ⟨_, run_change_eq.mp (run_adapt_eq.mp hwrite), ?_⟩
  cases present with
  | true =>
    obtain ⟨⟨⟩, after, hcopy, hmove⟩ := run_bind_eq.mp hrun
    obtain ⟨-, rfl⟩ := run_look_eq.mp (run_adapt_eq.mp hcopy)
    exact run_change_eq.mp (run_adapt_eq.mp hmove)
  | false => exact run_change_eq.mp (run_adapt_eq.mp hrun)

theorem of_writeAtomically
    (hrun : (writeAtomically path bytes : ExceptT WriteError (StateM FileSystem) Unit).run state = (.ok (), state')) :
    ∃ furnished middle,
      (ensureDirectories path.parents : ExceptT OsError (StateM FileSystem) Unit).run state = (.ok (), furnished)
        ∧ furnished.write (path.withSuffix ".tmp") bytes = .ok middle
        ∧ middle.rename (path.withSuffix ".tmp") path = .ok state' := by
  have hreplace : ∀ furnished, (tryCatch (replaceThrough (path.withSuffix ".tmp") path bytes) fun error => do
        discard (remove (path.withSuffix ".tmp") : ExceptT OsError (StateM FileSystem) Unit).run
        throw error : ExceptT WriteError (StateM FileSystem) Unit).run furnished = (.ok (), state') →
      ∃ middle, furnished.write (path.withSuffix ".tmp") bytes = .ok middle
        ∧ middle.rename (path.withSuffix ".tmp") path = .ok state' := by
    intro furnished hcaught
    rcases run_tryCatch_eq.mp hcaught with hdone | ⟨error, middle, -, hhandler⟩
    · exact of_replaceThrough hdone
    · obtain ⟨_, _, -, hthrow⟩ := run_bind_eq.mp hhandler
      cases hthrow
  rw [writeAtomically, Path.parent?] at hrun
  cases hparents : path.parents with
  | nil =>
    rw [hparents] at hrun
    obtain ⟨middle, hsteps⟩ := hreplace state hrun
    exact ⟨state, middle, rfl, hsteps⟩
  | cons parent outer =>
    rw [hparents] at hrun
    obtain ⟨⟨⟩, furnished, hensure, hrun⟩ := run_bind_eq.mp hrun
    obtain ⟨middle, hsteps⟩ := hreplace furnished hrun
    exact ⟨furnished, middle, run_adapt_eq.mp hensure, hsteps⟩

/-- What an atomic write does that succeeds, in a state of an earlier file system in which there is no link beside the file. -/
theorem rewritten_of_writeAtomically (hlater : Later fs state) (hpieces : path.pieces = before ++ [name])
    (hname : IsName name)
    (hbeside : ∀ location target, fs.Denotes path location → fs.node? (temporary location) ≠ some (.link target))
    (hrun : (writeAtomically path bytes : ExceptT WriteError (StateM FileSystem) Unit).run state = (.ok (), state')) :
    ∃ location, Rewritten fs path bytes location state state' := by
  obtain ⟨furnished, middle, hensure, hwrite, hrename⟩ := of_writeAtomically hrun
  have hmaintains : Maintains (Furnished fs path state)
      (ensureDirectories path.parents : ExceptT OsError (StateM FileSystem) Unit).run := by
    refine ensureDirectories_maintains fun parent hparent htext => Maintains.change fun now after hnow hmake => ?_
    exact hnow.trans (makeDirectory_furnished (hnow.later hlater) hparent htext hmake)
  have hfurnished := hmaintains state (Furnished.refl state)
  rw [hensure] at hfurnished
  obtain ⟨location, hrewritten⟩ := rewritten_of_rename (hfurnished.later hlater) hpieces hname hbeside hwrite hrename
  exact ⟨location, hfurnished.rewritten hrewritten⟩

end Disk

end Retoken
