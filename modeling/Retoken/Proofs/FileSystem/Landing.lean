import Retoken.Proofs.FileSystem.Keeping
import Retoken.Proofs.FileSystem.Parents

/-!
# Where paths land

`Lands` says where a path leads once the directories that are missing on its way have been made. So a path lands at one place while files are written and removed around it, as long as no links are made and those that go give way to files.
-/

namespace Retoken.FileSystem

open Retoken.Path

variable {fs later : FileSystem} {purpose : Purpose} {limit : Nat} {location place middle : Location}
  {piece name : String} {pieces first second names : List String} {path parent : Path}

/-- The pieces of a path lead from one location to another, however many of the directories on the way are missing. -/
inductive Lands (fs : FileSystem) : Location → List String → Location → Prop
  | done {location : Location} : Lands fs location [] location
  | stay {location place : Location} {piece : String} {pieces : List String} (hpiece : piece = "" ∨ piece = ".")
      (hrest : Lands fs location pieces place) : Lands fs location (piece :: pieces) place
  | up {location place : Location} {pieces : List String} (hrest : Lands fs location.dropLast pieces place) :
      Lands fs location (".." :: pieces) place
  | down {location place : Location} {piece : String} {pieces : List String} (hpiece : ¬ (piece = "" ∨ piece = "."))
      (hup : piece ≠ "..") (hnode : ∀ target, fs.node? (location ++ [piece]) ≠ some (.link target))
      (hrest : Lands fs (location ++ [piece]) pieces place) : Lands fs location (piece :: pieces) place
  | follow {location place : Location} {piece : String} {pieces : List String} {target : Path}
      (hpiece : ¬ (piece = "" ∨ piece = ".")) (hup : piece ≠ "..")
      (hnode : fs.node? (location ++ [piece]) = some (.link target))
      (hrest : Lands fs (startOf target location) (target.pieces ++ pieces) place) :
      Lands fs location (piece :: pieces) place

namespace Lands

theorem unique {other : Location} (hlands : fs.Lands location pieces place) (hother : fs.Lands location pieces other) :
    place = other := by
  induction hlands with
  | done =>
    cases hother
    rfl
  | stay hpiece _ ih =>
    cases hother with
    | stay _ hrest => exact ih hrest
    | up => exact absurd hpiece (by decide)
    | down hname => exact absurd hpiece hname
    | follow hname => exact absurd hpiece hname
  | up _ ih =>
    cases hother with
    | stay hpiece => exact absurd hpiece (by decide)
    | up hrest => exact ih hrest
    | down _ hup => exact absurd rfl hup
    | follow _ hup => exact absurd rfl hup
  | down hname hup hnode _ ih =>
    cases hother with
    | stay hpiece => exact absurd hpiece hname
    | up => exact absurd rfl hup
    | down _ _ _ hrest => exact ih hrest
    | follow _ _ hlink => exact absurd hlink (hnode _)
  | follow hname hup hnode _ ih =>
    cases hother with
    | stay hpiece => exact absurd hpiece hname
    | up => exact absurd rfl hup
    | down _ _ hfree => exact absurd hnode (hfree _)
    | follow _ _ hlink hrest =>
      rw [hnode] at hlink
      cases hlink
      exact ih hrest

theorem append (hfirst : fs.Lands location first middle) (hsecond : fs.Lands middle second place) :
    fs.Lands location (first ++ second) place := by
  induction hfirst with
  | done => exact hsecond
  | stay hpiece _ ih => exact .stay hpiece (ih hsecond)
  | up _ ih => exact .up (ih hsecond)
  | down hname hup hnode _ ih => exact .down hname hup hnode (ih hsecond)
  | follow hname hup hnode _ ih =>
    have hrest := ih hsecond
    rw [List.append_assoc] at hrest
    exact .follow hname hup hnode hrest

theorem of_blanks (hblanks : ∀ piece ∈ pieces, piece = "") : fs.Lands location pieces location := by
  induction pieces with
  | nil => exact .done
  | cons piece pieces ih =>
    exact .stay (.inl (hblanks piece List.mem_cons_self)) (ih fun later hlater =>
      hblanks later (List.mem_cons_of_mem _ hlater))

theorem of_name (hname : IsName name) (hunlinked : ∀ target, fs.node? (location ++ [name]) ≠ some (.link target)) :
    fs.Lands location [name] (location ++ [name]) :=
  .down hname.not_blank hname.ne_up hunlinked .done

theorem of_names (hnames : ∀ name ∈ names, IsName name)
    (hunlinked : ∀ below target, below ≠ [] → below <+: names → fs.node? (location ++ below) ≠ some (.link target)) :
    fs.Lands location names (location ++ names) := by
  induction names using List.reverseRecOn with
  | nil =>
    rw [List.append_nil]
    exact .done
  | append_singleton names name ih =>
    have hfirst := ih (fun other hother => hnames other (List.mem_append_left _ hother))
      fun below target hbelow hwithin => hunlinked below target hbelow (hwithin.trans (List.prefix_append names [name]))
    refine hfirst.append ?_
    rw [← List.append_assoc]
    refine Lands.of_name (hnames name List.mem_concat_self) fun target => ?_
    rw [List.append_assoc]
    exact hunlinked (names ++ [name]) target
      (List.append_ne_nil_of_right_ne_nil _ (List.cons_ne_nil _ _)) List.prefix_rfl

end Lands

/-! ### Later file systems -/

/-- What may become of links: none are made, and those that go give way to files. -/
structure Later (fs later : FileSystem) : Prop where
  workingDirectory : later.workingDirectory = fs.workingDirectory
  links : ∀ location target, later.node? location = some (.link target) → fs.node? location = some (.link target)
  replaced : ∀ location target, fs.node? location = some (.link target) →
    later.node? location = some (.link target) ∨ ∃ bytes, later.node? location = some (.file bytes)

theorem Later.refl (fs : FileSystem) : Later fs fs where
  workingDirectory := rfl
  links _ _ hlink := hlink
  replaced _ _ hlink := .inl hlink

theorem Leads.directory (hleads : fs.Leads purpose limit location pieces place)
    (hplace : fs.node? place = some .directory) : fs.node? location = some .directory := by
  cases hleads with
  | done => exact hplace
  | stay hdirectory | up hdirectory | down hdirectory | follow hdirectory => exact hdirectory

theorem Later.lands (hlater : Later fs later) (hleads : later.Leads purpose limit location pieces place)
    (hplace : later.node? place = some .directory) : fs.Lands location pieces place := by
  induction hleads with
  | done => exact .done
  | stay _ hpiece _ ih => exact .stay hpiece (ih hplace)
  | up _ _ ih => exact .up (ih hplace)
  | down _ hpiece hup _ _ hnode hrest ih =>
    refine .down hpiece hup (fun target hlink => ?_) (ih hplace)
    rcases hlater.replaced _ target hlink with hstill | ⟨bytes, hfile⟩
    · exact hnode target hstill
    · rw [hrest.directory hplace] at hfile
      cases hfile
  | follow _ hpiece hup _ _ hnode _ ih => exact .follow hpiece hup (hlater.links _ _ hnode) (ih hplace)

/-! ### Entries -/

/-- The path denotes an entry of a directory: its last piece is the name of the entry, and the pieces before it land at the directory. -/
def Denotes (fs : FileSystem) (path : Path) (location : Location) : Prop :=
  ∃ before name directory, path.pieces = before ++ [name] ∧ IsName name
    ∧ fs.Lands (startOf path fs.workingDirectory) before directory ∧ location = directory ++ [name]

namespace Denotes

theorem unique {other : Location} (hdenotes : fs.Denotes path location) (hother : fs.Denotes path other) :
    location = other := by
  obtain ⟨before, name, directory, hpieces, -, hlands, rfl⟩ := hdenotes
  obtain ⟨before', name', directory', hpieces', -, hlands', rfl⟩ := hother
  rw [hpieces] at hpieces'
  obtain ⟨rfl, hname⟩ := List.append_inj' hpieces' rfl
  rw [List.singleton_inj.mp hname, hlands.unique hlands']

theorem ne_nil (hdenotes : fs.Denotes path location) : location ≠ [] := by
  obtain ⟨before, name, directory, -, -, -, rfl⟩ := hdenotes
  exact List.append_ne_nil_of_right_ne_nil _ (List.cons_ne_nil _ _)

theorem beside (hdenotes : fs.Denotes path location) : fs.Denotes (path.withSuffix ".tmp") (temporary location) := by
  obtain ⟨before, name, directory, hpieces, hname, hlands, rfl⟩ := hdenotes
  refine ⟨before, name ++ ".tmp", directory, pieces_withSuffix (by decide) hpieces, hname.temporary, ?_,
    temporary_concat directory name⟩
  rw [startOf, isAbsolute_withSuffix (text_ne_empty hpieces hname.ne_empty)]
  exact hlands

end Denotes

/-- Names behind the path of a directory denote what stands below it. -/
theorem Straight.denotes (hstraight : Straight fs path place names) (hne : names ≠ []) :
    fs.Denotes (path.join (.ofNames names)) (place ++ names) := by
  obtain ⟨before, hpieces, hleads⟩ := hstraight.rooted.leads names hne hstraight.isName
  have hplace := (Later.refl fs).lands hleads hstraight.rooted.isDirectory
  obtain ⟨init, last, rfl⟩ := (List.eq_nil_or_concat names).resolve_left hne
  rw [List.concat_eq_append] at *
  have hinit := hstraight.init (List.prefix_append init [last])
  refine ⟨before ++ init, last, place ++ init, ?_, hstraight.isName last List.mem_concat_self, ?_, ?_⟩
  · rw [hpieces, List.append_assoc]
  · exact hplace.append (Lands.of_names hinit.isName hinit.unlinked)
  · rw [List.append_assoc]

namespace Later

variable {before : List String} {directory expected : Location}

theorem lands_entry (hlater : Later fs later) (hentry : EntryAt later path before name directory)
    (hunlinked : ∀ target, fs.node? (directory ++ [name]) ≠ some (.link target)) :
    fs.Lands (startOf path fs.workingDirectory) path.pieces (directory ++ [name]) := by
  obtain ⟨blanks, hpieces, hblanks⟩ := hentry.pieces
  have hleads := hentry.leads
  rw [hlater.workingDirectory] at hleads
  have hdirectory := hlater.lands hleads hentry.isDirectory
  rw [hpieces, List.append_cons]
  exact (hdirectory.append (Lands.of_name hentry.isName hunlinked)).append (Lands.of_blanks hblanks)

theorem entry_eq (hlater : Later fs later) (hdenotes : fs.Denotes path expected)
    (hentry : EntryAt later path before name directory) : directory ++ [name] = expected := by
  obtain ⟨first, last, place, hpieces, hname, hlands, rfl⟩ := hdenotes
  obtain ⟨rfl, rfl⟩ := hentry.of_pieces hpieces hname.ne_empty
  have hleads := hentry.leads
  rw [hlater.workingDirectory] at hleads
  rw [hlands.unique (hlater.lands hleads hentry.isDirectory)]

/-- A path with a name at its end that leads anywhere denotes an entry of a directory. -/
theorem denotes_of_locate (hlater : Later fs later) (hlocate : later.locate purpose path = .ok location)
    (hpieces : path.pieces = before ++ [name]) (hname : IsName name) :
    ∃ directory rest, fs.Lands (startOf path fs.workingDirectory) before directory
      ∧ later.Leads purpose rest directory [name] location := by
  obtain ⟨-, hleads⟩ := locate_eq_ok.mp hlocate
  rw [hpieces, hlater.workingDirectory] at hleads
  obtain ⟨directory, rest, hbefore, hlast⟩ := hleads.split
  have hdirectory : later.node? directory = some .directory := by
    cases hlast with
    | stay hdirectory | up hdirectory | down hdirectory | follow hdirectory => exact hdirectory
  exact ⟨directory, rest, hlater.lands hbefore hdirectory, hlast⟩

theorem locate_eq (hlater : Later fs later) (hdenotes : fs.Denotes path expected)
    (hunlinked : ∀ target, fs.node? expected ≠ some (.link target))
    (hlocate : later.locate purpose path = .ok location) :
    location = expected := by
  obtain ⟨before, name, place, hpieces, hname, hlands, rfl⟩ := hdenotes
  obtain ⟨directory, rest, hdirectory, hlast⟩ := hlater.denotes_of_locate hlocate hpieces hname
  obtain rfl := hdirectory.unique hlands
  refine hlast.place_eq (fun other hother => ?_) fun below target hbelow hwithin hlink => ?_
  · rw [List.mem_singleton.mp hother]
    exact hname
  · obtain rfl : below = [name] := by
      obtain ⟨tail, rfl, htail⟩ := (List.prefix_cons_iff.mp hwithin).resolve_left hbelow
      rw [List.prefix_nil.mp htail]
    exact hunlinked target (hlater.links _ target hlink)

end Later

/-! ### Directories around a path -/

def Surrounds (fs : FileSystem) (path : Path) (location : Location) : Prop :=
  ∃ parent ∈ path.parents, parent.text ≠ "" ∧ fs.Lands (startOf parent fs.workingDirectory) parent.pieces location

/-- The directories around what is there are there. -/
theorem Surrounds.isDirectory (hsurrounds : fs.Surrounds path place) (hlocate : fs.locate .find path = .ok location) :
    fs.node? place = some .directory := by
  obtain ⟨parent, hparent, htext, hlands⟩ := hsurrounds
  obtain ⟨habsolute, before, rest, hpieces, ⟨piece, hpiece, -⟩, hblank⟩ := on_way_of_mem_parents hparent htext
  obtain ⟨-, hleads⟩ := locate_eq_ok.mp hlocate
  rw [hpieces] at hleads
  obtain ⟨middle, fewer, hbefore, hafter⟩ := hleads.split
  have hmiddle : fs.node? middle = some .directory := by
    cases hafter with
    | done => cases hpiece
    | stay hdirectory | up hdirectory | down hdirectory | follow hdirectory => exact hdirectory
  have hway := (Later.refl fs).lands hbefore hmiddle
  rw [startOf, habsolute] at hlands
  have hparentLands : fs.Lands (startOf path fs.workingDirectory) parent.pieces middle := by
    rcases hblank with hsame | hseparator
    · rw [hsame]
      exact hway
    · rw [hseparator]
      exact hway.append (Lands.of_blanks fun piece hpiece => List.mem_singleton.mp hpiece)
  rw [hlands.unique hparentLands]
  exact hmiddle

end Retoken.FileSystem
