import Mathlib.Data.List.TakeWhile
import Retoken.Proofs.FileSystem.Walking

/-!
# What changes to files leave alone

Writing, renaming and removing files at known places leaves all other files as they are, and all directories and links. So a path that led to a directory leads there afterwards, and what is done below that directory stays below it as long as there are no links.
-/

namespace Retoken.FileSystem

open Retoken.Path

/-- Files differ at the given places only. Directories and links stay, and no links are made. -/
structure Kept (places : Location → Prop) (fs fs' : FileSystem) : Prop where
  workingDirectory : fs'.workingDirectory = fs.workingDirectory
  directories : ∀ location, fs.node? location = some .directory → fs'.node? location = some .directory
  links : ∀ location target, fs'.node? location = some (.link target) ↔ fs.node? location = some (.link target)
  files : ∀ location bytes, ¬ places location → fs.node? location = some (.file bytes) →
    fs'.node? location = some (.file bytes)

/-- Names behind the path lead on from the directory. So they do if the path leads to the directory, or if it is empty and the directory is the working directory. -/
structure Rooted (fs : FileSystem) (path : Path) (place : Location) : Prop where
  leads : ∀ names, names ≠ [] → (∀ name ∈ names, IsName name) →
    ∃ before, (path.join (.ofNames names)).pieces = before ++ names
    ∧ fs.Leads .find linkLimit (startOf (path.join (.ofNames names)) fs.workingDirectory) before place
  isDirectory : fs.node? place = some .directory

/-- Names behind the path lead on from a directory, and from there down along no links. -/
structure Straight (fs : FileSystem) (path : Path) (place : Location) (names : List String) : Prop where
  rooted : Rooted fs path place
  isName : ∀ name ∈ names, IsName name
  unlinked : ∀ below target, below ≠ [] → below <+: names → fs.node? (place ++ below) ≠ some (.link target)

variable {fs fs' fs'' : FileSystem} {places : Location → Prop} {purpose : Purpose} {location place : Location}
  {path : Path} {before names : List String} {node : Node} {bytes : List UInt8}

namespace Kept

theorem refl (fs : FileSystem) : Kept places fs fs where
  workingDirectory := rfl
  directories _ hdirectory := hdirectory
  links _ _ := Iff.rfl
  files _ _ _ hfile := hfile

theorem trans (hfirst : Kept places fs fs') (hsecond : Kept places fs' fs'') : Kept places fs fs'' where
  workingDirectory := hsecond.workingDirectory.trans hfirst.workingDirectory
  directories location hdirectory := hsecond.directories location (hfirst.directories location hdirectory)
  links location target := (hsecond.links location target).trans (hfirst.links location target)
  files location bytes hplace hfile := hsecond.files location bytes hplace (hfirst.files location bytes hplace hfile)

/-! ### Single changes -/

theorem put (hlocation : location ≠ []) (hplace : places location) (hdirectory : fs.node? location ≠ some .directory)
    (hlink : ∀ target, fs.node? location ≠ some (.link target)) (bytes : List UInt8) :
    Kept places fs (fs.put location (.file bytes)) where
  workingDirectory := rfl
  directories other hother := by
    rw [node?_put hlocation, if_neg, hother]
    rintro rfl
    exact hdirectory hother
  links other target := by
    rw [node?_put hlocation]
    split
    case isTrue heq =>
      subst heq
      exact ⟨nofun, fun hold => absurd hold (hlink target)⟩
    case isFalse => exact Iff.rfl
  files other bytes' hother hfile := by
    rw [node?_put hlocation, if_neg, hfile]
    rintro rfl
    exact hother hplace

theorem erase (hlocation : location ≠ []) (hplace : places location) (hfile : fs.node? location = some (.file bytes)) :
    Kept places fs (fs.erase location) where
  workingDirectory := rfl
  directories other hother := by
    rw [node?_erase hlocation, if_neg, hother]
    rintro rfl
    rw [hfile] at hother
    cases hother
  links other target := by
    rw [node?_erase hlocation]
    split
    case isTrue heq =>
      subst heq
      rw [hfile]
      exact ⟨nofun, nofun⟩
    case isFalse => exact Iff.rfl
  files other bytes' hother hold := by
    rw [node?_erase hlocation, if_neg, hold]
    rintro rfl
    exact hother hplace

theorem putDirectory (hnone : fs.node? location = none) : Kept places fs (fs.put location .directory) := by
  have hlocation : location ≠ [] := by
    rintro rfl
    rw [node?_root] at hnone
    cases hnone
  have hother : ∀ {other node}, fs.node? other = some node → location ≠ other := by
    rintro other node hnode rfl
    rw [hnone] at hnode
    cases hnode
  constructor
  · rfl
  · intro other hdirectory
    rw [node?_put hlocation, if_neg (hother hdirectory), hdirectory]
  · intro other target
    rw [node?_put hlocation]
    split
    case isTrue heq =>
      subst heq
      rw [hnone]
      exact ⟨nofun, nofun⟩
    case isFalse => exact Iff.rfl
  · intro other bytes _ hfile
    rw [node?_put hlocation, if_neg (hother hfile), hfile]

end Kept

/-! ### Resolved paths -/

theorem checkPath_nonempty (hcheck : checkPath path = .ok ()) : path.text ≠ "" := by
  intro hempty
  rw [checkPath, checkNonempty, if_pos hempty] at hcheck
  cases hcheck

theorem locate_eq_ok : fs.locate purpose path = .ok location
    ↔ checkPath path = .ok () ∧ fs.Leads purpose linkLimit (startOf path fs.workingDirectory) path.pieces location := by
  rw [locate, except_bind_eq_ok, ← walk_eq_ok]
  exact ⟨fun ⟨⟨⟩, hcheck, hwalk⟩ => ⟨hcheck, hwalk⟩, fun ⟨hcheck, hwalk⟩ => ⟨⟨⟩, hcheck, hwalk⟩⟩

theorem resolve_eq_ok : fs.resolve path = .ok (place, node)
    ↔ fs.locate .find path = .ok place ∧ fs.node? place = some node := by
  rw [resolve, except_bind_eq_ok]
  constructor
  · rintro ⟨found, hlocate, hnode⟩
    rw [nodeAt] at hnode
    split at hnode
    case h_1 hfound =>
      cases hnode
      exact ⟨hlocate, hfound⟩
    case h_2 => cases hnode
  · rintro ⟨hlocate, hnode⟩
    refine ⟨place, hlocate, ?_⟩
    rw [nodeAt, hnode]

theorem read_eq_ok : fs.read path = .ok bytes ↔ ∃ location, fs.resolve path = .ok (location, .file bytes) := by
  rw [read, except_bind_eq_ok]
  constructor
  · rintro ⟨⟨location, node⟩, hresolve, hread⟩
    cases node <;> cases hread
    exact ⟨location, hresolve⟩
  · rintro ⟨location, hresolve⟩
    exact ⟨(location, .file bytes), hresolve, rfl⟩

/-! ### Names behind a path -/

theorem Rooted.of_resolve (hresolve : fs.resolve path = .ok (place, .directory)) : Rooted fs path place := by
  obtain ⟨hlocate, hdirectory⟩ := resolve_eq_ok.mp hresolve
  obtain ⟨hcheck, hleads⟩ := locate_eq_ok.mp hlocate
  have hpath := checkPath_nonempty hcheck
  refine ⟨fun names hne hnames => ?_, hdirectory⟩
  obtain ⟨before, hpieces, hbefore⟩ := pieces_join hne hnames hpath
  refine ⟨before, hpieces, ?_⟩
  rw [startOf, isAbsolute_join hne hnames hpath]
  rcases hbefore with hsame | hseparator
  · rw [← hsame]
    exact hleads
  · rw [hseparator] at hleads
    obtain ⟨middle, rest, hfirst, hlast⟩ := hleads.split
    rw [hlast.of_separator]
    exact hfirst

theorem Rooted.of_empty (hpath : path.text = "") (hdirectory : fs.node? fs.workingDirectory = some .directory) :
    Rooted fs path fs.workingDirectory := by
  refine ⟨fun names hne hnames => ⟨[], ?_, ?_⟩, hdirectory⟩
  · rw [join_of_empty hpath hne hnames]
    exact pieces_ofNames_eq hne hnames
  · rw [join_of_empty hpath hne hnames, startOf, isAbsolute_ofNames hne hnames]
    exact .done

theorem Rooted.kept (hrooted : Rooted fs path place) (hkept : Kept places fs fs') : Rooted fs' path place := by
  refine ⟨fun names hne hnames => ?_, hkept.directories place hrooted.isDirectory⟩
  obtain ⟨before, hpieces, hleads⟩ := hrooted.leads names hne hnames
  rw [hkept.workingDirectory]
  exact ⟨before, hpieces, hleads.kept hkept.directories hkept.links⟩

/-! ### Entries -/

/-- The entry that a path is about: a name, in the directory that the pieces before it lead to. Separators may follow the name. -/
structure EntryAt (fs : FileSystem) (path : Path) (before : List String) (name : String)
    (directory : Location) : Prop where
  checked : checkPath path = .ok ()
  pieces : ∃ blanks, path.pieces = before ++ name :: blanks ∧ ∀ blank ∈ blanks, blank = ""
  isName : IsName name
  short : name.utf8ByteSize ≤ nameLimit
  leads : fs.Leads .find linkLimit (startOf path fs.workingDirectory) before directory
  isDirectory : fs.node? directory = some .directory

/-- Once the blank pieces at its end are dropped, a path ends with a piece that is neither blank nor holds a separator. -/
theorem pieces_of_dropWhile {name : String} {before : List String}
    (hpieces : path.pieces.reverse.dropWhile (· == "") = name :: before) :
    ∃ blanks, path.pieces = before.reverse ++ name :: blanks ∧ (∀ blank ∈ blanks, blank = "")
      ∧ name ≠ "" ∧ '/' ∉ name.toList := by
  have hsplit : path.pieces = before.reverse ++ name :: (path.pieces.reverse.takeWhile (· == "")).reverse := by
    rw [List.append_cons, ← List.reverse_cons, ← List.reverse_append, ← hpieces, List.takeWhile_append_dropWhile,
      List.reverse_reverse]
  refine ⟨_, hsplit, fun blank hblank => ?_, ?_, free_of_mem_pieces (?_ : name ∈ path.pieces)⟩
  · simpa using List.mem_takeWhile_imp (List.mem_reverse.mp hblank)
  · have hhead := List.head?_dropWhile_not (· == "") path.pieces.reverse
    rw [hpieces] at hhead
    simpa using hhead
  · rw [hsplit]
    exact List.mem_append_right _ List.mem_cons_self

theorem of_entry {noEntry : OsError} {found : Entry} (hentry : fs.entry path noEntry = .ok found) :
    ∃ before name directory, EntryAt fs path before name directory ∧ found.location = directory ++ [name] := by
  obtain ⟨⟨⟩, hchecked, hentry⟩ := except_bind_eq_ok.mp hentry
  dsimp only at hentry
  split at hentry
  case h_1 => cases hentry
  case h_2 name before hpieces =>
    obtain ⟨directory, hwalk, hentry⟩ := except_bind_eq_ok.mp hentry
    obtain ⟨⟨⟩, hentered, hentry⟩ := except_bind_eq_ok.mp hentry
    obtain ⟨blanks, hsplit, hblanks, hnonempty, hfree⟩ := pieces_of_dropWhile hpieces
    split at hentry
    case isTrue => cases hentry
    case isFalse hdots =>
      obtain ⟨location, hchild, hfound⟩ := except_bind_eq_ok.mp hentry
      cases hfound
      obtain ⟨hshort, rfl⟩ := child_eq_ok.mp hchild
      obtain ⟨hhere, hup⟩ := not_or.mp hdots
      refine ⟨before.reverse, name, directory, ?_, rfl⟩
      exact ⟨hchecked, ⟨blanks, hsplit, hblanks⟩, ⟨hnonempty, hhere, hup, hfree⟩, hshort, leads_of_walk hwalk,
        enter_eq_ok.mp hentered⟩

/-- An entry stays where it is as long as directories and links stay. -/
theorem EntryAt.kept {name : String} {directory : Location} (hentry : EntryAt fs path before name directory)
    (hkept : Kept places fs fs') : EntryAt fs' path before name directory where
  checked := hentry.checked
  pieces := hentry.pieces
  isName := hentry.isName
  short := hentry.short
  leads := by
    rw [hkept.workingDirectory]
    exact hentry.leads.kept hkept.directories hkept.links
  isDirectory := hkept.directories directory hentry.isDirectory

theorem EntryAt.of_pieces {first : List String} {name last : String} {directory : Location}
    (hentry : EntryAt fs path before name directory) (hpieces : path.pieces = first ++ [last]) (hlast : last ≠ "") :
    first = before ∧ last = name := by
  obtain ⟨blanks, hsplit, hblanks⟩ := hentry.pieces
  rw [hpieces] at hsplit
  rcases List.eq_nil_or_concat blanks with rfl | ⟨init, blank, rfl⟩
  · obtain ⟨rfl, hname⟩ := List.append_inj' hsplit rfl
    exact ⟨rfl, List.singleton_inj.mp hname⟩
  · rw [List.concat_eq_append, ← List.cons_append, ← List.append_assoc] at hsplit
    obtain ⟨-, hsame⟩ := List.append_inj' hsplit rfl
    refine absurd ?_ hlast
    rw [List.singleton_inj.mp hsame]
    exact hblanks blank (by rw [List.concat_eq_append]; exact List.mem_concat_self)

/-! ### Operations that succeed -/

theorem of_write (hwrite : fs.write path bytes = .ok fs') :
    ∃ location, fs.locate .create path = .ok location ∧ fs.node? location ≠ some .directory
      ∧ fs' = fs.put location (.file bytes) := by
  obtain ⟨location, hlocate, hwrite⟩ := except_bind_eq_ok.mp hwrite
  refine ⟨location, hlocate, ?_⟩
  split at hwrite
  case h_1 => cases hwrite
  case h_2 => cases hwrite
  case h_3 hfile =>
    cases hwrite
    exact ⟨by rw [hfile]; nofun, rfl⟩
  case h_4 hnone =>
    cases hwrite
    exact ⟨by rw [hnone]; nofun, rfl⟩

theorem of_makeDirectory (hmake : fs.makeDirectory path = .ok fs') :
    ∃ before name directory, EntryAt fs path before name directory ∧ fs.node? (directory ++ [name]) = none
      ∧ fs' = fs.put (directory ++ [name]) .directory := by
  obtain ⟨found, hfound, hmake⟩ := except_bind_eq_ok.mp hmake
  obtain ⟨before, name, directory, hentry, hlocation⟩ := of_entry hfound
  rw [hlocation] at hmake
  split at hmake
  case h_1 => cases hmake
  case h_2 hnone =>
    cases hmake
    exact ⟨before, name, directory, hentry, hnone, rfl⟩

theorem of_remove (hremove : fs.remove path = .ok fs') :
    ∃ before name directory node, EntryAt fs path before name directory ∧ fs.node? (directory ++ [name]) = some node
      ∧ node ≠ .directory ∧ fs' = fs.erase (directory ++ [name]) := by
  obtain ⟨found, hfound, hremove⟩ := except_bind_eq_ok.mp hremove
  obtain ⟨before, name, directory, hentry, hlocation⟩ := of_entry hfound
  rw [hlocation] at hremove
  split at hremove
  case h_1 => cases hremove
  case h_2 => cases hremove
  case h_3 node hdirectory hnode =>
    split at hremove
    case isTrue => cases hremove
    case isFalse =>
      cases hremove
      exact ⟨before, name, directory, node, hentry, hnode, hdirectory, rfl⟩

theorem of_rename {target : Path} (hrename : fs.rename path target = .ok fs') :
    ∃ before name directory before' name' directory' node, EntryAt fs path before name directory
      ∧ EntryAt fs target before' name' directory' ∧ fs.node? (directory ++ [name]) = some node ∧ node ≠ .directory
      ∧ fs.node? (directory' ++ [name']) ≠ some .directory
      ∧ fs' = (fs.erase (directory ++ [name])).put (directory' ++ [name']) node := by
  obtain ⟨found, hfound, hrename⟩ := except_bind_eq_ok.mp hrename
  obtain ⟨found', hfound', hrename⟩ := except_bind_eq_ok.mp hrename
  obtain ⟨before, name, directory, hentry, hlocation⟩ := of_entry hfound
  obtain ⟨before', name', directory', hentry', hlocation'⟩ := of_entry hfound'
  rw [hlocation, hlocation'] at hrename
  split at hrename
  case h_1 => cases hrename
  case h_2 => cases hrename
  case h_3 node hdirectory hnode =>
    cases hends : found.separatorAtEnd || found'.separatorAtEnd with
    | true =>
      rw [hends] at hrename
      cases hrename
    | false =>
      cases hfree : fs.isDirectoryAt (directory' ++ [name']) with
      | true =>
        rw [hends, hfree] at hrename
        cases hrename
      | false =>
        rw [hends, hfree] at hrename
        cases hrename
        refine ⟨before, name, directory, before', name', directory', node, hentry, hentry', hnode, hdirectory, ?_, rfl⟩
        simpa [isDirectoryAt] using hfree

/-! ### Below a directory -/

namespace Straight

theorem kept (hstraight : Straight fs path place names) (hkept : Kept places fs fs') :
    Straight fs' path place names where
  rooted := hstraight.rooted.kept hkept
  isName := hstraight.isName
  unlinked below target hbelow hwithin hlink :=
    hstraight.unlinked below target hbelow hwithin ((hkept.links _ _).mp hlink)

variable (hstraight : Straight fs path place names)

include hstraight

theorem init {names' : List String} (hwithin : names' <+: names) : Straight fs path place names' where
  rooted := hstraight.rooted
  isName name hname := hstraight.isName name (hwithin.subset hname)
  unlinked below target hbelow hinit := hstraight.unlinked below target hbelow (hinit.trans hwithin)

variable (hne : names ≠ [])

include hne

theorem leads_join (hlocate : fs.locate purpose (path.join (.ofNames names)) = .ok location) :
    ∃ rest, fs.Leads purpose rest place names location := by
  obtain ⟨before, hpieces, hbefore⟩ := hstraight.rooted.leads names hne hstraight.isName
  obtain ⟨-, hleads⟩ := locate_eq_ok.mp hlocate
  rw [hpieces] at hleads
  exact hbefore.after hleads

theorem locate_join (hlocate : fs.locate purpose (path.join (.ofNames names)) = .ok location) :
    location = place ++ names := by
  obtain ⟨rest, hleads⟩ := hstraight.leads_join hne hlocate
  exact hleads.place_eq hstraight.isName hstraight.unlinked

theorem entry_eq {first : List String} {name : String} {directory : Location}
    (hentry : EntryAt fs (path.join (.ofNames names)) first name directory) : directory ++ [name] = place ++ names := by
  obtain ⟨before, hpieces, hbefore⟩ := hstraight.rooted.leads names hne hstraight.isName
  obtain ⟨init, last, rfl⟩ := (List.eq_nil_or_concat names).resolve_left hne
  rw [List.concat_eq_append] at *
  have hlast := hstraight.isName last List.mem_concat_self
  have hinit := hstraight.init (List.prefix_append init [last])
  rw [← List.append_assoc] at hpieces
  obtain ⟨rfl, rfl⟩ := hentry.of_pieces hpieces hlast.ne_empty
  obtain ⟨rest, hleads⟩ := hbefore.after hentry.leads
  rw [hleads.place_eq hinit.isName hinit.unlinked, List.append_assoc]

theorem not_link (target : Path) : fs.node? (place ++ names) ≠ some (.link target) :=
  hstraight.unlinked names target hne List.prefix_rfl

theorem write_kept (hplace : places (place ++ names))
    (hwrite : fs.write (path.join (.ofNames names)) bytes = .ok fs') : Kept places fs fs' := by
  obtain ⟨location, hlocate, hdirectory, rfl⟩ := of_write hwrite
  obtain rfl := hstraight.locate_join hne hlocate
  exact .put (List.append_ne_nil_of_right_ne_nil _ hne) hplace hdirectory (hstraight.not_link hne) bytes

theorem remove_kept (hplace : places (place ++ names))
    (hremove : fs.remove (path.join (.ofNames names)) = .ok fs') : Kept places fs fs' := by
  obtain ⟨first, name, directory, node, hentry, hnode, hdirectory, rfl⟩ := of_remove hremove
  rw [hstraight.entry_eq hne hentry] at hnode ⊢
  cases node with
  | directory => exact absurd rfl hdirectory
  | link target => exact absurd hnode (hstraight.not_link hne target)
  | file bytes => exact .erase (List.append_ne_nil_of_right_ne_nil _ hne) hplace hnode

theorem rename_kept {others : List String} (hothers : Straight fs path place others) (hneOthers : others ≠ [])
    (hplace : places (place ++ names)) (hplaceOthers : places (place ++ others))
    (hrename : fs.rename (path.join (.ofNames names)) (path.join (.ofNames others)) = .ok fs') :
    Kept places fs fs' := by
  obtain ⟨_, _, _, _, _, _, node, hentry, hentry', hnode, hdirectory, hfree, rfl⟩ := of_rename hrename
  rw [hstraight.entry_eq hne hentry] at hnode ⊢
  rw [hothers.entry_eq hneOthers hentry'] at hfree ⊢
  cases node with
  | directory => exact absurd rfl hdirectory
  | link target => exact absurd hnode (hstraight.not_link hne target)
  | file bytes =>
    have hlocation : place ++ names ≠ [] := List.append_ne_nil_of_right_ne_nil _ hne
    have herased : Kept places fs (fs.erase (place ++ names)) := .erase hlocation hplace hnode
    refine herased.trans (.put (List.append_ne_nil_of_right_ne_nil _ hneOthers) hplaceOthers ?_ ?_ bytes)
    · rw [node?_erase hlocation]
      split
      case isTrue => nofun
      case isFalse => exact hfree
    · intro target hlink
      exact hothers.not_link hneOthers target ((herased.links _ target).mp hlink)

end Straight

theorem makeDirectory_kept (hmake : fs.makeDirectory path = .ok fs') : Kept places fs fs' := by
  obtain ⟨_, _, _, -, hnone, rfl⟩ := of_makeDirectory hmake
  exact .putDirectory hnone

end Retoken.FileSystem
