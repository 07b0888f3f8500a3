import Retoken.Proofs.FileSystem.Replacing
import Retoken.Proofs.FileSystem.Vacancy

/-!
# What a path shows while its file is replaced

A path is steady if the steps of an atomic write do not lead it astray: it does not go up from directories that are missing, it does not lead to its own temporary file, and its own entry is not on the way to it. Then it shows what it did while the temporary file is written and removed, and the new bytes once that file has been moved.
-/

namespace Retoken.FileSystem

open Retoken.Path

variable {fs fs' fs'' now : FileSystem} {purpose : Purpose} {location place directory : Location} {path : Path}
  {name last : String} {before : List String} {bytes content : List UInt8}

/-- A path that the steps of an atomic write do not lead astray. -/
structure Steady (fs : FileSystem) (path : Path) : Prop where
  grounded : fs.Grounded path
  /-- The path does not lead to where its temporary file goes. -/
  apart : ∀ location, fs.locate .find path = .ok location → fs.locate .find (path.withSuffix ".tmp") ≠ .ok location
  /-- A link that the path names is not itself on the way there: the path names the same entry without it. -/
  detached : ∀ found target, fs.entry path .busy = .ok found → fs.node? found.location = some (.link target) →
    (fs.erase found.location).entry path .busy = .ok found

theorem Vacant.steady (hvacant : fs.Vacant path place) (hgrounded : fs.Grounded path) : fs.Steady path where
  grounded := hgrounded
  apart location hlocate htemporary := by
    obtain ⟨first, name, hpieces, rfl⟩ := hvacant.of_locate hlocate
    obtain ⟨first', name', hpieces', hsame⟩ := hvacant.temporary.of_locate htemporary
    rw [pieces_withSuffix (by decide) hpieces] at hpieces'
    obtain ⟨-, hname⟩ := List.append_inj' hpieces' rfl
    obtain ⟨-, hname'⟩ := List.append_inj' hsame rfl
    have hlonger := congrArg (fun name => name.toList.length)
      ((List.singleton_inj.mp hname).trans (List.singleton_inj.mp hname').symm)
    simp at hlonger
  detached found target hentry hlink := by
    rw [hvacant.node?_entry hentry] at hlink
    cases hlink

/-! ### Differences at one location -/

def IsPlain (node? : Option Node) : Prop :=
  node? = none ∨ ∃ bytes, node? = some (.file bytes)

theorem IsPlain.ne_directory {node? : Option Node} (hplain : IsPlain node?) : node? ≠ some .directory := by
  rcases hplain with rfl | ⟨bytes, rfl⟩ <;> nofun

theorem IsPlain.ne_link {node? : Option Node} (hplain : IsPlain node?) (target : Path) :
    node? ≠ some (.link target) := by
  rcases hplain with rfl | ⟨bytes, rfl⟩ <;> nofun

theorem exists_link_of_not_plain {node? : Option Node} (hdirectory : node? ≠ some .directory)
    (hplain : ¬ IsPlain node?) :
    ∃ target, node? = some (.link target) := by
  cases node? with
  | none => exact absurd (.inl rfl) hplain
  | some node =>
    cases node with
    | directory => exact absurd rfl hdirectory
    | file bytes => exact absurd (.inr ⟨bytes, rfl⟩) hplain
    | link target => exact ⟨target, rfl⟩

structure AlikeBut (location : Location) (fs fs' : FileSystem) : Prop where
  workingDirectory : fs'.workingDirectory = fs.workingDirectory
  others : ∀ other, other ≠ location → fs'.node? other = fs.node? other
  plain : IsPlain (fs.node? location)
  plain' : IsPlain (fs'.node? location)

namespace AlikeBut

theorem symm (halike : AlikeBut location fs fs') : AlikeBut location fs' fs where
  workingDirectory := halike.workingDirectory.symm
  others other hother := (halike.others other hother).symm
  plain := halike.plain'
  plain' := halike.plain

theorem trans (hfirst : AlikeBut location fs fs') (hsecond : AlikeBut location fs' fs'') :
    AlikeBut location fs fs'' where
  workingDirectory := hsecond.workingDirectory.trans hfirst.workingDirectory
  others other hother := (hsecond.others other hother).trans (hfirst.others other hother)
  plain := hfirst.plain
  plain' := hsecond.plain'

theorem put (hlocation : location ≠ []) (hplain : IsPlain (fs.node? location)) (bytes : List UInt8) :
    AlikeBut location fs (fs.put location (.file bytes)) where
  workingDirectory := rfl
  others other hother := by rw [node?_put hlocation, if_neg (Ne.symm hother)]
  plain := hplain
  plain' := by
    rw [node?_put hlocation, if_pos rfl]
    exact .inr ⟨bytes, rfl⟩

theorem erase (hlocation : location ≠ []) (hplain : IsPlain (fs.node? location)) :
    AlikeBut location fs (fs.erase location) where
  workingDirectory := rfl
  others other hother := by rw [node?_erase hlocation, if_neg (Ne.symm hother)]
  plain := hplain
  plain' := by
    rw [node?_erase hlocation, if_pos rfl]
    exact .inl rfl

variable (halike : AlikeBut location fs fs')

include halike

theorem kept : Kept (· = location) fs fs' where
  workingDirectory := halike.workingDirectory
  directories other hdirectory := by
    by_cases hother : other = location
    · rw [hother] at hdirectory
      exact absurd hdirectory halike.plain.ne_directory
    · rw [halike.others other hother, hdirectory]
  links other target := by
    by_cases hother : other = location
    · rw [hother]
      exact iff_of_false (halike.plain'.ne_link target) (halike.plain.ne_link target)
    · rw [halike.others other hother]
  files other bytes hother hfile := by rw [halike.others other hother, hfile]

theorem locate_of_locate (hlocate : fs.locate purpose path = .ok place) : fs'.locate purpose path = .ok place := by
  obtain ⟨hcheck, hleads⟩ := locate_eq_ok.mp hlocate
  rw [← halike.workingDirectory] at hleads
  exact locate_eq_ok.mpr ⟨hcheck, hleads.kept halike.kept.directories halike.kept.links⟩

theorem resolve_of_resolve {found : Location × Node} (hpath : fs.locate .find path ≠ .ok location)
    (hresolve : fs.resolve path = .ok found) : fs'.resolve path = .ok found := by
  obtain ⟨hlocate, hnode⟩ := resolve_eq_ok.mp hresolve
  have hother : found.1 ≠ location := fun hsame => hpath (hsame ▸ hlocate)
  exact resolve_eq_ok.mpr ⟨halike.locate_of_locate hlocate, (halike.others _ hother).trans hnode⟩

/-- A path leads to the same as long as it does not lead to the difference. -/
theorem resolve_eq (hpath : fs.locate .find path ≠ .ok location) :
    (fs'.resolve path).toOption = (fs.resolve path).toOption := by
  have hpath' : fs'.locate .find path ≠ .ok location := fun hlocate => hpath (halike.symm.locate_of_locate hlocate)
  cases hresolve : fs.resolve path with
  | ok found => rw [halike.resolve_of_resolve hpath hresolve]
  | error error =>
    cases hresolve' : fs'.resolve path with
    | error error' => rfl
    | ok found =>
      rw [halike.symm.resolve_of_resolve hpath' hresolve'] at hresolve
      cases hresolve

end AlikeBut

/-! ### The temporary file -/

/-- A last name leads to its entry, unless that is a link. -/
theorem Leads.of_last {limit : Nat} (hleads : fs.Leads purpose limit directory [name] place) (hname : IsName name) :
    fs.node? directory = some .directory ∧ name.utf8ByteSize ≤ nameLimit
      ∧ (place = directory ++ [name] ∨ ∃ target, fs.node? (directory ++ [name]) = some (.link target)) := by
  obtain ⟨hdirectory, hshort, hrest | hlink⟩ := hleads.cases_name hname
  · cases hrest
    exact ⟨hdirectory, hshort, .inl rfl⟩
  · exact ⟨hdirectory, hshort, .inr hlink⟩

structure Spare (fs : FileSystem) (path : Path) (location : Location) : Prop where
  entry : ∃ before last directory, path.pieces = before ++ [last]
    ∧ EntryAt fs (path.withSuffix ".tmp") before (last ++ ".tmp") directory ∧ location = directory ++ [last ++ ".tmp"]
  plain : IsPlain (fs.node? location)

namespace Spare

theorem ne_nil (hspare : fs.Spare path location) : location ≠ [] := by
  obtain ⟨_, _, _, -, -, rfl⟩ := hspare.entry
  exact List.append_ne_nil_of_right_ne_nil _ (List.cons_ne_nil _ _)

theorem entry_eq (hspare : fs.Spare path location)
    (hentry : EntryAt fs (path.withSuffix ".tmp") before name directory) :
    directory ++ [name] = location := by
  obtain ⟨first, last, place, hpieces, hat, rfl⟩ := hspare.entry
  obtain ⟨rfl, rfl⟩ := hentry.of_pieces (pieces_withSuffix (by decide) hpieces) hat.isName.ne_empty
  rw [hentry.leads.unique hat.leads]

theorem unique (hspare : fs.Spare path location) (hother : fs.Spare path place) : place = location := by
  obtain ⟨_, _, _, -, hat, rfl⟩ := hother.entry
  exact hspare.entry_eq hat

theorem alike (hspare : fs.Spare path location) (halike : AlikeBut location fs fs') : fs'.Spare path location where
  entry := by
    obtain ⟨before, last, directory, hpieces, hat, hlocation⟩ := hspare.entry
    exact ⟨before, last, directory, hpieces, hat.kept halike.kept, hlocation⟩
  plain := halike.plain'

theorem named?_eq (hspare : fs.Spare path location) : fs.named? (path.withSuffix ".tmp") = fs.node? location := by
  obtain ⟨before, last, directory, hpieces, hat, rfl⟩ := hspare.entry
  exact named?_of_entryAt hat (pieces_withSuffix (by decide) hpieces)

theorem locate (hspare : fs.Spare path location) : fs.locate .find (path.withSuffix ".tmp") = .ok location := by
  have hplain := hspare.plain
  obtain ⟨before, last, directory, hpieces, hat, rfl⟩ := hspare.entry
  exact hat.locate (pieces_withSuffix (by decide) hpieces) rfl (fun _ hdirectory => hdirectory)
    (fun _ _ => Iff.rfl) hplain.ne_link

end Spare

section

variable (hbeside : ∀ target, fs.named? (path.withSuffix ".tmp") ≠ some (.link target))

include hbeside

theorem spare_of_entryAt (hpieces : path.pieces = before ++ [last])
    (hentry : EntryAt fs (path.withSuffix ".tmp") before (last ++ ".tmp") directory)
    (hdirectory : fs.node? (directory ++ [last ++ ".tmp"]) ≠ some .directory) :
    fs.Spare path (directory ++ [last ++ ".tmp"]) := by
  refine ⟨⟨before, last, directory, hpieces, hentry, rfl⟩, by_contra fun hplain => ?_⟩
  rw [named?_of_entryAt hentry (pieces_withSuffix (by decide) hpieces)] at hbeside
  obtain ⟨target, hlink⟩ := exists_link_of_not_plain hdirectory hplain
  exact hbeside target hlink

theorem spare_of_write (hwrite : fs.write (path.withSuffix ".tmp") content = .ok fs') :
    ∃ location, fs.Spare path location ∧ fs' = fs.put location (.file content) := by
  obtain ⟨found, hlocate, hdirectory, rfl⟩ := of_write hwrite
  obtain ⟨before, last, hpieces, htemporary, hname⟩ := exists_temporary path
  obtain ⟨hcheck, hleads⟩ := locate_eq_ok.mp hlocate
  rw [htemporary] at hleads
  obtain ⟨directory, rest, hbefore, hlast⟩ := hleads.split
  obtain ⟨hplace, hshort, hend⟩ := hlast.of_last hname
  have hentry : EntryAt fs (path.withSuffix ".tmp") before (last ++ ".tmp") directory :=
    ⟨hcheck, ⟨[], htemporary, fun _ hblank => absurd hblank List.not_mem_nil⟩, hname, hshort, hbefore, hplace⟩
  obtain rfl : found = directory ++ [last ++ ".tmp"] := by
    rcases hend with hsame | ⟨target, hlink⟩
    · exact hsame
    · rw [named?_of_entryAt hentry htemporary] at hbeside
      exact absurd hlink (hbeside target)
  exact ⟨_, spare_of_entryAt hbeside hpieces hentry hdirectory, rfl⟩

theorem spare_of_remove (hremove : fs.remove (path.withSuffix ".tmp") = .ok fs') :
    ∃ location, fs.Spare path location ∧ fs' = fs.erase location := by
  obtain ⟨first, name, directory, node, hentry, hnode, hdirectory, rfl⟩ := of_remove hremove
  obtain ⟨before, last, hpieces, htemporary, hname⟩ := exists_temporary path
  obtain ⟨rfl, rfl⟩ := hentry.of_pieces htemporary hname.ne_empty
  refine ⟨_, spare_of_entryAt hbeside hpieces hentry ?_, rfl⟩
  rw [hnode]
  exact fun hsame => hdirectory (Option.some.inj hsame)

end

theorem named?_of_remove_error {error : OsError} (hremove : fs.remove (path.withSuffix ".tmp") = .error error) :
    fs.named? (path.withSuffix ".tmp") ≠ some (.file content) := by
  intro hnamed
  obtain ⟨found, hfound, hnode⟩ := named?_eq_some.mp hnamed
  obtain ⟨first, name, directory, hentry, hlocation⟩ := of_entry hfound
  obtain ⟨before, last, -, htemporary, hname⟩ := exists_temporary path
  obtain ⟨rfl, rfl⟩ := hentry.of_pieces htemporary hname.ne_empty
  rw [hlocation] at hnode
  rw [remove, entry_of_entryAt hentry htemporary] at hremove
  dsimp only [bind, Except.bind] at hremove
  rw [hnode] at hremove
  cases hremove

theorem last_of_rename {source : Path} (hrename : fs.rename source path = .ok fs')
    (hpieces : path.pieces = before ++ [last]) :
    last ≠ "" := by
  rintro rfl
  obtain ⟨found, -, hrename⟩ := except_bind_eq_ok.mp hrename
  obtain ⟨found', hfound', hrename⟩ := except_bind_eq_ok.mp hrename
  have hends : found'.separatorAtEnd = true := by
    obtain ⟨⟨⟩, -, hfound'⟩ := except_bind_eq_ok.mp hfound'
    dsimp only at hfound'
    split at hfound'
    case h_1 => cases hfound'
    case h_2 =>
      obtain ⟨_, -, hfound'⟩ := except_bind_eq_ok.mp hfound'
      obtain ⟨_, -, hfound'⟩ := except_bind_eq_ok.mp hfound'
      split at hfound'
      case isTrue => cases hfound'
      case isFalse =>
        obtain ⟨_, -, hfound'⟩ := except_bind_eq_ok.mp hfound'
        cases hfound'
        rw [hpieces, List.reverse_append]
        rfl
  rw [hends, Bool.or_true] at hrename
  split at hrename <;> cases hrename

/-- What is lost and what appears when the temporary file is moved is not on the way of any path. -/
theorem kept_moved {beside : Location} (hlocation : location ≠ []) (hplain : IsPlain (fs.node? beside))
    (hnodes : ∀ other, fs'.node? other
      = if location = other then some (.file bytes) else if beside = other then none else fs.node? other)
    (hworking : fs'.workingDirectory = fs.workingDirectory) : Kept (fun _ => True) (fs.erase location) fs' where
  workingDirectory := hworking
  directories other hdirectory := by
    rw [node?_erase hlocation] at hdirectory
    split at hdirectory
    case isTrue => cases hdirectory
    case isFalse hother =>
      rw [hnodes, if_neg hother, if_neg, hdirectory]
      rintro rfl
      exact hplain.ne_directory hdirectory
  links other target := by
    rw [hnodes, node?_erase hlocation]
    by_cases hother : location = other
    · rw [if_pos hother, if_pos hother]
      exact ⟨nofun, nofun⟩
    · rw [if_neg hother, if_neg hother]
      by_cases hbeside : beside = other
      · rw [if_pos hbeside, ← hbeside]
        exact iff_of_false nofun (hplain.ne_link target)
      · rw [if_neg hbeside]
  files _ _ hother _ := absurd trivial hother

/-! ### Showing -/

namespace Steady

variable (hsteady : fs.Steady path)

include hsteady

/-- A steady path does not show its temporary file. -/
theorem resolve_eq (hspare : fs.Spare path location) (halike : AlikeBut location fs now) :
    (now.resolve path).toOption = (fs.resolve path).toOption :=
  halike.resolve_eq fun hlocate => hsteady.apart location hlocate hspare.locate

/-- The way to the directory of a steady path is the same without the entry of the path, if that is no directory. -/
theorem entryAt_erased (hentry : EntryAt fs path before name directory) (hpieces : path.pieces = before ++ [name])
    (hdirectory : fs.node? (directory ++ [name]) ≠ some .directory) :
    EntryAt (fs.erase (directory ++ [name])) path before name directory := by
  by_cases hplain : IsPlain (fs.node? (directory ++ [name]))
  · exact hentry.kept (AlikeBut.erase (List.append_ne_nil_of_right_ne_nil _ (List.cons_ne_nil _ _)) hplain).kept
  obtain ⟨target, hlink⟩ := exists_link_of_not_plain hdirectory hplain
  have herased := hsteady.detached _ target (entry_of_entryAt hentry hpieces) hlink
  obtain ⟨before', name', directory', hentry', hlocation⟩ := of_entry herased
  obtain ⟨rfl, rfl⟩ := hentry'.of_pieces hpieces hentry.isName.ne_empty
  obtain ⟨rfl, -⟩ := List.append_inj' hlocation rfl
  exact hentry'

/-- What a steady path shows once its temporary file has been moved there. -/
theorem of_rename (hspare : fs.Spare path location)
    (hrename : (fs.put location (.file bytes)).rename (path.withSuffix ".tmp") path = .ok fs') :
    (∃ place, fs'.resolve path = .ok (place, .file bytes)) ∧ fs'.named? (path.withSuffix ".tmp") = none := by
  have halike := AlikeBut.put hspare.ne_nil hspare.plain bytes
  have hplain := hspare.plain
  have hlocation := hspare.ne_nil
  obtain ⟨_, _, _, before', name', directory', node, hsource, htarget, hnode, -, hfree, rfl⟩ :=
    FileSystem.of_rename hrename
  rw [(hspare.alike halike).entry_eq hsource] at hnode ⊢
  rw [node?_put hlocation, if_pos rfl] at hnode
  cases hnode
  obtain ⟨before, last, directory, hpieces, hat, rfl⟩ := hspare.entry
  obtain ⟨rfl, rfl⟩ := htarget.of_pieces hpieces (last_of_rename hrename hpieces)
  have hentry := htarget.kept halike.symm.kept
  have hleads := hat.leads
  rw [startOf, isAbsolute_temporary, ← startOf] at hleads
  obtain rfl := hleads.unique hentry.leads
  have hplace : directory ++ [last] ≠ [] := List.append_ne_nil_of_right_ne_nil _ (List.cons_ne_nil _ _)
  have hother := temporary_ne hplace
  rw [temporary_concat] at hother
  have hdirectory : fs.node? (directory ++ [last]) ≠ some .directory := by
    rwa [halike.others _ (Ne.symm hother)] at hfree
  have hnodes : ∀ other, (((fs.put _ _).erase _).put _ _).node? other = _ := node?_moved hplace hlocation (.file bytes)
  -- The way to the directory is that without the entry, where the directories and links are those after the move.
  have hkept : Kept (fun _ => True) (fs.erase (directory ++ [last])) _ := kept_moved hplace hplain hnodes rfl
  have hmoved := (hsteady.entryAt_erased hentry hpieces hdirectory).kept hkept
  have hwritten := hnodes (directory ++ [last])
  have hfreed := hnodes (directory ++ [last ++ ".tmp"])
  rw [if_pos rfl] at hwritten
  rw [if_neg (Ne.symm hother), if_pos rfl] at hfreed
  constructor
  · have hlocate := hmoved.locate hpieces rfl (fun _ hthere => hthere) (fun _ _ => Iff.rfl) fun target hlink => by
      rw [hwritten] at hlink
      cases hlink
    exact ⟨_, resolve_eq_ok.mpr ⟨hlocate, hwritten⟩⟩
  · have hway := hmoved.leads
    rw [startOf, ← isAbsolute_temporary, ← startOf] at hway
    rw [named?_of_entryAt ⟨hat.checked, hat.pieces, hat.isName, hat.short, hway, hmoved.isDirectory⟩
      (pieces_withSuffix (by decide) hpieces), hfreed]

end Steady

def Drafted (fs : FileSystem) (path : Path) (now : FileSystem) : Prop :=
  now = fs ∨ ∃ location content, fs.Spare path location ∧ now = fs.put location (.file content)

namespace Drafted

variable (hdrafted : Drafted fs path now)

include hdrafted

theorem resolve_eq (hsteady : fs.Steady path) : (now.resolve path).toOption = (fs.resolve path).toOption := by
  rcases hdrafted with rfl | ⟨location, content, hspare, rfl⟩
  · rfl
  · exact hsteady.resolve_eq hspare (.put hspare.ne_nil hspare.plain content)

variable (hbeside : ∀ target, fs.named? (path.withSuffix ".tmp") ≠ some (.link target))

include hbeside

theorem beside (target : Path) : now.named? (path.withSuffix ".tmp") ≠ some (.link target) := by
  rcases hdrafted with rfl | ⟨location, content, hspare, rfl⟩
  · exact hbeside target
  · have hwritten := hspare.alike (.put hspare.ne_nil hspare.plain content)
    rw [hwritten.named?_eq]
    exact hwritten.plain.ne_link target

/-- What is left once the temporary file has been removed. -/
theorem of_remove (hsteady : fs.Steady path) (hremove : now.remove (path.withSuffix ".tmp") = .ok fs') :
    (fs'.resolve path).toOption = (fs.resolve path).toOption ∧ fs'.named? (path.withSuffix ".tmp") = none := by
  obtain ⟨location, hspare, rfl⟩ := spare_of_remove (hdrafted.beside hbeside) hremove
  have herased := AlikeBut.erase hspare.ne_nil hspare.plain
  constructor
  · rcases hdrafted with rfl | ⟨location', content, hspare', rfl⟩
    · exact hsteady.resolve_eq hspare herased
    · have hwritten := AlikeBut.put hspare'.ne_nil hspare'.plain content
      obtain rfl := (hspare'.alike hwritten).unique hspare
      exact hsteady.resolve_eq hspare' (hwritten.trans herased)
  · rw [(hspare.alike herased).named?_eq, node?_erase hspare.ne_nil, if_pos rfl]

end Drafted

end Retoken.FileSystem
