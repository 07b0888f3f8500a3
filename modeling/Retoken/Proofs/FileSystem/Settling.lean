import Retoken.Proofs.FileSystem.Furnishing
import Retoken.Proofs.FileSystem.Replacing

/-!
# Writes that nothing diverts

A class is put at names below a directory. If no links are on the way down, it is known from the nodes alone whether an atomic write succeeds, and which nodes there are afterwards: the class at its location, nothing at the temporary file beside it, directories on the way down, and everything else as before.
-/

namespace Retoken

open Retoken.FileSystem Retoken.Path

variable {fs fs' : FileSystem} {other above : Location} {nodes : Location → Option Node} {bytes : List UInt8}

/-! ### Temporary files and ways down -/

namespace Path

theorem temporary_append (place : List String) {names : List String} (hne : names ≠ []) :
    temporary (place ++ names) = place ++ temporary names := by
  obtain ⟨init, last, rfl⟩ := (List.eq_nil_or_concat names).resolve_left hne
  rw [List.concat_eq_append, ← List.append_assoc, temporary_concat, temporary_concat, List.append_assoc]

theorem temporary_injective {names others : List String} (hne : names ≠ []) (hneOthers : others ≠ [])
    (hsame : temporary names = temporary others) : names = others := by
  obtain ⟨init, last, rfl⟩ := (List.eq_nil_or_concat names).resolve_left hne
  obtain ⟨init', last', rfl⟩ := (List.eq_nil_or_concat others).resolve_left hneOthers
  simp only [List.concat_eq_append, temporary_concat] at hsame ⊢
  obtain ⟨rfl, hlast⟩ := List.append_inj' hsame rfl
  rw [String.append_left_inj ".tmp" |>.mp (List.singleton_inj.mp hlast)]

end Path

/-- The way down to the temporary file beside a file is free if that file is no link. -/
theorem FileSystem.Straight.temporary {root : Path} {place : Location} {names : List String}
    (hstraight : Straight fs root place names)
    (hne : names ≠ []) (hlink : ∀ target, fs.node? (place ++ Path.temporary names) ≠ some (.link target)) :
    Straight fs root place (Path.temporary names) where
  rooted := hstraight.rooted
  isName := isName_temporary hstraight.isName
  unlinked := by
    intro below target hbelow hwithin
    obtain ⟨init, last, rfl⟩ := (List.eq_nil_or_concat names).resolve_left hne
    rw [List.concat_eq_append] at *
    rw [temporary_concat] at hwithin hlink
    rcases List.prefix_concat_iff.mp hwithin with rfl | hinit
    · exact hlink target
    · exact hstraight.unlinked below target hbelow (hinit.trans (List.prefix_append init [last]))

/-- Where a class is to be put: at names below the directory that a path leads to. -/
structure Address where
  root : Path
  place : Location
  names : List String

namespace Address

def path (address : Address) : Path :=
  address.root.join (ofNames address.names)

def location (address : Address) : Location :=
  address.place ++ address.names

structure Valid (fs : FileSystem) (address : Address) : Prop where
  nonempty : address.names ≠ []
  straight : Straight fs address.root address.place address.names
  beside : Straight fs address.root address.place (temporary address.names)
  grounded : ∀ above, above <+: address.place → fs.node? above = some .directory

structure Ready (fs : FileSystem) (address : Address) : Prop where
  checked : checkPath (address.path.withSuffix ".tmp") = .ok ()
  short : ∀ name ∈ temporary address.names, name.utf8ByteSize ≤ nameLimit
  free : ∀ above, above <+: address.location → above ≠ address.location →
    fs.node? above = none ∨ fs.node? above = some .directory
  target : fs.node? address.location ≠ some .directory
  beside : fs.node? (temporary address.location) ≠ some .directory

variable {address : Address}

namespace Valid

variable (hvalid : address.Valid fs)

include hvalid

theorem exists_concat : ∃ init last, address.names = init ++ [last] := by
  obtain ⟨init, last, hnames⟩ := (List.eq_nil_or_concat address.names).resolve_left hvalid.nonempty
  exact ⟨init, last, hnames.trans (List.concat_eq_append ..)⟩

theorem location_ne_nil : address.location ≠ [] :=
  List.append_ne_nil_of_right_ne_nil _ hvalid.nonempty

theorem temporary_location : temporary address.location = address.place ++ temporary address.names :=
  temporary_append _ hvalid.nonempty

theorem kept {places : Location → Prop} (hkept : Kept places fs fs') : address.Valid fs' where
  nonempty := hvalid.nonempty
  straight := hvalid.straight.kept hkept
  beside := hvalid.beside.kept hkept
  grounded above hwithin := hkept.directories above (hvalid.grounded above hwithin)

/-- What is above a class is above the directory, or it is below that directory and on the way down. -/
theorem above_cases (hwithin : above <+: address.location) :
    fs.node? above = some .directory ∨ ∃ below, below <+: address.names ∧ above = address.place ++ below := by
  rcases List.prefix_or_prefix_of_prefix hwithin (List.prefix_append address.place address.names)
    with habove | ⟨below, rfl⟩
  · exact .inl (hvalid.grounded above habove)
  · exact .inr ⟨below, (List.prefix_append_right_inj address.place).mp hwithin, rfl⟩

end Valid

namespace Ready

theorem checkPath_path (hready : address.Ready fs) (hvalid : address.Valid fs) : checkPath address.path = .ok () := by
  obtain ⟨init, last, hnames⟩ := hvalid.exists_concat
  have hisName := hvalid.straight.isName
  obtain ⟨before, hpieces, -⟩ := hvalid.straight.rooted.leads _ hvalid.nonempty hisName
  rw [hnames] at hisName
  rw [hnames, ← List.append_assoc, ← hnames] at hpieces
  refine checkPath_shorter hready.checked ?_ (text_ne_empty hpieces (hisName last List.mem_concat_self).ne_empty)
  rw [withSuffix, String.toList_append]
  exact List.prefix_append _ _

theorem short_names (hready : address.Ready fs) (hvalid : address.Valid fs) :
    ∀ name ∈ address.names, name.utf8ByteSize ≤ nameLimit := by
  obtain ⟨init, last, hnames⟩ := hvalid.exists_concat
  have hshort := hready.short
  rw [hnames] at hshort ⊢
  rw [temporary_concat] at hshort
  intro name hname
  rcases List.mem_append.mp hname with hinit | hlast
  · exact hshort name (List.mem_append_left _ hinit)
  · have hlong := hshort (last ++ ".tmp") List.mem_concat_self
    rw [String.utf8ByteSize_append] at hlong
    rw [List.mem_singleton.mp hlast]
    omega

theorem free_below {init below : List String} {last : String} (hready : address.Ready fs)
    (hnames : address.names = init ++ [last]) (hbelow : below <+: init) :
    fs.node? (address.place ++ below) = none ∨ fs.node? (address.place ++ below) = some .directory := by
  refine hready.free (address.place ++ below) ?_ fun hsame => ?_
  · rw [Address.location, List.prefix_append_right_inj, hnames]
    exact hbelow.trans (List.prefix_append init [last])
  · have hlength := hbelow.length_le
    rw [List.append_cancel_left hsame, hnames, List.length_append] at hlength
    exact absurd hlength (by simp)

end Ready

def settled (location : Location) (bytes : List UInt8) (nodes : Location → Option Node) (other : Location) :
    Option Node :=
  if other = location then some (.file bytes)
  else if other = temporary location then none
  else if other <+: location then some .directory
  else nodes other

/-- What is left of a write to a class below a directory: the class, and the directories on the way down. -/
theorem settled_of_paved {place : Location} {init : List String} {last : String}
    (hgrounded : ∀ above, above <+: place → nodes above = some .directory) (other : Location) :
    (if place ++ init ++ [last] = other then some (.file bytes)
      else if place ++ init ++ [last ++ ".tmp"] = other then none else paved place init nodes other)
      = settled (place ++ (init ++ [last])) bytes nodes other := by
  simp only [settled, ← List.append_assoc, temporary_concat, eq_comm (a := other)]
  by_cases hwritten : place ++ init ++ [last] = other
  · rw [if_pos hwritten, if_pos hwritten]
  rw [if_neg hwritten, if_neg hwritten]
  by_cases hfreed : place ++ init ++ [last ++ ".tmp"] = other
  · rw [if_pos hfreed, if_pos hfreed]
  rw [if_neg hfreed, if_neg hfreed, paved]
  by_cases hwithin : other <+: place ++ init ++ [last]
  · have hshorter : other <+: place ++ init := (List.prefix_concat_iff.mp hwithin).resolve_left (Ne.symm hwritten)
    rw [if_pos hwithin]
    rcases List.prefix_or_prefix_of_prefix hshorter (List.prefix_append place init) with habove | hbelow
    · rw [hgrounded other habove, ite_self]
    · exact if_pos ⟨hbelow, hshorter⟩
  · rw [if_neg hwithin, if_neg fun hpaved => hwithin (hpaved.2.trans (List.prefix_append _ [last]))]

end Address

namespace Disk

variable {address : Address}

/-! ### Success -/

theorem copyPermissions_of_present {source target : Path} {found : Location × Node}
    (hsource : fs.isPresent source = true)
    (htarget : fs.resolve target = .ok found) : fs.copyPermissions source target = .ok () := by
  cases hthere : fs.resolve source with
  | error error =>
    rw [FileSystem.isPresent, hthere] at hsource
    cases hsource
  | ok there =>
    rw [FileSystem.copyPermissions, hthere, htarget]
    rfl

variable (bytes) in
/-- A file is written beside another one and moved in its place. -/
theorem replaceThrough_of_entryAt {path beside : Path} {before before' : List String} {name name' : String}
    {directory : Location}
    (hbeside : EntryAt fs beside before name directory) (hpieces : beside.pieces = before ++ [name])
    (hpath : EntryAt fs path before' name' directory) (hpieces' : path.pieces = before' ++ [name'])
    (hother : name ≠ name') (hfree : fs.node? (directory ++ [name]) ≠ some .directory)
    (hunlinked : ∀ target, fs.node? (directory ++ [name]) ≠ some (.link target))
    (htarget : fs.node? (directory ++ [name']) ≠ some .directory) :
    (replaceThrough beside path bytes : ExceptT WriteError (StateM FileSystem) Unit).run fs
      = (.ok (), ((fs.put (directory ++ [name]) (.file bytes)).erase (directory ++ [name])).put
        (directory ++ [name']) (.file bytes)) := by
  have hne : directory ++ [name] ≠ [] := List.append_ne_nil_of_right_ne_nil _ (List.cons_ne_nil _ _)
  have hapart : directory ++ [name] ≠ directory ++ [name'] := fun hsame =>
    hother (List.singleton_inj.mp (List.append_cancel_left hsame))
  have hwrite : fs.write beside bytes = .ok (fs.put (directory ++ [name]) (.file bytes)) := by
    refine write_of_locate (locate_eq_ok.mpr ⟨hbeside.checked, ?_⟩) hfree hunlinked
    rw [hpieces]
    exact hbeside.leads.concat hbeside.isDirectory hbeside.isName hbeside.short hunlinked
  have hkept : Kept (fun _ => True) fs (fs.put (directory ++ [name]) (.file bytes)) :=
    .put hne trivial hfree hunlinked bytes
  -- Of the files in between no more is used than their nodes and that they keep what was there.
  generalize hmiddle : fs.put (directory ++ [name]) (.file bytes) = middle at *
  have hnodes : ∀ other, middle.node? other
      = if directory ++ [name] = other then some (.file bytes) else fs.node? other := by
    rw [← hmiddle]
    exact node?_put hne _
  have hwritten : middle.node? (directory ++ [name]) = some (.file bytes) := by rw [hnodes, if_pos rfl]
  have hstill : middle.node? (directory ++ [name']) ≠ some .directory := by
    rw [hnodes, if_neg hapart]
    exact htarget
  have hrename := rename_of_entryAt (hbeside.kept hkept) hpieces (hpath.kept hkept) hpieces' hwritten hstill
  have hfirst : (during .writeTemporary beside (write beside bytes) :
    ExceptT WriteError (StateM FileSystem) Unit).run fs
      = (.ok (), middle) :=
    run_adapt_eq.mpr (run_change_eq.mpr hwrite)
  have hlook : (liftM (isPresent path : StateM FileSystem Bool) :
    ExceptT WriteError (StateM FileSystem) Bool).run middle
      = (.ok (middle.isPresent path), middle) :=
    rfl
  have hlast : (during .replaceFile path (rename beside path) : ExceptT WriteError (StateM FileSystem) Unit).run middle
      = (.ok (), (middle.erase (directory ++ [name])).put (directory ++ [name']) (.file bytes)) :=
    run_adapt_eq.mpr (run_change_eq.mpr hrename)
  rw [replaceThrough, run_bind_of_ok hfirst, run_bind_of_ok hlook]
  -- Permissions are copied only if the path leads somewhere. They are no part of the files, so both cases end alike.
  cases hpresent : middle.isPresent path with
  | true =>
    have hresolve : middle.resolve beside = .ok (directory ++ [name], .file bytes) := by
      refine resolve_eq_ok.mpr ⟨locate_eq_ok.mpr ⟨hbeside.checked, ?_⟩, hwritten⟩
      rw [hpieces]
      refine (hbeside.kept hkept).leads.concat
        (hbeside.kept hkept).isDirectory hbeside.isName hbeside.short fun target hlink => ?_
      rw [hwritten] at hlink
      cases hlink
    have hcopied : (during .copyPermissions beside (copyPermissions path beside) :
      ExceptT WriteError (StateM FileSystem) Unit).run
        middle = (.ok (), middle) :=
      run_adapt_eq.mpr (run_look_eq.mpr ⟨copyPermissions_of_present hpresent hresolve, rfl⟩)
    exact (run_bind_of_ok hcopied).trans hlast
  | false => exact hlast

theorem writeAtomically_of_steps {path : Path} {furnished : FileSystem}
    (hensure : (ensureDirectories path.parents : ExceptT OsError (StateM FileSystem) Unit).run fs = (.ok (), furnished))
    (hreplace : (replaceThrough (path.withSuffix ".tmp") path bytes :
      ExceptT WriteError (StateM FileSystem) Unit).run furnished
      = (.ok (), fs')) :
    (writeAtomically path bytes : ExceptT WriteError (StateM FileSystem) Unit).run fs = (.ok (), fs') := by
  rw [writeAtomically, Path.parent?]
  cases hparents : path.parents with
  | nil =>
    rw [hparents] at hensure
    obtain ⟨-, rfl⟩ := Prod.mk.inj hensure
    exact run_tryCatch_of_ok hreplace
  | cons parent outer =>
    rw [hparents] at hensure
    have hfirst : (during .makeDirectory parent (ensureDirectories (parent :: outer))
        : ExceptT WriteError (StateM FileSystem) Unit).run fs = (.ok (), furnished) :=
      run_adapt_eq.mpr hensure
    exact (run_bind_of_ok hfirst).trans (run_tryCatch_of_ok hreplace)

/-- A write that nothing is in the way of succeeds. -/
theorem writeAtomically_of_ready (hvalid : address.Valid fs) (hready : address.Ready fs) (bytes : List UInt8) :
    ∃ fs', (writeAtomically address.path bytes : ExceptT WriteError (StateM FileSystem) Unit).run fs = (.ok (), fs')
      ∧ Becomes fs fs' (Address.settled address.location bytes fs.node?) := by
  obtain ⟨init, last, hinit⟩ := hvalid.exists_concat
  have hcheck := hready.checkPath_path hvalid
  have hshort := hready.short_names hvalid
  have hfree := fun below (hbelow : below <+: init) => hready.free_below hinit hbelow
  have hbesideNode := hvalid.temporary_location
  have hlinkBeside := hvalid.beside.not_link (temporary_ne_nil hvalid.nonempty)
  obtain ⟨hne, ⟨hrooted, hnames, -⟩, ⟨-, hbesideNames, -⟩, hgrounded⟩ := hvalid
  obtain ⟨hchecked, hshortBeside, -, htarget, hbeside⟩ := hready
  obtain ⟨root, place, names⟩ := address
  simp only [Address.path, Address.location] at *
  subst hinit
  rw [withSuffix_join hne hnames] at hchecked
  rw [hbesideNode] at hbeside
  simp only [temporary_concat] at hchecked hshortBeside hbesideNames hbeside hlinkBeside
  -- Once the directories around it are there, both the class and its temporary file are entries of the last one.
  obtain ⟨furnished, hensure, hpaved⟩ := ensureDirectories_paves hrooted hnames hshort hfree hcheck
  have hkept := hpaved.kept_of_paved hfree
  have hdirectories : ∀ below, below <+: init → furnished.node? (place ++ below) = some .directory :=
    fun below hwithin => (hpaved.nodes _).trans (paved_below hwithin)
  obtain ⟨before, hpieces, hentry⟩ := entryAt_join (hrooted.kept hkept) hnames hshort hdirectories hcheck
  obtain ⟨before', hpieces', hentry'⟩ :=
    entryAt_join (hrooted.kept hkept) hbesideNames hshortBeside hdirectories hchecked
  have hunpaved : ∀ name, furnished.node? (place ++ init ++ [name]) = fs.node? (place ++ (init ++ [name])) := by
    intro name
    rw [hpaved.nodes, List.append_assoc]
    refine if_neg fun hwithin => ?_
    have hlength := hwithin.2.length_le
    simp only [List.length_append, List.length_singleton] at hlength
    omega
  have hother : last ++ ".tmp" ≠ last := fun hsame =>
    temporary_ne (List.cons_ne_nil last []) (congrArg ([·]) hsame)
  have hreplace := replaceThrough_of_entryAt bytes hentry' hpieces' hentry hpieces hother
    (by rw [hunpaved]; exact hbeside) (by rw [hunpaved]; exact hlinkBeside) (by rw [hunpaved]; exact htarget)
  rw [← temporary_concat, ← withSuffix_join hne hnames] at hreplace
  have hlast : ∀ name : String, place ++ init ++ [name] ≠ [] :=
    fun name => List.append_ne_nil_of_right_ne_nil _ (List.cons_ne_nil _ _)
  refine ⟨_, writeAtomically_of_steps hensure hreplace,
    (hpaved.trans (((Becomes.put _ (hlast _) _).trans (Becomes.erase _ (hlast _))).trans
      (Becomes.put _ (hlast _) _))).congr
      fun other => ?_⟩
  rw [node?_erase (hlast _), node?_put (hlast _), ← Address.settled_of_paved hgrounded, hpaved.nodes]
  split
  · rfl
  · split <;> rfl

theorem free_of_kept (hkept : Kept (fun _ => False) fs fs') (hdirectory : fs'.node? other = some .directory) :
    fs.node? other = none ∨ fs.node? other = some .directory := by
  cases hnode : fs.node? other with
  | none => exact .inl rfl
  | some node =>
    cases node with
    | directory => exact .inr rfl
    | file bytes =>
      rw [hkept.files other bytes id hnode] at hdirectory
      cases hdirectory
    | link target =>
      rw [(hkept.links other target).mpr hnode] at hdirectory
      cases hdirectory

/-- Nothing is in the way of a write that succeeds. -/
theorem ready_of_writeAtomically (hvalid : address.Valid fs)
    (hrun : (writeAtomically address.path bytes : ExceptT WriteError (StateM FileSystem) Unit).run fs = (.ok (), fs')) :
    address.Ready fs := by
  have hne := hvalid.nonempty
  have hneBeside := temporary_ne_nil hne
  obtain ⟨furnished, middle, hensure, hwrite, hrename⟩ := of_writeAtomically hrun
  have hkept : Kept (fun _ => False) fs furnished := by
    have hmaintains : Maintains (Kept (fun _ => False) fs)
        (ensureDirectories address.path.parents : ExceptT OsError (StateM FileSystem) Unit).run :=
      ensureDirectories_maintains fun path _ _ => makeDirectory_maintains path
    have hfurnished := hmaintains fs (Kept.refl fs)
    rw [hensure] at hfurnished
    exact hfurnished
  have hlater := hvalid.kept hkept
  rw [Address.path, withSuffix_join hne hvalid.straight.isName] at hwrite hrename
  obtain ⟨location, hlocate, hdirectory, rfl⟩ := of_write hwrite
  obtain ⟨rest, hleads⟩ := hlater.beside.leads_join hneBeside hlocate
  obtain ⟨hshort, hdirectories⟩ := hleads.along_names hlater.beside.isName hlater.beside.unlinked
  obtain rfl := hlater.beside.locate_join hneBeside hlocate
  have hput : Kept (fun _ => True) furnished (furnished.put (address.place ++ temporary address.names) (.file bytes)) :=
    .put (List.append_ne_nil_of_right_ne_nil _ hneBeside) trivial hdirectory (hlater.beside.not_link hneBeside) bytes
  obtain ⟨_, _, _, _, _, _, _, -, htarget, -, -, hfree, -⟩ := of_rename hrename
  rw [(hlater.straight.kept hput).entry_eq hne htarget] at hfree
  refine ⟨?_, hshort, fun above hwithin hother => ?_, fun hold => ?_, fun hold => ?_⟩
  · rw [Address.path, withSuffix_join hne hvalid.straight.isName]
    exact (locate_eq_ok.mp hlocate).1
  · rcases hvalid.above_cases hwithin with hgrounded | ⟨below, hbelow, rfl⟩
    · exact .inr hgrounded
    · obtain ⟨init, last, hnames⟩ := hvalid.exists_concat
      rw [hnames] at hbelow hdirectories
      rw [temporary_concat] at hdirectories
      have hinit : below <+: init := by
        refine (List.prefix_concat_iff.mp hbelow).resolve_left fun hsame => hother ?_
        rw [hsame, Address.location, hnames]
      refine free_of_kept hkept (hdirectories below (hinit.trans (List.prefix_append init _)) fun hsame => ?_)
      have hlength := hinit.length_le
      rw [hsame, List.length_append, List.length_singleton] at hlength
      omega
  · exact hfree (hput.directories _ (hkept.directories _ hold))
  · rw [hvalid.temporary_location] at hold
    exact hdirectory (hkept.directories _ hold)

/-- An atomic write that nothing diverts succeeds exactly if nothing is in its way, and then it is known what the files are. -/
theorem writeAtomically_eq_ok (hvalid : address.Valid fs) :
    (writeAtomically address.path bytes : ExceptT WriteError (StateM FileSystem) Unit).run fs = (.ok (), fs')
      ↔ address.Ready fs ∧ Becomes fs fs' (Address.settled address.location bytes fs.node?) := by
  constructor
  · intro hrun
    have hready := ready_of_writeAtomically hvalid hrun
    obtain ⟨found, hfound, hbecomes⟩ := writeAtomically_of_ready hvalid hready bytes
    rw [hrun] at hfound
    obtain ⟨-, rfl⟩ := Prod.mk.inj hfound
    exact ⟨hready, hbecomes⟩
  · rintro ⟨hready, hbecomes⟩
    obtain ⟨found, hfound, hother⟩ := writeAtomically_of_ready hvalid hready bytes
    rw [hfound, hother.unique hbecomes]

end Disk

/-! ### Two writes -/

namespace Address

structure Clear (one other : Address) : Prop where
  location : ¬ one.location <+: other.location
  beside : ¬ temporary one.location <+: other.location

def Apart (one other : Address) : Prop :=
  Clear one other ∧ Clear other one

theorem Apart.symm {one other : Address} (hapart : Apart one other) : Apart other one :=
  ⟨hapart.2, hapart.1⟩

theorem settled_of_apart {one other : Address} {place : Location} (hapart : Apart one other) (hone : one.location ≠ [])
    (hother : other.location ≠ []) (hplace : place = other.location ∨ place = temporary other.location) :
    settled one.location bytes nodes place = nodes place := by
  obtain ⟨⟨hbelow, hbeside⟩, ⟨hbelow', hbeside'⟩⟩ := hapart
  rcases hplace with rfl | rfl
  · rw [settled, if_neg, if_neg, if_neg hbelow']
    · intro hsame
      exact hbeside (hsame ▸ List.prefix_rfl)
    · intro hsame
      exact hbelow (hsame ▸ List.prefix_rfl)
  · rw [settled, if_neg, if_neg, if_neg hbeside']
    · intro hsame
      exact hbelow (temporary_injective hother hone hsame ▸ List.prefix_rfl)
    · intro hsame
      exact hbeside' (hsame ▸ List.prefix_rfl)

section

variable {one other : Address} (hone : one.Valid fs) (hother : other.Valid fs)
  (hbecomes : Becomes fs fs' (settled one.location bytes fs.node?))

include hone hother hbecomes

/-- A write is as ready after another one as it was before. -/
theorem ready_iff_of_settled (hapart : Apart one other) (hready : one.Ready fs) : other.Ready fs' ↔ other.Ready fs := by
  have htarget : fs'.node? other.location = fs.node? other.location :=
    (hbecomes.nodes _).trans (settled_of_apart hapart hone.location_ne_nil hother.location_ne_nil (.inl rfl))
  have hbeside : fs'.node? (temporary other.location) = fs.node? (temporary other.location) :=
    (hbecomes.nodes _).trans (settled_of_apart hapart hone.location_ne_nil hother.location_ne_nil (.inr rfl))
  have hfree : ∀ above, above <+: other.location →
      ((fs'.node? above = none ∨ fs'.node? above = some .directory)
        ↔ (fs.node? above = none ∨ fs.node? above = some .directory)) := by
    intro above hwithin
    rw [hbecomes.nodes, settled, if_neg, if_neg]
    · split
      case isTrue hwithinOne =>
        have hdifferent : above ≠ one.location := by
          rintro rfl
          exact hapart.1.location hwithin
        exact iff_of_true (.inr rfl) (hready.free above hwithinOne hdifferent)
      case isFalse => exact Iff.rfl
    · rintro rfl
      exact hapart.1.beside hwithin
    · rintro rfl
      exact hapart.1.location hwithin
  constructor
  · rintro ⟨hchecked, hshort, hfreeAfter, htargetAfter, hbesideAfter⟩
    refine ⟨hchecked, hshort, fun above hwithin hdifferent => ?_, htarget ▸ htargetAfter, hbeside ▸ hbesideAfter⟩
    exact (hfree above hwithin).mp (hfreeAfter above hwithin hdifferent)
  · rintro ⟨hchecked, hshort, hfreeBefore, htargetBefore, hbesideBefore⟩
    refine ⟨hchecked, hshort, fun above hwithin hdifferent => ?_, htarget.symm ▸ htargetBefore,
      hbeside.symm ▸ hbesideBefore⟩
    exact (hfree above hwithin).mpr (hfreeBefore above hwithin hdifferent)

omit hother in
/-- A write to the same location is as ready after the first one as it was before. -/
theorem ready_iff_of_same (hsame : one.location = other.location) (hready : one.Ready fs) :
    other.Ready fs' ↔ other.Ready fs := by
  constructor
  · rintro ⟨hchecked, hshort, -, -, -⟩
    exact ⟨hchecked, hshort, hsame ▸ hready.free, hsame ▸ hready.target, hsame ▸ hready.beside⟩
  · rintro ⟨hchecked, hshort, -, -, -⟩
    refine ⟨hchecked, hshort, fun above hwithin hdifferent => .inr ?_, ?_, ?_⟩
    all_goals rw [← hsame] at *
    · rw [hbecomes.nodes, settled, if_neg hdifferent, if_neg, if_pos hwithin]
      rintro rfl
      exact hdifferent (hwithin.eq_of_length (length_temporary hone.location_ne_nil))
    · rw [hbecomes.nodes, settled, if_pos rfl]
      nofun
    · rw [hbecomes.nodes, settled, if_neg (temporary_ne hone.location_ne_nil), if_pos rfl]
      nofun

omit hone hother in
/-- Two writes that succeed one after the other are apart, if none of them goes below a temporary file. -/
theorem apart_of_ready (hready : one.Ready fs) (hafter : other.Ready fs') (hdifferent : one.location ≠ other.location)
    (hbelow : temporary one.location <+: other.location → fs.node? (temporary one.location) = some .directory)
    (hbelow' : temporary other.location <+: one.location → fs.node? (temporary other.location) = some .directory) :
    Apart one other := by
  have hclear : ¬ temporary one.location <+: other.location := fun hwithin => hready.beside (hbelow hwithin)
  have hclear' : ¬ temporary other.location <+: one.location := by
    intro hwithin
    have hdirectory := hbelow' hwithin
    refine hafter.beside ?_
    rw [hbecomes.nodes, settled, if_neg, if_neg, if_pos hwithin]
    · intro hsame
      exact hready.beside (hsame ▸ hdirectory)
    · intro hsame
      exact hready.target (hsame ▸ hdirectory)
  refine ⟨⟨fun hwithin => ?_, hclear⟩, fun hwithin => ?_, hclear'⟩
  · have hfile : fs'.node? one.location = some (.file bytes) := by
      rw [hbecomes.nodes, settled, if_pos rfl]
    rcases hafter.free _ hwithin hdifferent with hnode | hnode
    all_goals
      rw [hfile] at hnode
      cases hnode
  · refine hafter.target ?_
    rw [hbecomes.nodes, settled, if_neg (Ne.symm hdifferent), if_neg, if_pos hwithin]
    intro hsame
    exact hclear (hsame ▸ List.prefix_rfl)

end

/-- Classes that are apart can be put in any order. -/
theorem settled_comm {one other : Address} {content : List UInt8} (hapart : Apart one other) (hone : one.location ≠ [])
    (hother : other.location ≠ []) :
    settled other.location content (settled one.location bytes nodes)
      = settled one.location bytes (settled other.location content nodes) := by
  have hself : ∀ {location place : Location} {bytes : List UInt8} {nodes nodes' : Location → Option Node},
      place = location ∨ place = temporary location →
          settled location bytes nodes place = settled location bytes nodes' place := by
    intro location place bytes nodes nodes' hplace
    rw [settled, settled]
    rcases hplace with hsame | hsame
    · rw [if_pos hsame, if_pos hsame]
    · rw [if_pos hsame, if_pos hsame]
  funext place
  by_cases hplace : place = one.location ∨ place = temporary one.location
  · rw [settled_of_apart hapart.symm hother hone hplace]
    exact hself hplace
  by_cases hplace' : place = other.location ∨ place = temporary other.location
  · rw [settled_of_apart hapart hone hother hplace']
    exact hself hplace'
  obtain ⟨hwritten, hfreed⟩ := not_or.mp hplace
  obtain ⟨hwritten', hfreed'⟩ := not_or.mp hplace'
  simp only [settled, if_neg hwritten, if_neg hfreed, if_neg hwritten', if_neg hfreed']
  split
  · rw [ite_self]
  · rfl

end Address

end Retoken
