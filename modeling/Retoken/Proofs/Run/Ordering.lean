import Retoken.Proofs.FileSystem.Settling
import Retoken.Proofs.Run.Effects
import Retoken.Proofs.Run.Shadowing

/-!
# The order of the writes

Writes whose places are apart can be swapped, and if two writes both succeed their places are apart, so it does not matter in which order the writes of a run come. There are two exceptions. A class that is laid out below the temporary file beside another one makes a directory of it, and then the other one cannot be written any more. And two classes that are brought to one place by links write over each other. Neither can happen to classes that are replaced in place.
-/

namespace Retoken

open Retoken.FileSystem Retoken.Path

variable {fs fs' state : FileSystem} {settings : Settings} {sources : List ClassSource} {plan : Plan}
  {write : PendingWrite}
  {writes rest first second : List PendingWrite} {one other : Address} {address : PendingWrite → Address}
  {location : Location} {cleaned : Nat}

namespace Run

/-! ### One write -/

section

variable (hpath : write.destination = one.path) (hvalid : one.Valid fs)

include hpath hvalid

theorem writeClass_eq_ok :
    (writeClass write : ExceptT RunError (StateM FileSystem) Unit).run fs = (.ok (), fs')
      ↔ one.Ready fs ∧ Becomes fs fs' (Address.settled one.location write.bytes fs.node?) := by
  rw [writeClass, run_adapt_eq, hpath]
  exact Disk.writeAtomically_eq_ok hvalid

theorem writeClass_keeps :
    Maintains (Kept (fun _ => True) fs) (writeClass write : ExceptT RunError (StateM FileSystem) Unit).run := by
  rw [writeClass, hpath]
  exact Maintains.adapt (Disk.writeAtomically_maintains hvalid.straight hvalid.nonempty hvalid.beside trivial
    trivial write.bytes)

theorem kept_of_writeClass
    (hrun : (writeClass write : ExceptT RunError (StateM FileSystem) Unit).run fs = (.ok (), fs')) :
    Kept (fun _ => True) fs fs' := by
  have hkept := writeClass_keeps hpath hvalid fs (Kept.refl fs)
  rw [hrun] at hkept
  exact hkept

end

/-! ### Writes one after the other -/

/-- The classes are put at places that are apart, or the same bytes are put at one place. -/
def Compatible (address : PendingWrite → Address) (write write' : PendingWrite) : Prop :=
  Address.Apart (address write) (address write')
    ∨ (address write).location = (address write').location ∧ write.bytes = write'.bytes

theorem Compatible.symm {write' : PendingWrite} (hcompatible : Compatible address write write') :
    Compatible address write' write := by
  rcases hcompatible with hapart | ⟨hlocation, hbytes⟩
  · exact .inl hapart.symm
  · exact .inr ⟨hlocation.symm, hbytes.symm⟩

structure Addressed (fs : FileSystem) (address : PendingWrite → Address) (writes : List PendingWrite) : Prop where
  path : ∀ write ∈ writes, write.destination = (address write).path
  valid : ∀ write ∈ writes, (address write).Valid fs
  /-- Where a class goes below a temporary file there is a directory already, so the write with that temporary file must fail. -/
  uncrossed : ∀ write ∈ writes, ∀ write' ∈ writes, temporary (address write).location <+: (address write').location →
    fs.node? (temporary (address write).location) = some .directory
  consistent : ∀ write ∈ writes, ∀ write' ∈ writes, (address write).location = (address write').location →
    write.bytes = write'.bytes

def settledAll (address : PendingWrite → Address) (writes : List PendingWrite) (nodes : Location → Option Node) :
    Location → Option Node :=
  writes.foldl (fun nodes write => Address.settled (address write).location write.bytes nodes) nodes

theorem Addressed.perm (haddressed : Addressed fs address writes) (hperm : first.Perm writes) :
    Addressed fs address first where
  path write hwrite := haddressed.path write (hperm.mem_iff.mp hwrite)
  valid write hwrite := haddressed.valid write (hperm.mem_iff.mp hwrite)
  uncrossed write hwrite write' hwrite' :=
    haddressed.uncrossed write (hperm.mem_iff.mp hwrite) write' (hperm.mem_iff.mp hwrite')
  consistent write hwrite write' hwrite' :=
    haddressed.consistent write (hperm.mem_iff.mp hwrite) write' (hperm.mem_iff.mp hwrite')

theorem Addressed.tail (haddressed : Addressed fs address (write :: rest)) : Addressed fs address rest where
  path other hother := haddressed.path other (List.mem_cons_of_mem _ hother)
  valid other hother := haddressed.valid other (List.mem_cons_of_mem _ hother)
  uncrossed one hone other hother :=
    haddressed.uncrossed one (List.mem_cons_of_mem _ hone) other (List.mem_cons_of_mem _ hother)
  consistent one hone other hother :=
    haddressed.consistent one (List.mem_cons_of_mem _ hone) other (List.mem_cons_of_mem _ hother)

theorem Addressed.kept (haddressed : Addressed fs address writes) (hkept : Kept (fun _ => True) fs fs') :
    Addressed fs' address writes where
  path := haddressed.path
  valid write hwrite := (haddressed.valid write hwrite).kept hkept
  uncrossed write hwrite write' hwrite' hbelow :=
    hkept.directories _ (haddressed.uncrossed write hwrite write' hwrite' hbelow)
  consistent := haddressed.consistent

section

variable {write' : PendingWrite} (haddressed : Addressed fs address writes) (hwrite : write ∈ writes)
  (hwrite' : write' ∈ writes) (hready : (address write).Ready fs)
  (hbecomes : Becomes fs fs' (Address.settled (address write).location write.bytes fs.node?))

include haddressed hwrite hwrite' hready hbecomes

theorem Addressed.ready_iff (hcompatible : Compatible address write write') :
    (address write').Ready fs' ↔ (address write').Ready fs := by
  have hvalid := haddressed.valid write hwrite
  rcases hcompatible with hapart | ⟨hsame, -⟩
  · exact Address.ready_iff_of_settled hvalid (haddressed.valid write' hwrite') hbecomes hapart hready
  · exact Address.ready_iff_of_same hvalid hbecomes hsame hready

theorem Addressed.compatible_of_ready (hafter : (address write').Ready fs') : Compatible address write write' := by
  by_cases hsame : (address write).location = (address write').location
  · exact .inr ⟨hsame, haddressed.consistent write hwrite write' hwrite' hsame⟩
  · exact .inl (Address.apart_of_ready hbecomes hready hafter hsame (haddressed.uncrossed write hwrite write' hwrite')
      (haddressed.uncrossed write' hwrite' write hwrite))

end

/-- Writes succeed one after the other exactly if each of them is ready at the start and any two agree. -/
theorem Addressed.forM_eq_ok (haddressed : Addressed fs address writes) :
    (writes.forM writeClass : ExceptT RunError (StateM FileSystem) Unit).run fs = (.ok (), fs')
      ↔ (∀ write ∈ writes, (address write).Ready fs) ∧ writes.Pairwise (Compatible address)
        ∧ Becomes fs fs' (settledAll address writes fs.node?) := by
  -- By induction on the writes: a later one is as ready behind the first as at the start, if the two are compatible.
  induction writes generalizing fs with
  | nil =>
    constructor
    · intro hrun
      cases hrun
      exact ⟨nofun, List.Pairwise.nil, Becomes.refl fun _ => rfl⟩
    · rintro ⟨-, -, hbecomes⟩
      rw [hbecomes.unique (Becomes.refl fun _ => rfl)]
      rfl
  | cons write rest ih =>
    have hmem : write ∈ write :: rest := List.mem_cons_self
    have hlater : ∀ other ∈ rest, other ∈ write :: rest := fun other => List.mem_cons_of_mem write
    have hpath := haddressed.path write hmem
    have hvalid := haddressed.valid write hmem
    constructor
    · intro hrun
      obtain ⟨⟨⟩, middle, hfirst, hrest⟩ := run_bind_eq.mp hrun
      obtain ⟨hready, hbecomes⟩ := (writeClass_eq_ok hpath hvalid).mp hfirst
      have hnext := haddressed.tail.kept (kept_of_writeClass hpath hvalid hfirst)
      obtain ⟨hreadyRest, hcompatibleRest, hbecomesRest⟩ := (ih hnext).mp hrest
      have hcompatible : ∀ other ∈ rest, Compatible address write other := fun other hother =>
        haddressed.compatible_of_ready hmem (hlater other hother) hready hbecomes (hreadyRest other hother)
      refine ⟨fun other hother => ?_, List.pairwise_cons.mpr ⟨hcompatible, hcompatibleRest⟩, ?_⟩
      · rcases List.mem_cons.mp hother with rfl | hother
        · exact hready
        · exact (haddressed.ready_iff hmem (hlater other hother) hready hbecomes (hcompatible other hother)).mp
            (hreadyRest other hother)
      · rw [funext hbecomes.nodes] at hbecomesRest
        exact hbecomes.trans hbecomesRest
    · rintro ⟨hreadyAll, hcompatible, hbecomes⟩
      obtain ⟨hcompatibleFirst, hcompatibleRest⟩ := List.pairwise_cons.mp hcompatible
      have hready := hreadyAll write hmem
      obtain ⟨middle, -, hmiddle⟩ := Disk.writeAtomically_of_ready hvalid hready write.bytes
      have hfirst := (writeClass_eq_ok hpath hvalid).mpr ⟨hready, hmiddle⟩
      have hnext := haddressed.tail.kept (kept_of_writeClass hpath hvalid hfirst)
      refine run_bind_eq.mpr ⟨(), middle, hfirst, (ih hnext).mpr ⟨fun other hother => ?_, hcompatibleRest, ?_⟩⟩
      · exact (haddressed.ready_iff hmem (hlater other hother) hready hmiddle (hcompatibleFirst other hother)).mpr
          (hreadyAll other (hlater other hother))
      · rw [funext hmiddle.nodes]
        exact hmiddle.after hbecomes

/-- The classes end up the same in whatever order they are put, if they agree. -/
theorem Addressed.settledAll_perm (haddressed : Addressed fs address writes) (hperm : first.Perm writes)
    (hcompatible : first.Pairwise (Compatible address)) (nodes : Location → Option Node) :
    settledAll address first nodes = settledAll address writes nodes := by
  have hsymm : Std.Symm (Compatible address) := ⟨fun _ _ => Compatible.symm⟩
  refine hperm.foldl_eq' (fun write hwrite write' hwrite' nodes => ?_) nodes
  by_cases hsame : write = write'
  · rw [hsame]
  · have hvalid := haddressed.valid write (hperm.mem_iff.mp hwrite)
    have hvalid' := haddressed.valid write' (hperm.mem_iff.mp hwrite')
    rcases hcompatible.forall hwrite hwrite' hsame with hapart | ⟨hlocation, hbytes⟩
    · exact Address.settled_comm hapart hvalid.location_ne_nil hvalid'.location_ne_nil
    · rw [hlocation, hbytes]

/-- Addressed writes can be done in any order. -/
theorem Addressed.forM_perm (haddressed : Addressed fs address writes) (hperm : first.Perm writes) :
    (first.forM writeClass : ExceptT RunError (StateM FileSystem) Unit).run fs = (.ok (), fs')
      ↔ (writes.forM writeClass : ExceptT RunError (StateM FileSystem) Unit).run fs = (.ok (), fs') := by
  have hready : (∀ write ∈ first, (address write).Ready fs) ↔ ∀ write ∈ writes, (address write).Ready fs :=
    forall_congr' fun write => imp_congr_left hperm.mem_iff
  rw [(haddressed.perm hperm).forM_eq_ok, haddressed.forM_eq_ok, hready, ← hperm.pairwise_iff Compatible.symm]
  refine and_congr_right fun _ => and_congr_right fun hcompatible => ?_
  rw [haddressed.settledAll_perm hperm hcompatible]

/-! ### Writes that spoil each other -/

/-- The destination of a write lies below a directory, possibly the working directory, and there are no links on the way down from there to the class or to the temporary file beside it. -/
def Placed (fs : FileSystem) (write : PendingWrite) : Prop :=
  ∃ address : Address, write.destination = address.path ∧ address.Valid fs

/-- A class goes below the temporary file beside another one, where there is no directory yet. -/
def Crossed (fs : FileSystem) (writes : List PendingWrite) : Prop :=
  ∃ write ∈ writes, ∃ write' ∈ writes, ∃ place place', fs.Denotes write.destination place
    ∧ fs.Denotes write'.destination place'
    ∧ temporary place <+: place' ∧ fs.node? (temporary place) ≠ some .directory

def Clashing (fs : FileSystem) (writes : List PendingWrite) : Prop :=
  ∃ write ∈ writes, ∃ write' ∈ writes, ∃ place, fs.Denotes write.destination place ∧ fs.Denotes write'.destination place
    ∧ write.bytes ≠ write'.bytes

/-- It does not matter in which order the writes come: if all succeed in one order they do in every other one, and the files are the same then. -/
def AnyOrder (state : FileSystem) (writes : List PendingWrite) : Prop :=
  ∀ (first second : List PendingWrite) (fs' : FileSystem), first.Perm writes → second.Perm writes →
    ((first.forM writeClass : ExceptT RunError (StateM FileSystem) Unit).run state = (.ok (), fs')
      ↔ (second.forM writeClass : ExceptT RunError (StateM FileSystem) Unit).run state = (.ok (), fs'))

theorem denotes_of_valid (hpath : write.destination = one.path) (hvalid : one.Valid fs) :
    fs.Denotes write.destination one.location := by
  rw [hpath]
  exact hvalid.straight.denotes hvalid.nonempty

theorem Placed.kept (hplaced : Placed fs write) (hkept : Kept (fun _ => True) fs fs') : Placed fs' write := by
  obtain ⟨address, hpath, hvalid⟩ := hplaced
  exact ⟨address, hpath, hvalid.kept hkept⟩

theorem exists_addressed (hplaced : ∀ write ∈ writes, Placed fs write) (hcrossed : ¬ Crossed fs writes)
    (hclashing : ¬ Clashing fs writes) : ∃ address, Addressed fs address writes := by
  have haddress : Nonempty Address := ⟨⟨⟨""⟩, [], []⟩⟩
  choose! address hpath hvalid using hplaced
  have hdenotes : ∀ write ∈ writes, fs.Denotes write.destination (address write).location := fun write hwrite =>
    denotes_of_valid (hpath write hwrite) (hvalid write hwrite)
  refine ⟨address, hpath, hvalid, ?_, ?_⟩
  · intro write hwrite write' hwrite' hbelow
    by_contra hmissing
    exact hcrossed ⟨write, hwrite, write', hwrite', _, _, hdenotes write hwrite, hdenotes write' hwrite',
      hbelow, hmissing⟩
  · intro write hwrite write' hwrite' hsame
    by_contra hbytes
    refine hclashing ⟨write, hwrite, write', hwrite', _, hdenotes write hwrite, ?_, hbytes⟩
    rw [hsame]
    exact hdenotes write' hwrite'

section

variable {write' : PendingWrite} (hpath : write.destination = one.path) (hvalid : one.Valid state)

include hpath hvalid

/-- A class cannot be written after one that goes below its temporary file. -/
theorem forM_of_crossed (hpath' : write'.destination = other.path) (hvalid' : other.Valid state)
    (hclass : other.location ≠ temporary one.location) (hbelow : temporary one.location <+: other.location) :
    ((write' :: write :: rest).forM writeClass : ExceptT RunError (StateM FileSystem) Unit).run state ≠
      (.ok (), fs') := by
  intro hrun
  obtain ⟨⟨⟩, middle, hfirst, hrest⟩ := run_bind_eq.mp hrun
  obtain ⟨⟨⟩, last, hsecond, -⟩ := run_bind_eq.mp hrest
  obtain ⟨-, hbecomes⟩ := (writeClass_eq_ok hpath' hvalid').mp hfirst
  obtain ⟨hready, -⟩ := (writeClass_eq_ok hpath (hvalid.kept (kept_of_writeClass hpath' hvalid' hfirst))).mp hsecond
  refine hready.beside ?_
  rw [hbecomes.nodes, Address.settled, if_neg (Ne.symm hclass), if_neg, if_pos hbelow]
  intro hsame
  have hlocation := temporary_injective hvalid.location_ne_nil hvalid'.location_ne_nil hsame
  rw [← hlocation] at hbelow hclass
  exact hclass (hbelow.eq_of_length (length_temporary hvalid.location_ne_nil)).symm

theorem written_of_forM (hplaced : ∀ write ∈ first, Placed state write)
    (hrun : ((first ++ [write]).forM writeClass :
      ExceptT RunError (StateM FileSystem) Unit).run state = (.ok (), fs')) :
    fs'.node? one.location = some (.file write.bytes) := by
  rw [List.forM_eq_forM, List.forM_append, ← List.forM_eq_forM] at hrun
  obtain ⟨⟨⟩, middle, hfirst, hlast⟩ := run_bind_eq.mp hrun
  obtain ⟨⟨⟩, last, hwrite, hend⟩ := run_bind_eq.mp hlast
  cases hend
  have hmaintains : Maintains (Kept (fun _ => True) state) (first.forM writeClass :
      ExceptT RunError (StateM FileSystem) Unit).run := by
    refine Maintains.forM fun earlier hearlier => ?_
    obtain ⟨address, hpathEarlier, hvalidEarlier⟩ := hplaced earlier hearlier
    exact writeClass_keeps hpathEarlier hvalidEarlier
  have hkept := hmaintains state (Kept.refl state)
  rw [hfirst] at hkept
  obtain ⟨-, hbecomes⟩ := (writeClass_eq_ok hpath (hvalid.kept hkept)).mp hwrite
  rw [hbecomes.nodes, Address.settled, if_pos rfl]

end

theorem exists_perm_of_ne {write' : PendingWrite} (hwrite : write ∈ writes) (hwrite' : write' ∈ writes)
    (hother : write ≠ write') :
    ∃ rest : List PendingWrite, (write' :: write :: rest).Perm writes := by
  have hlast : write ∈ writes.erase write' := (List.mem_erase_of_ne hother).mpr hwrite
  exact ⟨_, ((List.perm_cons_erase hwrite').trans ((List.perm_cons_erase hlast).cons write')).symm⟩

section

variable (hplaced : ∀ write ∈ writes, Placed fs write) (hkept : Kept (fun _ => True) fs state)
  (hany : AnyOrder state writes) (hperm : first.Perm writes)

include hplaced hkept hany hperm

theorem AnyOrder.fails_of_crossed (hclass : ∀ write ∈ writes, ClassPath write.destination)
    (hcrossed : Crossed fs writes) :
    (first.forM writeClass : ExceptT RunError (StateM FileSystem) Unit).run state ≠ (.ok (), fs') := by
  intro hrun
  obtain ⟨write, hwrite, write', hwrite', place, place', hdenotes, hdenotes', hbelow, -⟩ := hcrossed
  obtain ⟨one, hpath, hvalid⟩ := hplaced write hwrite
  obtain ⟨other, hpath', hvalid'⟩ := hplaced write' hwrite'
  have hplace : place' ≠ temporary place := (hclass write' hwrite').ne_temporary hdenotes' hdenotes.ne_nil
  have hdifferent : write ≠ write' := by
    rintro rfl
    obtain rfl := hdenotes.unique hdenotes'
    exact hplace (hbelow.eq_of_length (length_temporary hdenotes.ne_nil)).symm
  rw [hdenotes.unique (denotes_of_valid hpath hvalid),
    hdenotes'.unique (denotes_of_valid hpath' hvalid')] at hbelow hplace
  obtain ⟨rest, hrest⟩ := exists_perm_of_ne hwrite hwrite' hdifferent
  exact forM_of_crossed hpath (hvalid.kept hkept) hpath' (hvalid'.kept hkept) hplace hbelow
    ((hany _ first fs' hrest hperm).mpr hrun)

theorem AnyOrder.fails_of_clashing (hclashing : Clashing fs writes) :
    (first.forM writeClass : ExceptT RunError (StateM FileSystem) Unit).run state ≠ (.ok (), fs') := by
  intro hrun
  obtain ⟨write, hwrite, write', hwrite', place, hdenotes, hdenotes', hbytes⟩ := hclashing
  have hdifferent : write ≠ write' := fun hsame => hbytes (congrArg PendingWrite.bytes hsame)
  obtain ⟨rest, hrest⟩ := exists_perm_of_ne hwrite hwrite' hdifferent
  have hlast : ∀ {one other : PendingWrite}, (one :: other :: rest).Perm writes → other ∈ writes →
    fs.Denotes other.destination place →
      fs'.node? place = some (.file other.bytes) := by
    intro one other hperm' hother hplace
    have horder : (rest ++ [one] ++ [other]).Perm writes := by
      rw [List.append_assoc]
      exact List.perm_append_comm.trans hperm'
    obtain ⟨address, hpath, hvalid⟩ := hplaced other hother
    rw [hplace.unique (denotes_of_valid hpath hvalid)]
    refine written_of_forM hpath (hvalid.kept hkept) (fun earlier hearlier => ?_)
      ((hany _ first fs' horder hperm).mpr hrun)
    exact (hplaced earlier (horder.subset (List.mem_append_left _ hearlier))).kept hkept
  have hnode := hlast hrest hwrite hdenotes
  rw [hlast ((List.Perm.swap _ _ rest).trans hrest) hwrite' hdenotes'] at hnode
  exact hbytes (Node.file.inj (Option.some.inj hnode)).symm

end

/-- The order of the writes matters exactly if they spoil each other and succeed in some order. -/
theorem anyOrder_iff (hplaced : ∀ write ∈ writes, Placed fs write)
    (hclass : ∀ write ∈ writes, ClassPath write.destination) (hkept : Kept (fun _ => True) fs state) :
    AnyOrder state writes ↔ (Crossed fs writes ∨ Clashing fs writes → ∀ (order : List PendingWrite) (fs' : FileSystem),
      order.Perm writes → (order.forM writeClass : ExceptT RunError (StateM FileSystem) Unit).run state ≠
        (.ok (), fs')) := by
  constructor
  · rintro hany (hcrossed | hclashing) order fs' hperm
    · exact hany.fails_of_crossed hplaced hkept hperm hclass hcrossed
    · exact hany.fails_of_clashing hplaced hkept hperm hclashing
  · intro hfails first second fs' hfirst hsecond
    by_cases hspoiled : Crossed fs writes ∨ Clashing fs writes
    · exact iff_of_false (hfails hspoiled first fs' hfirst) (hfails hspoiled second fs' hsecond)
    · obtain ⟨hcrossed, hclashing⟩ := not_or.mp hspoiled
      obtain ⟨address, haddressed⟩ := exists_addressed hplaced hcrossed hclashing
      have hstate := haddressed.kept hkept
      rw [hstate.forM_perm hfirst, hstate.forM_perm hsecond]

/-! ### The writes of a plan -/

theorem kept_of_removed (hremoved : Removed (Stale fs settings) fs state) : Kept (fun _ => True) fs state := by
  refine ⟨hremoved.workingDirectory, fun location hdirectory => ?_, fun location target => ?_,
    fun _ _ hother => absurd trivial hother⟩
  · rw [hremoved.others location, hdirectory]
    intro hstale
    obtain ⟨bytes, hfile⟩ := hstale.isFile
    rw [hdirectory] at hfile
    cases hfile
  · by_cases hstale : Stale fs settings location
    · obtain ⟨bytes, hfile⟩ := hstale.isFile
      rw [hremoved.removed location hstale, hfile]
      exact ⟨nofun, nofun⟩
    · rw [hremoved.others location hstale]

section

variable (hproper : fs.Proper) (hscan : Scanned fs settings sources) (hplace : settings.output = .inPlace)

include hproper hscan hplace

theorem placed_of_inPlace (hwrite : write ∈ writesIn fs settings sources)
    (hbeside : ∀ location target, Beside fs (writesIn fs settings sources) location →
      fs.node? location ≠ some (.link target)) :
    Placed fs write := by
  obtain ⟨source, hsource, bytes, -, rfl⟩ := mem_writesIn.mp hwrite
  obtain ⟨names, hfound, -⟩ := ClassSource.found_of_mem_scanAll hscan hsource
  obtain ⟨directory, _, hroot, hne, -⟩ := hfound.file
  have hstraight := hfound.straight hproper hroot
  have hpath : settings.output.destination source = source.root.join (.ofNames names) := by
    rw [hplace, Output.destination, ClassSource.path, hfound.relative]
  refine ⟨⟨source.root, directory, names⟩, hpath, hne, hstraight,
    hstraight.temporary hne fun target => ?_, fun above => ?_⟩
  · refine hbeside _ target ⟨directory ++ names, ⟨_, hwrite, ?_⟩, (temporary_append directory hne).symm⟩
    rw [hpath]
    exact hstraight.denotes hne
  · exact hproper.within hstraight.rooted.isDirectory

theorem not_crossed_of_inPlace : ¬ Crossed fs (writesIn fs settings sources) := by
  rintro ⟨write, hwrite, write', hwrite', place, place', hdenotes, hdenotes', ⟨rest, hrest⟩, hmissing⟩
  have hclass := (classPath_of_mem_writesIn hproper hscan hwrite').ne_temporary hdenotes' hdenotes.ne_nil
  obtain ⟨source, hsource, bytes, ⟨_, _, hread, -⟩, rfl⟩ := mem_writesIn.mp hwrite'
  obtain ⟨found, hresolve, hfound⟩ := exists_of_mem_sources hproper hscan hsource hread
  have hfile := (resolve_eq_ok.mp hresolve).2
  rw [hplace, Output.destination] at hdenotes'
  rw [hfound.unique hdenotes', ← hrest] at hfile
  have hbelow : rest ≠ [] := by
    rintro rfl
    rw [List.append_nil] at hrest
    exact hclass hrest.symm
  exact hmissing (hproper.above hbelow hfile)

theorem not_clashing_of_inPlace : ¬ Clashing fs (writesIn fs settings sources) := by
  rintro ⟨write, hwrite, write', hwrite', place, hdenotes, hdenotes', hbytes⟩
  obtain ⟨source, hsource, bytes, hchanges, rfl⟩ := mem_writesIn.mp hwrite
  obtain ⟨source', hsource', bytes', hchanges', rfl⟩ := mem_writesIn.mp hwrite'
  rw [hplace, Output.destination] at hdenotes hdenotes'
  obtain ⟨_, _, hread, -⟩ := id hchanges
  obtain ⟨_, _, hread', -⟩ := id hchanges'
  obtain rfl := eq_of_denotes hproper hscan hsource hsource' hread hread' hdenotes hdenotes'
  exact hbytes (hchanges'.unique hchanges)

end

end Run

/-- The writes of a run may come in any order if the classes are replaced in place and no links are at the temporary files. In general, if all destinations are free of links, they may come in any order exactly if none of them spoils another one, or if no order succeeds at all. Two writes meet at one file only if they meet at one location, since a file has one name. -/
theorem writes_anyOrder (hproper : fs.Proper)
    (hprepare : ((Run.prepare settings : ExceptT RunError (StateM FileSystem) (List ClassSource × Plan)).run fs).1
      = .ok (sources, plan))
    (hremoved : (Run.removeStale settings : ExceptT RunError (StateM FileSystem) Nat).run fs = (.ok cleaned, state)) :
    (settings.output = .inPlace →
        (∀ location target, Run.Beside fs plan.writes.toList location → fs.node? location ≠ some (.link target)) →
        Run.AnyOrder state plan.writes.toList)
      ∧ ((∀ write ∈ plan.writes.toList, Run.Placed fs write) →
        (Run.AnyOrder state plan.writes.toList
          ↔ (Run.Crossed fs plan.writes.toList ∨ Run.Clashing fs plan.writes.toList →
            ∀ (order : List PendingWrite) (fs' : FileSystem), order.Perm plan.writes.toList →
              (order.forM Run.writeClass : ExceptT RunError (StateM FileSystem) Unit).run state ≠ (.ok (), fs')))) := by
  obtain ⟨hscan, hcovers⟩ := Run.covers_of_prepare hprepare
  have hwrites : plan.writes.toList = Run.writesIn fs settings sources := hcovers.writes.trans Run.writesOf_examinedIn
  have hkept := Run.kept_of_removed (Run.removeStale_eq_ok hproper hremoved).1
  have hclass : ∀ write ∈ Run.writesIn fs settings sources, ClassPath write.destination :=
    fun write hwrite => Run.classPath_of_mem_writesIn hproper hscan hwrite
  rw [hwrites]
  constructor
  · intro hplace hbeside
    have hplaced : ∀ write ∈ Run.writesIn fs settings sources, Run.Placed fs write :=
      fun write hwrite => Run.placed_of_inPlace hproper hscan hplace hwrite hbeside
    refine (Run.anyOrder_iff hplaced hclass hkept).mpr fun hspoiled => ?_
    rcases hspoiled with hcrossed | hclashing
    · exact absurd hcrossed (Run.not_crossed_of_inPlace hproper hscan hplace)
    · exact absurd hclashing (Run.not_clashing_of_inPlace hproper hscan hplace)
  · intro hplaced
    exact Run.anyOrder_iff hplaced hclass hkept

/-! ### A class below a temporary file -/

theorem Address.valid_of_names {names : List String} (hproper : fs.Proper)
    (hdirectory : fs.node? fs.workingDirectory = some .directory)
    (hunlinked : fs.Unlinked) (hne : names ≠ []) (hnames : ∀ name ∈ names, IsName name) :
    (Address.mk ⟨""⟩ fs.workingDirectory names).Valid fs where
  nonempty := hne
  straight := ⟨.of_empty rfl hdirectory, hnames, fun _ target _ _ => hunlinked _ target⟩
  beside := ⟨.of_empty rfl hdirectory, isName_temporary hnames, fun _ target _ _ => hunlinked _ target⟩
  grounded _ hwithin := hproper.within hdirectory hwithin

/-- Two input directories with a class each, of which the second is laid out below the temporary file beside the first. -/
def crossedDirectories : FileSystem where
  nodes := .ofList [
    (["one"], Node.directory),
    (["one", "A.class"], .file ClassFile.nestedClass),
    (["two"], .directory),
    (["two", "A.class.tmp"], .directory),
    (["two", "A.class.tmp", "X.class"], .file ClassFile.nestedClass),
    (["out"], .directory)]

def crossedSettings (output : Output) : Settings where
  tokens := ⟨[("ab", "-")]⟩
  roots := [⟨"one"⟩, ⟨"two"⟩]
  output
  strict := false
  dryRun := false
  clean := false
  jobs? := none

def crossedSources : List ClassSource :=
  [⟨⟨"one"⟩, ⟨"A.class"⟩⟩, ⟨⟨"two"⟩, ⟨"A.class.tmp/X.class"⟩⟩]

/-- Both classes change, and they can be written one after the other. -/
theorem prepare_crossedDirectories : ∃ sources plan fs' bytes bytes',
    ((Run.prepare (crossedSettings (.shadow ⟨"out"⟩)) :
        ExceptT RunError (StateM FileSystem) (List ClassSource × Plan)).run
        crossedDirectories).1 = .ok (sources, plan)
      ∧ plan.writes.toList = [⟨⟨"one/A.class"⟩, ⟨"out/A.class"⟩, bytes⟩,
        ⟨⟨"two/A.class.tmp/X.class"⟩, ⟨"out/A.class.tmp/X.class"⟩, bytes'⟩]
      ∧ (plan.writes.toList.forM Run.writeClass : ExceptT RunError (StateM FileSystem) Unit).run crossedDirectories
        = (.ok (), fs') := by
  have hscan : Run.Scanned crossedDirectories (crossedSettings (.shadow ⟨"out"⟩)) crossedSources := by
    rw [Run.Scanned]
    decide +kernel
  have hfirst : (Run.writeIn? crossedDirectories (crossedSettings (.shadow ⟨"out"⟩)) ⟨⟨"one"⟩, ⟨"A.class"⟩⟩).isSome
      = true := by
    decide +kernel
  have hsecond : (Run.writeIn? crossedDirectories (crossedSettings (.shadow ⟨"out"⟩))
      ⟨⟨"two"⟩, ⟨"A.class.tmp/X.class"⟩⟩).isSome = true := by
    decide +kernel
  have hrun : (((Run.writesIn crossedDirectories (crossedSettings (.shadow ⟨"out"⟩)) crossedSources).forM Run.writeClass
      : ExceptT RunError (StateM FileSystem) Unit).run crossedDirectories).1.isOk = true := by
    decide +kernel
  obtain ⟨write, hwrite⟩ := Option.isSome_iff_exists.mp hfirst
  obtain ⟨write', hwrite'⟩ := Option.isSome_iff_exists.mp hsecond
  have hwrites : Run.writesIn crossedDirectories (crossedSettings (.shadow ⟨"out"⟩)) crossedSources
      = [write, write'] := by
    rw [Run.writesIn, crossedSources, List.filterMap_cons_some hwrite, List.filterMap_cons_some hwrite',
      List.filterMap_nil]
  rcases Run.prepare_cases hscan with ⟨plan, hprepare, hcovers⟩ | ⟨error, hprepare, -⟩
  · have hplan := (hcovers.writes.trans Run.writesOf_examinedIn).trans hwrites
    rw [hwrites, ← hplan] at hrun
    obtain ⟨bytes, -, rfl⟩ := Run.writeIn?_eq_some.mp hwrite
    obtain ⟨bytes', -, rfl⟩ := Run.writeIn?_eq_some.mp hwrite'
    rcases hresult : (plan.writes.toList.forM Run.writeClass :
      ExceptT RunError (StateM FileSystem) Unit).run crossedDirectories
      with ⟨_ | ⟨⟨⟩⟩, fs'⟩
    · rw [hresult] at hrun
      cases hrun
    · exact ⟨_, plan, fs', bytes, bytes', congrArg Prod.fst hprepare, hplan, hresult⟩
  · have hok : ((Run.prepare (crossedSettings (.shadow ⟨"out"⟩)) :
        ExceptT RunError (StateM FileSystem) (List ClassSource × Plan)).run
        crossedDirectories).1.isOk = true := by
      decide +kernel
    rw [hprepare] at hok
    cases hok

/-- The two classes can be replaced in place in any order. Below an output directory they can be written in one order, but not in the other one. -/
theorem writes_anyOrder_crossedDirectories :
    (∃ sources plan, ((Run.prepare (crossedSettings .inPlace)
        : ExceptT RunError (StateM FileSystem) (List ClassSource × Plan)).run crossedDirectories).1
          = .ok (sources, plan)
      ∧ Run.AnyOrder crossedDirectories plan.writes.toList)
    ∧ ∃ sources plan fs', ((Run.prepare (crossedSettings (.shadow ⟨"out"⟩))
        : ExceptT RunError (StateM FileSystem) (List ClassSource × Plan)).run crossedDirectories).1
          = .ok (sources, plan)
      ∧ (plan.writes.toList.forM Run.writeClass : ExceptT RunError (StateM FileSystem) Unit).run crossedDirectories
        = (.ok (), fs')
      ∧ ¬ Run.AnyOrder crossedDirectories plan.writes.toList := by
  have hproper : crossedDirectories.Proper := by decide +kernel
  have hunlinked : crossedDirectories.Unlinked := by decide +kernel
  constructor
  · rcases hprepare : ((Run.prepare (crossedSettings .inPlace)
      : ExceptT RunError (StateM FileSystem) (List ClassSource × Plan)).run crossedDirectories).1
      with error | ⟨sources, plan⟩
    · have hok : ((Run.prepare (crossedSettings .inPlace)
          : ExceptT RunError (StateM FileSystem) (List ClassSource × Plan)).run crossedDirectories).1.isOk = true := by
        decide +kernel
      rw [hprepare] at hok
      cases hok
    · exact ⟨sources, plan, rfl, (writes_anyOrder hproper hprepare rfl).1 rfl fun location target _ =>
        hunlinked location target⟩
  · obtain ⟨sources, plan, fs', bytes, bytes', hprepare, hwrites, hrun⟩ := prepare_crossedDirectories
    refine ⟨sources, plan, fs', hprepare, hrun, fun hany => ?_⟩
    have hvalid : ∀ names, names ≠ [] → (∀ name ∈ names, IsName name) →
        (Address.mk ⟨""⟩ [] names).Valid crossedDirectories :=
      fun names => Address.valid_of_names hproper (node?_root _) hunlinked
    have hfirst := hvalid ["out", "A.class"] (List.cons_ne_nil _ _) (by decide +kernel)
    have hsecond := hvalid ["out", "A.class.tmp", "X.class"] (List.cons_ne_nil _ _) (by decide +kernel)
    have hpath : (⟨"out/A.class"⟩ : Path) = (Address.mk ⟨""⟩ [] ["out", "A.class"]).path := by decide +kernel
    have hpath' : (⟨"out/A.class.tmp/X.class"⟩ : Path)
        = (Address.mk ⟨""⟩ [] ["out", "A.class.tmp", "X.class"]).path := by
      decide +kernel
    have hmissing : crossedDirectories.node? ["out", "A.class.tmp"] ≠ some .directory := by decide +kernel
    have hplaced : ∀ write ∈ plan.writes.toList, Run.Placed crossedDirectories write := by
      rw [hwrites]
      exact List.forall_mem_cons.mpr ⟨⟨_, hpath, hfirst⟩, List.forall_mem_singleton.mpr ⟨_, hpath', hsecond⟩⟩
    have hcrossed : Run.Crossed crossedDirectories plan.writes.toList := by
      rw [hwrites]
      exact ⟨_, List.mem_cons_self, _, List.mem_cons_of_mem _ List.mem_cons_self, _, _,
        Run.denotes_of_valid hpath hfirst,
        Run.denotes_of_valid hpath' hsecond, List.prefix_append ["out", "A.class.tmp"] ["X.class"], hmissing⟩
    exact ((writes_anyOrder hproper hprepare rfl).2 hplaced).mp hany (.inl hcrossed) _ fs' (List.Perm.refl _) hrun

end Retoken
