import Retoken.Proofs.FileSystem.Maintaining
import Retoken.Run.Source

/-!
# Which classes are found

Scanning a directory finds exactly the class files below it, along no links, and each of them once. Scanning several directories finds each file under the first of them that it is reached from.
-/

namespace Retoken

open Retoken.FileSystem

variable {ε α β : Type} {fs : FileSystem} {root : Path} {roots : List Path} {source : ClassSource}
  {sources : List ClassSource} {names : List String} {files : List (List String)} {place : Location}

/-! ### Files below a directory -/

namespace FileSystem

theorem namesBelow?_eq_some {directory location : Location} :
    namesBelow? directory location = some names ↔ location = directory ++ names ∧ names ≠ [] := by
  rw [namesBelow?]
  constructor
  · intro hbelow
    split at hbelow
    case isTrue hwithin =>
      obtain ⟨hwithin, hother⟩ := Bool.and_eq_true_iff.mp hwithin
      obtain ⟨rest, rfl⟩ := List.isPrefixOf_iff_prefix.mp hwithin
      rw [List.drop_left] at hbelow
      cases hbelow
      refine ⟨rfl, ?_⟩
      rintro rfl
      simp at hother
    case isFalse => cases hbelow
  · rintro ⟨rfl, hne⟩
    rw [if_pos, List.drop_left]
    simp [List.isPrefixOf_iff_prefix, hne]

theorem mem_below {directory : Location} {node : Node} :
    (names, node) ∈ fs.below directory ↔ names ≠ [] ∧ fs.node? (directory ++ names) = some node := by
  rw [below, List.mem_filterMap]
  constructor
  · rintro ⟨⟨location, found⟩, hfound, hnames⟩
    obtain ⟨names, hbelow, heq⟩ := Option.map_eq_some_iff.mp hnames
    cases heq
    obtain ⟨rfl, hne⟩ := namesBelow?_eq_some.mp hbelow
    refine ⟨hne, ?_⟩
    rw [node?_of_ne_nil (List.append_ne_nil_of_right_ne_nil _ hne)]
    exact Std.ExtTreeMap.mem_toList_iff_getElem?_eq_some.mp hfound
  · rintro ⟨hne, hnode⟩
    rw [node?_of_ne_nil (List.append_ne_nil_of_right_ne_nil _ hne)] at hnode
    refine ⟨(directory ++ names, node), Std.ExtTreeMap.mem_toList_iff_getElem?_eq_some.mpr hnode, ?_⟩
    rw [Option.map_eq_some_iff]
    exact ⟨names, namesBelow?_eq_some.mpr ⟨rfl, hne⟩, rfl⟩

theorem nodup_below (fs : FileSystem) (directory : Location) :
    (fs.below directory).Pairwise fun one other => one.1 ≠ other.1 := by
  refine List.Pairwise.filterMap _ ?_ Std.ExtTreeMap.distinct_keys_toList
  rintro ⟨location, node⟩ ⟨location', node'⟩ hother ⟨names, _⟩ hone ⟨names', _⟩ htwo rfl
  obtain ⟨_, hnames, ⟨⟩⟩ := Option.map_eq_some_iff.mp hone
  obtain ⟨_, hnames', ⟨⟩⟩ := Option.map_eq_some_iff.mp htwo
  obtain ⟨rfl, -⟩ := namesBelow?_eq_some.mp hnames
  obtain ⟨rfl, -⟩ := namesBelow?_eq_some.mp hnames'
  exact hother (Std.LawfulEqCmp.compare_eq_iff_eq.mpr rfl)

theorem exists_of_filesBelow (hfiles : fs.filesBelow root = .ok files) :
    ∃ directory, fs.resolve root = .ok (directory, .directory) ∧ files.Nodup
      ∧ ∀ names, names ∈ files ↔ names ≠ [] ∧ ∃ bytes, fs.node? (directory ++ names) = some (.file bytes) := by
  obtain ⟨⟨directory, node⟩, hresolve, hfiles⟩ := except_bind_eq_ok.mp hfiles
  have hdirectory : node = .directory := by
    by_contra hother
    change (if node != .directory then _ else _) = _ at hfiles
    rw [if_pos (bne_iff_ne.mpr hother)] at hfiles
    cases hfiles
  subst hdirectory
  change (_ >>= _) = _ at hfiles
  obtain ⟨⟨⟩, -, hfiles⟩ := except_bind_eq_ok.mp hfiles
  cases hfiles
  refine ⟨directory, mapError_eq_ok.mp hresolve, ?_, fun names => ?_⟩
  · refine List.Pairwise.filterMap _ ?_ (nodup_below fs directory)
    rintro ⟨names, node⟩ ⟨names', node'⟩ hother found hfound found' hfound'
    cases node <;> cases hfound
    cases node' <;> cases hfound'
    exact hother
  · rw [List.mem_filterMap]
    constructor
    · rintro ⟨⟨found, node⟩, hbelow, hfile⟩
      obtain ⟨hne, hnode⟩ := mem_below.mp hbelow
      cases node <;> cases hfile
      exact ⟨hne, _, hnode⟩
    · rintro ⟨hne, bytes, hnode⟩
      exact ⟨(names, .file bytes), mem_below.mpr ⟨hne, hnode⟩, rfl⟩

def ClassBelow (fs : FileSystem) (directory : Location) (names : List String) : Prop :=
  names ≠ [] ∧ (Path.ofNames names).isClassFile = true ∧ ∃ bytes, fs.node? (directory ++ names) = some (.file bytes)

end FileSystem

/-! ### Finding classes -/

namespace ClassSource

/-- A class source in a file system: a file below an input directory, at the given names. -/
structure Found (fs : FileSystem) (roots : List Path) (source : ClassSource) (names : List String) : Prop where
  root_mem : source.root ∈ roots
  relative : source.relative = .ofNames names
  file : ∃ directory bytes, fs.resolve source.root = .ok (directory, .directory) ∧ names ≠ []
    ∧ fs.node? (directory ++ names) = some (.file bytes)

theorem Found.ne_nil (hfound : Found fs roots source names) : names ≠ [] := by
  obtain ⟨_, _, _, hne, _⟩ := hfound.file
  exact hne

theorem Found.isName (hfound : Found fs roots source names) (hproper : fs.Proper) :
    ∀ name ∈ names, Path.IsName name := by
  obtain ⟨directory, bytes, _, _, hnode⟩ := hfound.file
  intro name hname
  exact hproper.names (directory ++ names) _ hnode name (List.mem_append_right _ hname)

theorem Found.straight {place : Location} (hfound : Found fs roots source names) (hproper : fs.Proper)
    (hplace : fs.resolve source.root = .ok (place, .directory)) : Straight fs source.root place names where
  rooted := .of_resolve hplace
  isName := hfound.isName hproper
  unlinked := by
    obtain ⟨directory, bytes, hdirectory, _, hnode⟩ := hfound.file
    rw [hplace] at hdirectory
    cases hdirectory
    intro below target _ hwithin hlink
    obtain ⟨rest, rfl⟩ := hwithin
    by_cases hrest : rest = []
    · rw [hrest, List.append_nil, hlink] at hnode
      cases hnode
    · rw [← List.append_assoc] at hnode
      rw [hproper.above hrest hnode] at hlink
      cases hlink

theorem Found.mono {others : List Path} (hfound : Found fs roots source names) (hsubset : roots ⊆ others) :
    Found fs others source names where
  root_mem := hsubset hfound.root_mem
  relative := hfound.relative
  file := hfound.file

theorem scan_looks (root : Path) :
    Maintains (· = fs) (scan root : ExceptT RunError (StateM FileSystem) (List ClassSource)).run := by
  refine Maintains.bind (Maintains.lift fun _ hsame => hsame) fun _ there _ _ => ?_
  cases !there || root.same standardInput with
  | true => exact Maintains.pure _
  | false => exact Maintains.bind (Maintains.adapt (Maintains.look _)) fun _ _ _ _ => Maintains.pure _

/-- Nothing is found below what is no directory and below the path of standard input, and otherwise every class file below the directory. -/
theorem scan_cases
    (hscan : ((scan root : ExceptT RunError (StateM FileSystem) (List ClassSource)).run fs).1 = .ok sources) :
    sources = [] ∧ (fs.isDirectory root = false ∨ root.same standardInput = true)
      ∨ root.same standardInput = false ∧ ∃ (directory : Location) (listed : List (List String)), fs.resolve root
        = .ok (directory, .directory)
        ∧ listed.Nodup ∧ (∀ names, names ∈ listed ↔ fs.ClassBelow directory names)
        ∧ sources = listed.map fun names => ⟨root, .ofNames names⟩ := by
  obtain ⟨there, hthere, hscan⟩ := (run_bind_eq_ok (Maintains.lift fun _ hsame => hsame)).mp hscan
  obtain rfl : fs.isDirectory root = there := Except.ok.inj hthere
  cases hskipped : !fs.isDirectory root || root.same standardInput with
  | true =>
    rw [hskipped] at hscan
    cases hscan
    refine .inl ⟨rfl, ?_⟩
    simpa using hskipped
  | false =>
    rw [hskipped] at hscan
    obtain ⟨files, hfiles, hscan⟩ := (run_bind_eq_ok (Maintains.adapt (Maintains.look _))).mp hscan
    cases hscan
    obtain ⟨directory, hresolve, hnodup, hlisted⟩ := exists_of_filesBelow (run_adapt_eq_ok.mp hfiles)
    refine .inr ⟨(Bool.or_eq_false_iff.mp hskipped).2, directory, _, hresolve, ?_, fun names => ?_, rfl⟩
    · exact (List.mergeSort_perm _ _).nodup_iff.mpr (hnodup.filter _)
    · rw [List.mem_mergeSort, List.mem_filter, hlisted, ClassBelow, and_right_comm, and_assoc]

/-- What is found where the class files are listed in their order already. -/
theorem scan_of_sorted (hdirectory : fs.isDirectory root = true) (hroot : root.same standardInput = false)
    (hfiles : fs.filesBelow root = .ok files)
    (hsorted : (files.filter fun names => (Path.ofNames names).isClassFile).Pairwise fun names others =>
      namesLe names others = true) :
    ((scan root : ExceptT RunError (StateM FileSystem) (List ClassSource)).run fs).1
      = .ok ((files.filter fun names => (Path.ofNames names).isClassFile).map fun names => ⟨root, .ofNames names⟩) := by
  refine (run_bind_eq_ok (Maintains.lift fun _ hsame => hsame)).mpr ⟨true, congrArg Except.ok hdirectory, ?_⟩
  rw [hroot]
  refine (run_bind_eq_ok (Maintains.adapt (Maintains.look _))).mpr ⟨files, run_adapt_eq_ok.mpr hfiles, ?_⟩
  dsimp only
  rw [List.mergeSort_of_pairwise hsorted]
  rfl

theorem found_of_mem_scan
    (hscan : ((scan root : ExceptT RunError (StateM FileSystem) (List ClassSource)).run fs).1 = .ok sources)
    (hsource : source ∈ sources) : ∃ names, Found fs [root] source names ∧ (Path.ofNames names).isClassFile = true := by
  rcases scan_cases hscan with ⟨rfl, -⟩ | ⟨-, directory, listed, hresolve, -, hlisted, rfl⟩
  · cases hsource
  · obtain ⟨names, hnames, rfl⟩ := List.mem_map.mp hsource
    obtain ⟨hne, hclass, bytes, hnode⟩ := (hlisted names).mp hnames
    exact ⟨names, ⟨List.mem_singleton.mpr rfl, rfl, directory, bytes, hresolve, hne, hnode⟩, hclass⟩

theorem flatMapM_scan_looks (roots : List Path) :
    Maintains (· = fs) (roots.flatMapM scan : ExceptT RunError (StateM FileSystem) (List ClassSource)).run := by
  induction roots with
  | nil => exact Maintains.pure _
  | cons root roots ih =>
    rw [List.flatMapM_cons]
    exact Maintains.bind (scan_looks root) fun _ _ _ _ => Maintains.bind ih fun _ _ _ _ => Maintains.pure _

theorem found_of_mem_flatMapM_scan
    (hscan : ((roots.flatMapM scan : ExceptT RunError (StateM FileSystem) (List ClassSource)).run fs).1 = .ok sources)
    (hsource : source ∈ sources) : ∃ names, Found fs roots source names ∧ (Path.ofNames names).isClassFile = true := by
  induction roots generalizing sources with
  | nil =>
    cases hscan
    cases hsource
  | cons root roots ih =>
    rw [List.flatMapM_cons] at hscan
    obtain ⟨first, hfirst, hscan⟩ := (run_bind_eq_ok (scan_looks root)).mp hscan
    obtain ⟨later, hlater, hscan⟩ := (run_bind_eq_ok (flatMapM_scan_looks roots)).mp hscan
    cases hscan
    rcases List.mem_append.mp hsource with hsource | hsource
    · obtain ⟨names, hfound, hclass⟩ := found_of_mem_scan hfirst hsource
      exact ⟨names, hfound.mono (List.cons_subset_cons root (List.nil_subset roots)), hclass⟩
    · obtain ⟨names, hfound, hclass⟩ := ih hlater hsource
      exact ⟨names, hfound.mono (List.subset_cons_self root roots), hclass⟩

theorem identity_looks (source : ClassSource) :
    ((identity source : StateM FileSystem (List Path.Component)) fs).2 = fs := by
  rw [identity]
  have hrun : ∀ next : Except OsError Path → StateM FileSystem (List Path.Component),
      ((Disk.canonical source.path : ExceptT OsError (StateM FileSystem) Path).run >>= next) fs
        = next (fs.canonical source.path) fs := fun _ => rfl
  rw [hrun]
  cases fs.canonical source.path <;> rfl

theorem mem_of_mem_eraseDupsBy {r : α → α → Bool} {items : List α} {item : α} (hitem : item ∈ items.eraseDupsBy r) :
    item ∈ items := by
  induction hlength : items.length using Nat.strongRecOn generalizing items with
  | _ length ih =>
    cases items with
    | nil => exact hitem
    | cons first items =>
      rw [List.eraseDupsBy_cons] at hitem
      rcases List.mem_cons.mp hitem with rfl | hitem
      · exact List.mem_cons_self
      · have hshorter := List.length_filter_le (fun other => decide (r other first = false)) items
        rw [List.length_cons] at hlength
        have hrest := ih _ (by omega) hitem rfl
        exact List.mem_cons_of_mem _ (List.mem_filter.mp hrest).1

theorem pairwise_eraseDupsBy {r : α → α → Bool} {items : List α} :
    (items.eraseDupsBy r).Pairwise fun one other => r other one = false := by
  induction hlength : items.length using Nat.strongRecOn generalizing items with
  | _ length ih =>
    cases items with
    | nil => exact List.Pairwise.nil
    | cons first items =>
      have hshorter := List.length_filter_le (fun other => decide (r other first = false)) items
      rw [List.length_cons] at hlength
      rw [List.eraseDupsBy_cons]
      refine List.pairwise_cons.mpr ⟨fun other hother => ?_, ih _ (by omega) rfl⟩
      exact of_decide_eq_true (List.mem_filter.mp (mem_of_mem_eraseDupsBy hother)).2

theorem scanAll_looks (roots : List Path) :
    Maintains (· = fs) (scanAll roots : ExceptT RunError (StateM FileSystem) (List ClassSource)).run := by
  refine Maintains.bind (flatMapM_scan_looks roots) fun _ _ _ _ => ?_
  exact Maintains.bind (mapM_looks fun source _ => identity_looks source) fun _ _ _ _ => Maintains.pure _

def identityIn (fs : FileSystem) (source : ClassSource) : List Path.Component :=
  ((identity source : StateM FileSystem (List Path.Component)) fs).1

theorem identityIn_of_canonical {resolved : Path} (hcanonical : fs.canonical source.path = .ok resolved) :
    identityIn fs source = resolved.components := by
  have hnext : ∀ next : Except OsError Path → StateM FileSystem (List Path.Component),
      ((Disk.canonical source.path : ExceptT OsError (StateM FileSystem) Path).run >>= next) fs
        = next (fs.canonical source.path) fs := fun _ => rfl
  rw [identityIn, identity, hnext, hcanonical]
  rfl

theorem scanAll_eq_ok
    (hscan : ((scanAll roots : ExceptT RunError (StateM FileSystem) (List ClassSource)).run fs).1 = .ok sources) :
    ∃ all, ((roots.flatMapM scan : ExceptT RunError (StateM FileSystem) (List ClassSource)).run fs).1 = .ok all
      ∧ sources = ((all.map fun source => (source, identityIn fs source)).eraseDupsBy
        fun one other => one.2 == other.2).map (·.1) := by
  obtain ⟨all, hall, hscan⟩ := (run_bind_eq_ok (flatMapM_scan_looks roots)).mp hscan
  rw [run_bind_mapM fun source _ => identity_looks source] at hscan
  cases hscan
  refine ⟨all, hall, ?_⟩
  rw [List.map_prod_left_eq_zip]
  rfl

theorem found_of_mem_scanAll
    (hscan : ((scanAll roots : ExceptT RunError (StateM FileSystem) (List ClassSource)).run fs).1 = .ok sources)
    (hsource : source ∈ sources) : ∃ names, Found fs roots source names ∧ (Path.ofNames names).isClassFile = true := by
  obtain ⟨all, hall, rfl⟩ := scanAll_eq_ok hscan
  obtain ⟨pair, hpair, rfl⟩ := List.mem_map.mp hsource
  obtain ⟨found, hfound, rfl⟩ := List.mem_map.mp (mem_of_mem_eraseDupsBy hpair)
  exact found_of_mem_flatMapM_scan hall hfound

/-- No file is found twice. -/
theorem scanAll_pairwise
    (hscan : ((scanAll roots : ExceptT RunError (StateM FileSystem) (List ClassSource)).run fs).1 = .ok sources) :
    sources.Pairwise fun one other => identityIn fs one ≠ identityIn fs other := by
  obtain ⟨all, -, rfl⟩ := scanAll_eq_ok hscan
  rw [List.pairwise_map]
  refine pairwise_eraseDupsBy.imp_of_mem fun {one other} hone hother hdiffer => ?_
  obtain ⟨_, -, rfl⟩ := List.mem_map.mp (mem_of_mem_eraseDupsBy hone)
  obtain ⟨_, -, rfl⟩ := List.mem_map.mp (mem_of_mem_eraseDupsBy hother)
  exact Ne.symm (beq_eq_false_iff_ne.mp hdiffer)

end ClassSource

end Retoken
