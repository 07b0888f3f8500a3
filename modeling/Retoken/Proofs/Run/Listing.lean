import Retoken.Proofs.FileSystem.Components
import Retoken.Proofs.Run.Aborting

/-!
# Each class is listed once

Scanning several directories lists each class file below any of them exactly once, under the first directory that reaches it, and `Grouped` says in which order. A file is told from another by its path without links, so it does not matter in how many ways the directories lead to it: they may be given twice, lie in each other or be reached through links.

Where all directories can be listed, the classes found are the classes below the directories one after the other, of which each file is kept the first time. The induction is on the directories, given which of them came earlier.
-/

namespace Retoken

open Retoken.FileSystem Retoken.Path

variable {α β : Type} {fs : FileSystem} {root : Path} {roots earlier : List Path} {source : ClassSource}
  {sources : List ClassSource} {names : List String} {location : Location}

/-! ### What is kept the first time -/

theorem eraseDupsBy_append {r : α → α → Bool} {first : List α} (second : List α)
    (hdistinct : first.Pairwise fun one other => r other one = false) :
    (first ++ second).eraseDupsBy r
      = first ++ (second.filter fun item => first.all fun one => !r item one).eraseDupsBy r := by
  induction first generalizing second with
  | nil =>
    simp only [List.all_nil, List.filter_true, List.nil_append]
  | cons item first ih =>
    obtain ⟨hitem, hfirst⟩ := List.pairwise_cons.mp hdistinct
    have hkept : first.filter (fun other => decide (r other item = false)) = first :=
      List.filter_eq_self.mpr fun other hother => decide_eq_true (hitem other hother)
    rw [List.cons_append, List.eraseDupsBy_cons, List.filter_append, hkept, ih _ hfirst, List.filter_filter,
      List.cons_append]
    congr 3
    refine List.filter_congr fun other _ => ?_
    rw [List.all_cons, Bool.and_comm]
    cases r other item <;> rfl

theorem eraseDupsBy_map (f : α → β) (r : β → β → Bool) (items : List α) :
    (items.map f).eraseDupsBy r = (items.eraseDupsBy fun one other => r (f one) (f other)).map f := by
  induction hlength : items.length using Nat.strongRecOn generalizing items with
  | _ length ih =>
    cases items with
    | nil => rfl
    | cons item items =>
      have hshorter := List.length_filter_le ((fun other => decide (r other (f item) = false)) ∘ f) items
      rw [List.length_cons] at hlength
      rw [List.map_cons, List.eraseDupsBy_cons, List.eraseDupsBy_cons, List.map_cons, List.filter_map]
      exact congrArg (f item :: ·) (ih _ (by omega) _ rfl)

namespace ClassSource

/-! ### The classes below one directory -/

/-- What is below a directory can be listed: it does not stand for standard input, and no path below it is too long. -/
def Walkable (fs : FileSystem) (root : Path) : Prop :=
  fs.isDirectory root = true → root.same standardInput = false ∧ ∃ files, fs.filesBelow root = .ok files

theorem isOk_filesBelow : (fs.filesBelow root).isOk = true ↔ ∃ files, fs.filesBelow root = .ok files := by
  cases fs.filesBelow root with
  | error error => exact iff_of_false Bool.false_ne_true nofun
  | ok files => exact iff_of_true rfl ⟨files, rfl⟩

instance (fs : FileSystem) (root : Path) : Decidable (Walkable fs root) :=
  decidable_of_iff (fs.isDirectory root = true → root.same standardInput = false ∧ (fs.filesBelow root).isOk = true)
    (imp_congr_right fun _ => and_congr_right fun _ => isOk_filesBelow)

/-- A path reaches a class file if it leads to a directory that the file lies below. -/
def Reaches (fs : FileSystem) (root : Path) (location : Location) : Prop :=
  ∃ directory names, fs.resolve root = .ok (directory, .directory) ∧ fs.ClassBelow directory names
    ∧ location = directory ++ names

def namesIn (fs : FileSystem) (root : Path) : List (List String) :=
  if fs.isDirectory root then
    (((fs.filesBelow root).toOption.getD []).filter fun names => (Path.ofNames names).isClassFile).mergeSort namesLe
  else []

def classesIn (fs : FileSystem) (root : Path) : List ClassSource :=
  (namesIn fs root).map fun names => ⟨root, .ofNames names⟩

theorem mem_namesIn (hwalk : Walkable fs root) :
    names ∈ namesIn fs root ↔ ∃ directory, fs.resolve root = .ok (directory, .directory)
      ∧ fs.ClassBelow directory names := by
  rw [namesIn]
  split
  case isTrue hdirectory =>
    obtain ⟨-, files, hfiles⟩ := hwalk hdirectory
    obtain ⟨directory, hresolve, -, hlisted⟩ := exists_of_filesBelow hfiles
    rw [hfiles, List.mem_mergeSort, List.mem_filter]
    change names ∈ files ∧ _ ↔ _
    rw [hlisted]
    constructor
    · rintro ⟨⟨hne, hfile⟩, hclass⟩
      exact ⟨directory, hresolve, hne, hclass, hfile⟩
    · rintro ⟨_, hother, hne, hclass, hfile⟩
      rw [hresolve] at hother
      cases hother
      exact ⟨⟨hne, hfile⟩, hclass⟩
  case isFalse hother =>
    refine iff_of_false List.not_mem_nil ?_
    rintro ⟨directory, hresolve, -⟩
    exact hother (isDirectory_eq_true.mpr ⟨directory, hresolve⟩)

theorem namesLe_total (names others : List String) : (namesLe names others || namesLe others names) = true := by
  have hswap : compare others names = (compare names others).swap := Std.OrientedCmp.eq_swap
  rw [namesLe, namesLe, hswap]
  cases compare names others <;> rfl

theorem compare_eq_lt {others : List String} :
    compare names others = .lt ↔ namesLe names others = true ∧ names ≠ others := by
  have hequal : compare names others = .eq ↔ names = others := Std.LawfulEqCmp.compare_eq_iff_eq
  rw [namesLe, Ne, ← hequal]
  cases compare names others <;> simp

theorem namesIn_sorted (fs : FileSystem) (root : Path) :
    (namesIn fs root).Pairwise fun names others => compare names others = .lt := by
  rw [namesIn]
  split
  case isTrue =>
    have hnodup : ((fs.filesBelow root).toOption.getD []).Nodup := by
      cases hfiles : fs.filesBelow root with
      | error error => exact List.nodup_nil
      | ok files =>
        obtain ⟨_, _, hnodup, _⟩ := exists_of_filesBelow hfiles
        exact hnodup
    have hsorted := List.pairwise_mergeSort (fun _ _ _ => Std.TransCmp.isLE_trans) namesLe_total
      (((fs.filesBelow root).toOption.getD []).filter fun names => (Path.ofNames names).isClassFile)
    have hdistinct := (List.mergeSort_perm _ namesLe).nodup_iff.mpr
      (hnodup.filter fun names => (Path.ofNames names).isClassFile)
    exact (hsorted.and hdistinct).imp fun hboth => compare_eq_lt.mpr hboth
  case isFalse => exact List.Pairwise.nil

theorem scan_of_walkable (hwalk : Walkable fs root) :
    (scan root : ExceptT RunError (StateM FileSystem) (List ClassSource)).run fs = (.ok (classesIn fs root), fs) := by
  refine Prod.ext ?_ (scan_looks root fs rfl)
  refine (run_bind_eq_ok (Maintains.lift fun _ hsame => hsame)).mpr ⟨fs.isDirectory root, rfl, ?_⟩
  cases hdirectory : fs.isDirectory root with
  | false =>
    have hnone : classesIn fs root = [] := by
      rw [classesIn, namesIn, hdirectory]
      rfl
    rw [hnone]
    rfl
  | true =>
    obtain ⟨hroot, files, hfiles⟩ := hwalk hdirectory
    rw [hroot]
    refine (run_bind_eq_ok (Maintains.adapt (Maintains.look _))).mpr ⟨files, run_adapt_eq_ok.mpr hfiles, ?_⟩
    rw [classesIn, namesIn, if_pos hdirectory, hfiles]
    rfl

theorem flatMapM_scan_of_walkable (hwalk : ∀ root ∈ roots, Walkable fs root) :
    (roots.flatMapM scan : ExceptT RunError (StateM FileSystem) (List ClassSource)).run fs
      = (.ok (roots.flatMap (classesIn fs)), fs) := by
  induction roots with
  | nil => rfl
  | cons root roots ih =>
    obtain ⟨hroot, hroots⟩ := List.forall_mem_cons.mp hwalk
    rw [List.flatMapM_cons, run_bind_of_ok (scan_of_walkable hroot), run_bind_of_ok (ih hroots)]
    rfl

/-! ### Files that are told from each other -/

/-- Whether two sources are the same file as far as is known. -/
def sameFile (fs : FileSystem) (one other : ClassSource) : Bool :=
  identityIn fs one == identityIn fs other

theorem scanAll_of_walkable (hwalk : ∀ root ∈ roots, Walkable fs root) :
    (scanAll roots : ExceptT RunError (StateM FileSystem) (List ClassSource)).run fs
      = (.ok ((roots.flatMap (classesIn fs)).eraseDupsBy (sameFile fs)), fs) := by
  rw [scanAll, run_bind_of_ok (flatMapM_scan_of_walkable hwalk), run_bind_mapM fun source _ => identity_looks source]
  have hkeys : (roots.flatMap (classesIn fs)).zip ((roots.flatMap (classesIn fs)).map fun source =>
        ((identity source : StateM FileSystem (List Path.Component)) fs).1)
      = (roots.flatMap (classesIn fs)).map fun source => (source, identityIn fs source) := by
    rw [List.map_prod_left_eq_zip]
    rfl
  change (Except.ok (List.map _ (List.eraseDupsBy _ (List.zip _ _))), fs) = _
  rw [hkeys, eraseDupsBy_map, List.map_map]
  simp only [Function.comp_def, List.map_id']
  rfl

theorem mem_classesIn (hwalk : Walkable fs root) :
    source ∈ classesIn fs root ↔ ∃ directory names, fs.resolve root = .ok (directory, .directory)
      ∧ fs.ClassBelow directory names ∧ source = ⟨root, .ofNames names⟩ := by
  rw [classesIn, List.mem_map]
  constructor
  · rintro ⟨names, hnames, rfl⟩
    obtain ⟨directory, hresolve, hbelow⟩ := (mem_namesIn hwalk).mp hnames
    exact ⟨directory, names, hresolve, hbelow, rfl⟩
  · rintro ⟨directory, names, hresolve, hbelow, rfl⟩
    exact ⟨names, (mem_namesIn hwalk).mpr ⟨directory, hresolve, hbelow⟩, rfl⟩

def isFresh (fs : FileSystem) (earlier : List Path) (source : ClassSource) : Bool :=
  (earlier.flatMap (classesIn fs)).all fun one => !sameFile fs source one

/-- How classes are listed after those of some earlier directories: directory by directory, and for each the classes below it that no earlier directory reaches, in strictly ascending order. -/
inductive Grouped (fs : FileSystem) : List Path → List Path → List ClassSource → Prop
  | nil {earlier : List Path} : Grouped fs earlier [] []
  | cons {earlier roots : List Path} {root : Path} {listed : List (List String)} {later : List ClassSource}
      (hsorted : listed.Pairwise fun names others => compare names others = .lt)
      (hlisted : ∀ names, names ∈ listed ↔ ∃ directory, fs.resolve root = .ok (directory, .directory)
        ∧ fs.ClassBelow directory names ∧ ∀ other ∈ earlier, ¬ Reaches fs other (directory ++ names))
      (hlater : Grouped fs (earlier ++ [root]) roots later) :
      Grouped fs earlier (root :: roots) (listed.map (fun names => ⟨root, .ofNames names⟩) ++ later)

section

variable {directory directory' : Location} {others : List String} {otherRoot : Path}
variable (hproper : fs.Proper) (hnameable : fs.Nameable)

include hproper hnameable

theorem canonical_of_below (hresolve : fs.resolve root = .ok (directory, .directory))
    (hbelow : fs.ClassBelow directory names) :
    fs.canonical (root.join (.ofNames names)) = .ok (pathTo (directory ++ names)) := by
  obtain ⟨hne, -, bytes, hnode⟩ := hbelow
  exact canonical_join hproper hnameable hresolve hne hnode nofun

omit hnameable in
theorem isName_of_below (hbelow : fs.ClassBelow directory names) : ∀ name ∈ directory ++ names, IsName name := by
  obtain ⟨-, -, bytes, hnode⟩ := hbelow
  exact hproper.names _ _ hnode

theorem identityIn_of_below (hresolve : fs.resolve root = .ok (directory, .directory))
    (hbelow : fs.ClassBelow directory names) :
    identityIn fs ⟨root, .ofNames names⟩ = .root :: (directory ++ names).map .name := by
  have hcanonical : fs.canonical (ClassSource.mk root (.ofNames names)).path = .ok (pathTo (directory ++ names)) :=
    canonical_of_below hproper hnameable hresolve hbelow
  rw [identityIn_of_canonical hcanonical, components_pathTo (isName_of_below hproper hbelow)]

/-- Two classes are the same file if they stand at the same location. -/
theorem sameFile_iff (hresolve : fs.resolve root = .ok (directory, .directory)) (hbelow : fs.ClassBelow directory names)
    (hresolve' : fs.resolve otherRoot = .ok (directory', .directory)) (hbelow' : fs.ClassBelow directory' others) :
    sameFile fs ⟨root, .ofNames names⟩ ⟨otherRoot, .ofNames others⟩ = true
      ↔ directory ++ names = directory' ++ others := by
  rw [sameFile, identityIn_of_below hproper hnameable hresolve hbelow,
    identityIn_of_below hproper hnameable hresolve' hbelow',
    beq_iff_eq, List.cons_inj_right, (List.map_injective_iff.mpr name_injective).eq_iff]

theorem isFresh_iff (hearlier : ∀ root ∈ earlier, Walkable fs root)
    (hresolve : fs.resolve root = .ok (directory, .directory)) (hbelow : fs.ClassBelow directory names) :
    isFresh fs earlier ⟨root, .ofNames names⟩ = true ↔ ∀ other ∈ earlier, ¬ Reaches fs other (directory ++ names) := by
  rw [isFresh, List.all_eq_true]
  constructor
  · rintro hfresh other hother ⟨directory', others, hresolve', hbelow', hsame⟩
    have hmem : ⟨other, .ofNames others⟩ ∈ earlier.flatMap (classesIn fs) :=
      List.mem_flatMap.mpr ⟨other, hother, (mem_classesIn (hearlier other hother)).mpr ⟨_, _, hresolve', hbelow', rfl⟩⟩
    have hdiffer := hfresh _ hmem
    rw [(sameFile_iff hproper hnameable hresolve hbelow hresolve' hbelow').mpr hsame] at hdiffer
    cases hdiffer
  · intro hunreached one hone
    obtain ⟨other, hother, hone⟩ := List.mem_flatMap.mp hone
    obtain ⟨directory', others, hresolve', hbelow', rfl⟩ := (mem_classesIn (hearlier other hother)).mp hone
    rw [Bool.not_eq_true', Bool.eq_false_iff, Ne, sameFile_iff hproper hnameable hresolve hbelow hresolve' hbelow']
    exact fun hsame => hunreached other hother ⟨directory', others, hresolve', hbelow', hsame⟩

theorem classesIn_distinct (hwalk : Walkable fs root) :
    (classesIn fs root).Pairwise fun one other => sameFile fs other one = false := by
  rw [classesIn, List.pairwise_map]
  refine (namesIn_sorted fs root).imp_of_mem fun {names others} hnames hothers hless => ?_
  obtain ⟨directory, hresolve, hbelow⟩ := (mem_namesIn hwalk).mp hnames
  obtain ⟨directory', hresolve', hbelow'⟩ := (mem_namesIn hwalk).mp hothers
  rw [Bool.eq_false_iff, Ne, sameFile_iff hproper hnameable hresolve' hbelow' hresolve hbelow]
  rw [hresolve] at hresolve'
  cases hresolve'
  exact fun hsame => (compare_eq_lt.mp hless).2 (List.append_cancel_left hsame).symm

end

theorem isFresh_eq_true : isFresh fs earlier source = true
    ↔ ∀ root ∈ earlier, ∀ one ∈ classesIn fs root, identityIn fs source ≠ identityIn fs one := by
  rw [isFresh, List.all_eq_true]
  constructor
  · intro hfresh root hroot one hone
    have hdiffer := hfresh one (List.mem_flatMap.mpr ⟨root, hroot, hone⟩)
    rw [Bool.not_eq_true'] at hdiffer
    exact beq_eq_false_iff_ne.mp hdiffer
  · intro hdiffer one hone
    obtain ⟨root, hroot, hone⟩ := List.mem_flatMap.mp hone
    rw [Bool.not_eq_true']
    exact beq_eq_false_iff_ne.mpr (hdiffer root hroot one hone)

/-- A class is fresh after one more directory if it differs from those classes of the directory that were fresh themselves. -/
theorem isFresh_append (earlier : List Path) (root : Path) (source : ClassSource) :
    isFresh fs (earlier ++ [root]) source
      = ((((classesIn fs root).filter (isFresh fs earlier)).all fun one =>
        !sameFile fs source one) && isFresh fs earlier source) := by
  rw [Bool.eq_iff_iff, Bool.and_eq_true, List.all_eq_true, and_comm]
  constructor
  · intro hfresh
    refine ⟨isFresh_eq_true.mpr fun other hother => ?_, fun one hone => ?_⟩
    · exact isFresh_eq_true.mp hfresh other (List.mem_append_left [root] hother)
    · rw [Bool.not_eq_true']
      exact beq_eq_false_iff_ne.mpr
        (isFresh_eq_true.mp hfresh root List.mem_concat_self one (List.mem_filter.mp hone).1)
  · rintro ⟨hfresh, hall⟩
    refine isFresh_eq_true.mpr fun other hother one hone hsame => ?_
    rcases List.mem_append.mp hother with hbefore | hlast
    · exact isFresh_eq_true.mp hfresh other hbefore one hone hsame
    · rw [List.mem_singleton.mp hlast] at hone
      -- what is the same file as a fresh class is fresh, so `one` is among the classes compared
      have hone' : isFresh fs earlier one = true :=
        isFresh_eq_true.mpr fun before hbefore known hknown =>
          hsame ▸ isFresh_eq_true.mp hfresh before hbefore known hknown
      have hdiffer := hall one (List.mem_filter.mpr ⟨hone, hone'⟩)
      rw [Bool.not_eq_true'] at hdiffer
      exact beq_eq_false_iff_ne.mp hdiffer hsame

/-- Of the classes below the directories one after the other, those that are kept are grouped. -/
theorem grouped_of_walkable (hproper : fs.Proper) (hnameable : fs.Nameable)
    (hearlier : ∀ root ∈ earlier, Walkable fs root) (hwalk : ∀ root ∈ roots, Walkable fs root) :
    Grouped fs earlier roots
      (((roots.flatMap (classesIn fs)).filter (isFresh fs earlier)).eraseDupsBy (sameFile fs)) := by
  induction roots generalizing earlier with
  | nil => exact .nil
  | cons root roots ih =>
    obtain ⟨hroot, hroots⟩ := List.forall_mem_cons.mp hwalk
    have hdistinct := (classesIn_distinct hproper hnameable hroot).filter (isFresh fs earlier)
    have hearlier' : ∀ other ∈ earlier ++ [root], Walkable fs other := by
      intro other hother
      rcases List.mem_append.mp hother with hbefore | hlast
      · exact hearlier other hbefore
      · rw [List.mem_singleton.mp hlast]
        exact hroot
    rw [List.flatMap_cons, List.filter_append, eraseDupsBy_append _ hdistinct, List.filter_filter,
      ← List.filter_congr fun source _ => isFresh_append earlier root source, classesIn, List.filter_map]
    refine .cons ((namesIn_sorted fs root).filter _) (fun names => ?_) (ih hearlier' hroots)
    rw [List.mem_filter, mem_namesIn hroot]
    constructor
    · rintro ⟨⟨directory, hresolve, hbelow⟩, hfresh⟩
      exact ⟨directory, hresolve, hbelow, (isFresh_iff hproper hnameable hearlier hresolve hbelow).mp hfresh⟩
    · rintro ⟨directory, hresolve, hbelow, hunreached⟩
      exact ⟨⟨directory, hresolve, hbelow⟩, (isFresh_iff hproper hnameable hearlier hresolve hbelow).mpr hunreached⟩

/-! ### What is listed -/

namespace Grouped

theorem exists_of_mem (hgrouped : Grouped fs earlier roots sources) (hsource : source ∈ sources) :
    ∃ before after directory names, roots = before ++ source.root :: after
      ∧ fs.resolve source.root = .ok (directory, .directory) ∧ fs.ClassBelow directory names
        ∧ source.relative = .ofNames names
      ∧ ∀ root ∈ earlier ++ before, ¬ Reaches fs root (directory ++ names) := by
  induction hgrouped with
  | nil => cases hsource
  | @cons earlier roots root listed later _ hlisted _ ih =>
    rcases List.mem_append.mp hsource with hfirst | hlater
    · obtain ⟨names, hnames, rfl⟩ := List.mem_map.mp hfirst
      obtain ⟨directory, hresolve, hbelow, hunreached⟩ := (hlisted names).mp hnames
      refine ⟨[], roots, directory, names, rfl, hresolve, hbelow, rfl, ?_⟩
      rwa [List.append_nil]
    · obtain ⟨before, after, directory, names, rfl, hresolve, hbelow, hrelative, hunreached⟩ := ih hlater
      refine ⟨root :: before, after, directory, names, rfl, hresolve, hbelow, hrelative, ?_⟩
      rwa [List.append_assoc] at hunreached

/-- Every class that one of the directories reaches is listed, unless an earlier one reaches it too. -/
theorem exists_of_reaches (hgrouped : Grouped fs earlier roots sources) (hroot : root ∈ roots)
    (hreaches : Reaches fs root location) (hunreached : ∀ other ∈ earlier, ¬ Reaches fs other location) :
    ∃ source ∈ sources, ∃ directory names, fs.resolve source.root = .ok (directory, .directory)
      ∧ fs.ClassBelow directory names
      ∧ source.relative = .ofNames names ∧ location = directory ++ names := by
  induction hgrouped with
  | nil => cases hroot
  | @cons earlier roots first listed later _ hlisted _ ih =>
    by_cases hfirst : Reaches fs first location
    · obtain ⟨directory, names, hresolve, hbelow, rfl⟩ := hfirst
      have hnames := (hlisted names).mpr ⟨directory, hresolve, hbelow, hunreached⟩
      exact ⟨_, List.mem_append_left later (List.mem_map_of_mem hnames), directory, names, hresolve, hbelow, rfl, rfl⟩
    · rcases List.mem_cons.mp hroot with rfl | hroot
      · exact absurd hreaches hfirst
      · have hunreached' : ∀ other ∈ earlier ++ [first], ¬ Reaches fs other location := by
          intro other hother
          rcases List.mem_append.mp hother with hbefore | hlast
          · exact hunreached other hbefore
          · rwa [List.mem_singleton.mp hlast]
        obtain ⟨source, hsource, hfound⟩ := ih hroot hunreached'
        exact ⟨source, List.mem_append_right _ hsource, hfound⟩

end Grouped

/-- Every class below some directories is listed once. -/
structure ListedOnce (fs : FileSystem) (roots : List Path) (sources : List ClassSource) : Prop where
  grouped : Grouped fs [] roots sources
  /-- A class is listed under the first directory that reaches it. -/
  first : ∀ source ∈ sources, ∃ before after directory names, roots = before ++ source.root :: after
    ∧ fs.resolve source.root = .ok (directory, .directory) ∧ fs.ClassBelow directory names
      ∧ source.relative = .ofNames names
    ∧ fs.canonical source.path = .ok (pathTo (directory ++ names))
      ∧ ∀ root ∈ before, ¬ Reaches fs root (directory ++ names)
  complete : ∀ root ∈ roots, ∀ location, Reaches fs root location →
    ∃ source ∈ sources, fs.canonical source.path = .ok (pathTo location)
  distinct : sources.Pairwise fun one other => fs.canonical one.path ≠ fs.canonical other.path
  /-- A class goes to where its names lead from the output directory. -/
  below : ∀ source ∈ sources, ∃ names, names ≠ [] ∧ source.relative.components = names.map .name
    ∧ ∀ output, ((Output.shadow output).destination source).components = output.components ++ names.map .name
  inPlace : sources.Pairwise fun one other =>
    (Output.inPlace.destination one).components ≠ (Output.inPlace.destination other).components
  shadow : ∀ output, sources.Pairwise fun one other => one.root = other.root →
    ((Output.shadow output).destination one).components ≠ ((Output.shadow output).destination other).components

section

variable (hproper : fs.Proper) (hnameable : fs.Nameable)

include hproper hnameable

omit hnameable in
theorem components_destination_shadow {directory : Location} (hbelow : fs.ClassBelow directory names)
    (hrelative : source.relative = .ofNames names) (output : Path) :
    ((Output.shadow output).destination source).components = output.components ++ names.map .name := by
  rw [Output.destination, hrelative, components_join output hbelow.1]
  exact fun name hname => isName_of_below hproper hbelow name (List.mem_append_right directory hname)

theorem listedOnce_of_grouped (hgrouped : Grouped fs [] roots sources)
    (hdistinct : sources.Pairwise fun one other => identityIn fs one ≠ identityIn fs other) :
    ListedOnce fs roots sources := by
  have hfirst : ∀ source ∈ sources, ∃ before after directory names, roots = before ++ source.root :: after
      ∧ fs.resolve source.root = .ok (directory, .directory) ∧ fs.ClassBelow directory names
        ∧ source.relative = .ofNames names
      ∧ fs.canonical source.path = .ok (pathTo (directory ++ names))
      ∧ ∀ root ∈ before, ¬ Reaches fs root (directory ++ names) := by
    intro source hsource
    obtain ⟨before, after, directory, names, hroots, hresolve, hbelow, hrelative, hunreached⟩ :=
      hgrouped.exists_of_mem hsource
    refine ⟨before, after, directory, names, hroots, hresolve, hbelow, hrelative, ?_, hunreached⟩
    rw [path, hrelative]
    exact canonical_of_below hproper hnameable hresolve hbelow
  -- Every listed class has a path without links, so that what tells files from each other is that path alone.
  have hcanonical : sources.Pairwise fun one other => fs.canonical one.path ≠ fs.canonical other.path := by
    refine hdistinct.imp_of_mem fun {one other} hone hother hdiffer hsame => hdiffer ?_
    obtain ⟨_, _, _, _, -, -, -, -, hresolved, -⟩ := hfirst one hone
    rw [identityIn_of_canonical hresolved, identityIn_of_canonical (hsame ▸ hresolved)]
  have hinPlace : sources.Pairwise fun one other => one.path.components ≠ other.path.components := by
    refine hcanonical.imp_of_mem fun {one other} hone hother hdiffer hsame => hdiffer ?_
    obtain ⟨_, _, _, _, -, -, -, -, hresolved, -⟩ := hfirst one hone
    obtain ⟨_, _, _, _, -, -, -, -, hresolved', -⟩ := hfirst other hother
    rw [hresolved, hresolved', canonical_unique hsame hresolved hresolved']
  refine ⟨hgrouped, hfirst, fun root hroot location hreaches => ?_, hcanonical, fun source hsource => ?_, hinPlace,
    fun output => ?_⟩
  · obtain ⟨source, hsource, directory, names, hresolve, hbelow, hrelative, rfl⟩ :=
      hgrouped.exists_of_reaches hroot hreaches fun _ hother => absurd hother List.not_mem_nil
    refine ⟨source, hsource, ?_⟩
    rw [path, hrelative]
    exact canonical_of_below hproper hnameable hresolve hbelow
  · obtain ⟨_, _, directory, names, -, -, hbelow, hrelative, -⟩ := hfirst source hsource
    refine ⟨names, hbelow.1, ?_, components_destination_shadow hproper hbelow hrelative⟩
    rw [hrelative, components_ofNames hbelow.1]
    exact fun name hname => isName_of_below hproper hbelow name (List.mem_append_right directory hname)
  · refine hinPlace.imp_of_mem fun {one other} hone hother hdiffer hroot hsame => hdiffer ?_
    obtain ⟨_, _, _, names, -, -, hbelow, hrelative, -⟩ := hfirst one hone
    obtain ⟨_, _, _, others, -, -, hbelow', hrelative', -⟩ := hfirst other hother
    rw [components_destination_shadow hproper hbelow hrelative,
      components_destination_shadow hproper hbelow' hrelative',
      List.append_cancel_left_eq, (List.map_injective_iff.mpr name_injective).eq_iff] at hsame
    rw [path, path, hroot, hrelative, hrelative', hsame]

end

end ClassSource

/-- Two classes that are in each other's way were found below different directories, and are not replaced in place. -/
theorem ClassSource.ListedOnce.apart_of_collision {settings : Settings} {first second destination : Path}
    (hlisted : ListedOnce fs settings.roots sources) (hscan : Run.Scanned fs settings sources)
    (hrun : (runOn fs settings).1 = .error (.collision first second destination)) :
    settings.output ≠ .inPlace
      ∧ ∃ one ∈ sources, ∃ other ∈ sources, one.root ≠ other.root ∧ first = one.path ∧ second = other.path := by
  rcases run_error_cases hrun with ⟨-, hunscanned | ⟨scanned, hscanned, hhindered⟩⟩ | ⟨-, hlate, -⟩
  · cases hscan.symm.trans hunscanned
  · cases hscan.symm.trans hscanned
    obtain ⟨one, other, horder, hsame, rfl, rfl⟩ : ∃ one other, [one, other].Sublist sources
        ∧ (settings.output.destination one).components = (settings.output.destination other).components
        ∧ first = one.path ∧ second = other.path := by
      cases hhindered with
      | collision horder hsame =>
        obtain ⟨one, other, _, _, hsublist, -, -, rfl, rfl⟩ := Run.exists_of_sublist_writesOf horder
        exact ⟨one, other, hsublist, hsame, rfl, rfl⟩
    have hone : one ∈ sources := horder.subset List.mem_cons_self
    have hother : other ∈ sources := horder.subset (List.mem_cons_of_mem one (List.mem_singleton.mpr rfl))
    cases houtput : settings.output with
    | inPlace =>
      rw [houtput] at hsame
      exact absurd hsame (List.pairwise_pair.mp (hlisted.inPlace.sublist horder))
    | shadow output =>
      rw [houtput] at hsame
      refine ⟨nofun, one, hone, other, hother, fun hroot => ?_, rfl, rfl⟩
      exact List.pairwise_pair.mp ((hlisted.shadow output).sublist horder) hroot hsame
  · cases hlate

def overlappingDirectories : FileSystem where
  nodes := .ofList [
    (["again"], Node.link ⟨"in/a"⟩),
    (["in"], .directory),
    (["in", "a"], .directory),
    (["in", "a", "X.class"], .file [0xca, 0xfe])]

def overlappingRoots : List Path :=
  [⟨"none"⟩, ⟨"again"⟩, ⟨"in"⟩, ⟨"in/a"⟩]

end Retoken
