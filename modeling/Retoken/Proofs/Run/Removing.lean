import Mathlib.Data.Set.Card
import Retoken.Proofs.Run.Scanning
import Retoken.Run.Basic

/-!
# What removing stale classes does

Before classes are written to an output directory, those that are in it already are removed if the run is asked to. Exactly the class files below the output directory go then, and nothing else changes. The path of standard input is never taken for a directory, so an output directory of that name keeps its classes.
-/

namespace Retoken

open Retoken.FileSystem

variable {fs fs' state state' : FileSystem} {settings : Settings} {root : Path} {place location : Location}
  {listed : List (List String)} {cleaned : Nat}

/-- What stood at the given places is gone, and all else is as it was. -/
structure Removed (gone : Location → Prop) (fs fs' : FileSystem) : Prop where
  workingDirectory : fs'.workingDirectory = fs.workingDirectory
  removed : ∀ location, gone location → fs'.node? location = none
  others : ∀ location, ¬ gone location → fs'.node? location = fs.node? location

namespace Run

def Stale (fs : FileSystem) (settings : Settings) (location : Location) : Prop :=
  settings.clean = true ∧ ∃ output place names, settings.output = .shadow output
    ∧ output.same ClassSource.standardInput = false ∧ fs.resolve output = .ok (place, .directory)
    ∧ fs.ClassBelow place names ∧ location = place ++ names

theorem Stale.isFile (hstale : Stale fs settings location) : ∃ bytes, fs.node? location = some (.file bytes) := by
  obtain ⟨-, _, _, _, -, -, -, ⟨-, -, hfile⟩, rfl⟩ := hstale
  exact hfile

def removeAt (root : Path) (names : List String) : ExceptT RunError (StateM FileSystem) Unit :=
  (Disk.remove (root.join (.ofNames names))).adapt (RunError.staleOutput (root.join (.ofNames names)))

theorem removed_of_forM (hstraight : ∀ names ∈ listed, names ≠ [] ∧ Straight state root place names)
    (hrun : (listed.forM (removeAt root)).run state = (.ok (), state')) :
    Removed (fun location => ∃ names ∈ listed, location = place ++ names) state state' := by
  induction listed generalizing state with
  | nil =>
    cases hrun
    exact ⟨rfl, nofun, fun _ _ => rfl⟩
  | cons names listed ih =>
    obtain ⟨hne, hnames⟩ := hstraight names List.mem_cons_self
    obtain ⟨⟨⟩, middle, hfirst, hrest⟩ := run_bind_eq.mp hrun
    have hremove := run_change_eq.mp (run_adapt_eq.mp hfirst)
    have hkept : Kept (fun _ => True) state middle := hnames.remove_kept hne trivial hremove
    have hlater := ih (fun later hlater => by
      obtain ⟨hneLater, hstraightLater⟩ := hstraight later (List.mem_cons_of_mem _ hlater)
      exact ⟨hneLater, hstraightLater.kept hkept⟩) hrest
    obtain ⟨_, _, _, _, hentry, -, -, rfl⟩ := of_remove hremove
    rw [hnames.entry_eq hne hentry] at hlater
    have hlocation : place ++ names ≠ [] := List.append_ne_nil_of_right_ne_nil _ hne
    refine ⟨hlater.workingDirectory, ?_, ?_⟩
    · rintro location ⟨found, hfound, rfl⟩
      by_cases hgone : ∃ later ∈ listed, place ++ found = place ++ later
      · exact hlater.removed _ hgone
      · rw [hlater.others _ hgone, node?_erase hlocation, if_pos]
        rcases List.mem_cons.mp hfound with rfl | hmem
        · rfl
        · exact absurd ⟨found, hmem, rfl⟩ hgone
    · intro location hstays
      rw [hlater.others, node?_erase hlocation, if_neg]
      · rintro rfl
        exact hstays ⟨names, List.mem_cons_self, rfl⟩
      · rintro ⟨later, hmem, rfl⟩
        exact hstays ⟨later, List.mem_cons_of_mem _ hmem, rfl⟩

theorem removeClasses_eq_ok (hproper : fs.Proper)
    (hrun : (removeClasses root : ExceptT RunError (StateM FileSystem) Nat).run fs = (.ok cleaned, fs')) :
    cleaned = 0 ∧ fs' = fs ∧ (fs.isDirectory root = false ∨ root.same ClassSource.standardInput = true)
      ∨ root.same ClassSource.standardInput = false
        ∧ ∃ (place : Location) (listed : List (List String)), fs.resolve root = .ok (place, .directory)
        ∧ listed.Nodup ∧ (∀ names, names ∈ listed ↔ fs.ClassBelow place names) ∧ cleaned = listed.length
        ∧ Removed (fun location => ∃ names ∈ listed, location = place ++ names) fs fs' := by
  obtain ⟨sources, same, hscan, hrun⟩ := run_bind_eq.mp hrun
  obtain ⟨hfound, rfl⟩ := Prod.ext_iff.mp hscan
  rw [ClassSource.scan_looks root fs rfl] at hrun
  obtain ⟨⟨⟩, after, hremove, hcount⟩ := run_bind_eq.mp hrun
  obtain ⟨hcleaned, rfl⟩ := Prod.mk.inj hcount
  rcases ClassSource.scan_cases hfound with ⟨rfl, hnothing⟩ | ⟨hroot, place, listed, hresolve, hnodup, hlisted, rfl⟩
  · cases hremove
    exact .inl ⟨(Except.ok.inj hcleaned).symm, rfl, hnothing⟩
  · refine .inr ⟨hroot, place, listed, hresolve, hnodup, hlisted, ?_, ?_⟩
    · rw [← Except.ok.inj hcleaned, List.length_map]
    · rw [List.forM_eq_forM, List.forM_map, ← List.forM_eq_forM] at hremove
      refine removed_of_forM (fun names hnames => ?_) hremove
      obtain ⟨hne, -, bytes, hnode⟩ := (hlisted names).mp hnames
      have hfound : ClassSource.Found fs [root] ⟨root, .ofNames names⟩ names :=
        ⟨List.mem_singleton.mpr rfl, rfl, place, bytes, hresolve, hne, hnode⟩
      exact ⟨hne, hfound.straight hproper hresolve⟩

theorem stale_iff {output : Path} (hclean : settings.clean = true) (houtput : settings.output = .shadow output)
    (hroot : output.same ClassSource.standardInput = false) (hresolve : fs.resolve output = .ok (place, .directory)) :
    Stale fs settings location ↔ ∃ names, fs.ClassBelow place names ∧ location = place ++ names := by
  constructor
  · rintro ⟨-, other, place', names, hother, -, hresolve', hbelow, rfl⟩
    rw [houtput] at hother
    cases hother
    rw [hresolve] at hresolve'
    cases hresolve'
    exact ⟨names, hbelow, rfl⟩
  · rintro ⟨names, hbelow, rfl⟩
    exact ⟨hclean, output, place, names, houtput, hroot, hresolve, hbelow, rfl⟩

theorem ncard_stale {output : Path} (hclean : settings.clean = true) (houtput : settings.output = .shadow output)
    (hroot : output.same ClassSource.standardInput = false) (hresolve : fs.resolve output = .ok (place, .directory)) :
    {location | Stale fs settings location}.ncard = {names | fs.ClassBelow place names}.ncard := by
  have himage : {location | Stale fs settings location} = (place ++ ·) '' {names | fs.ClassBelow place names} := by
    ext location
    rw [Set.mem_ofPred_eq, stale_iff hclean houtput hroot hresolve]
    simp [eq_comm]
  rw [himage, Set.ncard_image_of_injective _ (List.append_right_injective place)]

theorem not_stale {output : Path} (houtput : settings.output = .shadow output)
    (hroot : output.same ClassSource.standardInput = true) : ¬ Stale fs settings location := by
  rintro ⟨-, other, _, _, hother, hkept, -⟩
  rw [houtput] at hother
  cases hother
  rw [hroot] at hkept
  cases hkept

theorem ncard_below (hnodup : listed.Nodup) (place : Location) :
    {location | ∃ names ∈ listed, location = place ++ names}.ncard = listed.length := by
  have hset : {location | ∃ names ∈ listed, location = place ++ names} = (listed.map (place ++ ·)).toFinset := by
    ext location
    simp [eq_comm]
  have hdistinct := hnodup.map (List.append_right_injective place)
  rw [hset, Set.ncard_coe_finset, List.toFinset_card_of_nodup hdistinct, List.length_map]

/-- Removing the stale classes, if it succeeds, removes just them and counts them. -/
theorem removeStale_eq_ok (hproper : fs.Proper)
    (hrun : (removeStale settings : ExceptT RunError (StateM FileSystem) Nat).run fs = (.ok cleaned, fs')) :
    Removed (Stale fs settings) fs fs' ∧ cleaned = {location | Stale fs settings location}.ncard := by
  have hnothing : (∀ location, ¬ Stale fs settings location) → fs' = fs → cleaned = 0 →
      Removed (Stale fs settings) fs fs' ∧ cleaned = {location | Stale fs settings location}.ncard := by
    rintro hnone rfl rfl
    have hempty : {location | Stale fs' settings location} = ∅ := Set.eq_empty_iff_forall_notMem.mpr hnone
    refine ⟨⟨rfl, fun location hstale => absurd hstale (hnone location), fun _ _ => rfl⟩, ?_⟩
    rw [hempty, Set.ncard_empty]
  -- Nothing is removed without an output directory to clean, or if the scan does not look into it.
  rw [removeStale] at hrun
  split at hrun
  case h_1 root hclean hroot =>
    have houtput : settings.output = .shadow root := by
      cases houtput : settings.output <;> rw [houtput] at hroot <;> cases hroot
      rfl
    rcases removeClasses_eq_ok hproper hrun with ⟨hcount, hsame, hskipped⟩ | ⟨hroot, place, listed, hresolve, hnodup,
      hlisted, hcount, hremoved⟩
    · refine hnothing ?_ hsame hcount
      rintro location ⟨-, output, place, names, hother, hroot, hresolve, -⟩
      rw [houtput] at hother
      cases hother
      rcases hskipped with hdirectory | hinput
      · rw [isDirectory, hresolve] at hdirectory
        cases hdirectory
      · rw [hinput] at hroot
        cases hroot
    · have hstale : Stale fs settings = fun location => ∃ names ∈ listed, location = place ++ names := by
        funext location
        simp only [stale_iff hclean houtput hroot hresolve, hlisted]
      refine ⟨?_, ?_⟩
      · rw [hstale]
        exact hremoved
      · rw [hcount, hstale]
        exact (ncard_below hnodup place).symm
  case h_2 root? hother =>
    cases hrun
    refine hnothing ?_ rfl rfl
    rintro location ⟨hclean, output, -, -, houtput, -⟩
    rw [houtput] at hother
    exact hother output hclean rfl

end Run

end Retoken
