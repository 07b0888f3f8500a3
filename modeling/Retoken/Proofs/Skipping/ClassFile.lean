import Retoken.Proofs.Relocation.ClassFile
import Retoken.Proofs.Skipping.Members

/-!
# Class files in step

Two files that differ only in attributes that are stepped over are read with one result, and agree at every slot at which something is found, whether or not a site stands for it.
-/

namespace Retoken

open Reader

variable {bytes other : List UInt8} {pool : ConstantPool} {start start' : Cursor}

namespace ClassFile

def foundSlots (found : List Slot × Declaration StringSite) : List Slot :=
  found.1 ++ found.2.sites.map (·.slot)

variable (hlength : bytes.length = other.length)

theorem readSuperclass_inStep :
    InStep bytes other (readSuperclass pool) (Survey.behind u16 fun _ => ·) (fun a b => b = a) := by
  intro next start start' hnext halike
  refine (halike.read .u16 fun _ => hnext).bind ?_
  rintro _ afterIndex index afterIndex' ⟨rfl, halike⟩
  by_cases hnone : index = 0
  · rw [if_pos hnone]
    exact .pure ⟨rfl, halike⟩
  · rw [if_neg hnone]
    refine (Parallel.lift (pool.className index)).bind ?_
    rintro _ _ name _ ⟨-, rfl, rfl, rfl⟩
    exact .pure ⟨rfl, halike⟩

theorem className_inStep : InStep bytes other (do pool.className (← u16) : Reader String)
    (Survey.behind u16 fun _ => ·) (fun a b => b = a) := by
  intro next start start' hnext halike
  refine (halike.read .u16 fun _ => hnext).bind ?_
  rintro _ afterIndex index afterIndex' ⟨rfl, halike⟩
  refine (Parallel.lift (pool.className index)).imp ?_
  rintro _ _ name _ ⟨-, rfl, rfl, rfl⟩
  exact ⟨rfl, halike⟩

theorem eq_of_forall₂_sameSlots {α : Type} {slots : α → List Slot} {items items' : List α}
    (hsame : List.Forall₂ (SameSlots bytes other slots) items items') :
    items' = items ∧ ∀ item ∈ items, ∀ slot ∈ slots item, SlotAgrees bytes other slot := by
  induction hsame with
  | nil => exact ⟨rfl, nofun⟩
  | cons hhead _ ih =>
    obtain ⟨rfl, hslots⟩ := hhead
    obtain ⟨rfl, hrest⟩ := ih
    exact ⟨rfl, List.forall_mem_cons.mpr ⟨hslots, hrest⟩⟩

/-- A slot of the declaration is one of the parts that it is put together from. -/
theorem mem_parts_of_sites {pending : List PendingMethod} {methods : List BootstrapMethod}
    {declaration : Declaration StringSite} (hbare : ∀ one ∈ pending, one.method.instructions = [])
    (hcompletes : (pending.mapM fun method => method.complete pool methods) = .ok declaration.methods)
    {slot : Slot} (hslot : slot ∈ declaration.sites.map (·.slot)) :
    slot ∈ declaration.annotations.sites.map (·.slot) ∨ slot ∈ methods.flatMap BootstrapMethod.slots
      ∨ (∃ one ∈ pending, slot ∈ one.slots) ∨ ∃ field ∈ declaration.fields, slot ∈ field.slots := by
  obtain ⟨site, hsite, rfl⟩ := List.mem_map.mp hslot
  rcases Declaration.mem_sites.mp hsite with hown | hcall
  · rw [Declaration.ownSites, List.mem_append, List.mem_append] at hown
    rcases hown with hannotation | hmethod | hfield
    · exact .inl (List.mem_map_of_mem hannotation)
    · obtain ⟨method, hmethod, hown⟩ := List.mem_flatMap.mp hmethod
      obtain ⟨one, hone, hcomplete⟩ := exists_of_mem_mapM hcompletes hmethod
      have hslots := (PendingMethod.ownSlots_complete (hbare one hone) hcomplete).subset (List.mem_map_of_mem hown)
      exact .inr (.inr (.inl ⟨one, hone, hslots⟩))
    · obtain ⟨field, hfield, hown⟩ := List.mem_flatMap.mp hfield
      exact .inr (.inr (.inr ⟨field, hfield, List.mem_map_of_mem hown⟩))
  · obtain ⟨call, hcall, hsite⟩ := Declaration.mem_callArguments.mp hcall
    obtain ⟨method, hmethod, hcall⟩ := List.mem_flatMap.mp hcall
    obtain ⟨one, hone, hcomplete⟩ := exists_of_mem_mapM hcompletes hmethod
    obtain ⟨bootstrap, hbootstrap, -, hslots⟩ := PendingMethod.calls_complete (hbare one hone) hcomplete hcall
    exact .inr (.inl (List.mem_flatMap.mpr ⟨bootstrap, hbootstrap, hslots site hsite⟩))

include hlength

theorem readDeclaration_inStep (minor major : UInt16)
    (halike : Alike bytes other (Survey.declaration pool) start start') :
    Parallel (readDeclaration pool minor major start) (readDeclaration pool minor major start')
      fun a _ b _ => SameSlots bytes other foundSlots a b := by
  have hattributes := Survey.ahead_counted (fun _ => Survey.ahead_attr pool Survey.knownOnClasses)
    Survey.ahead_nil
  have hmethods := Survey.ahead_counted (fun _ => Survey.ahead_member pool Survey.knownOnMethods)
    hattributes
  have hfields := Survey.ahead_counted (fun _ => Survey.ahead_member pool Survey.knownOnFields)
    hmethods
  have hinterfaces := Survey.ahead_counted (fun _ hnext => Survey.ahead_behind .u16 fun _ => hnext) hfields
  rw [readDeclaration]
  refine (halike.read .u16 fun _ => Survey.ahead_behind .u16 fun _ => Survey.ahead_behind .u16 fun _ =>
    hinterfaces).bind ?_
  rintro _ afterAccess access afterAccess' ⟨rfl, halike⟩
  refine (halike.read .u16 fun _ => Survey.ahead_behind .u16 fun _ => hinterfaces).bind ?_
  rintro _ afterIndex index afterIndex' ⟨rfl, halike⟩
  refine (Parallel.lift (pool.className index)).bind ?_
  rintro _ _ name _ ⟨-, rfl, rfl, rfl⟩
  refine (readSuperclass_inStep hinterfaces halike).bind ?_
  rintro _ afterSuperclass superclass? afterSuperclass' ⟨rfl, halike⟩
  refine (InStep.counted className_inStep (fun _ hnext =>
    Survey.ahead_behind .u16 fun _ => hnext) hfields halike).bind ?_
  rintro interfaces afterInterfaces interfaces' afterInterfaces' ⟨hinterfacesSame, halike⟩
  obtain rfl : interfaces = interfaces' := List.forall₂_eq_eq_eq ▸ hinterfacesSame.imp fun _ _ => Eq.symm
  refine (InStep.counted (Field.read_inStep hlength) (fun _ => Survey.ahead_member _ _) hmethods halike).bind ?_
  rintro fields afterFields fields' afterFields' ⟨hfieldsSame, halike⟩
  obtain ⟨rfl, hfieldSlots⟩ := eq_of_forall₂_sameSlots hfieldsSame
  refine (InStep.counted (PendingMethod.read_inStep hlength) (fun _ => Survey.ahead_member _ _)
    hattributes halike).with_run.bind ?_
  rintro pending afterPending pending' afterPending' ⟨hpending, hpendingSame, halike⟩
  obtain ⟨rfl, hpendingSlots⟩ := eq_of_forall₂_sameSlots hpendingSame
  have hbare := counted_forall PendingMethod.instructions_read hpending
  refine (ClassAttributes.collect_inStep hlength Survey.ahead_nil halike).bind ?_
  rintro _ afterAttributes attributes afterAttributes' ⟨⟨rfl, hattributeSlots⟩, halike⟩
  -- Behind the last attribute nothing differs any more.
  obtain rfl := halike.eq_of_nil rfl
  refine .same fun found stop hread => ⟨rfl, fun slot hslot => ?_⟩
  rw [run_bind run_get] at hread
  obtain ⟨-, hread⟩ := refuse_eq_ok.mp hread
  obtain ⟨methods, _, hlifted, hpure⟩ := bind_eq_ok.mp hread
  obtain ⟨hmethods, rfl⟩ := mapM_lift_eq_ok.mp hlifted
  obtain ⟨rfl, rfl⟩ := pure_eq_ok.mp hpure
  have hargument : slot ∈ attributes.bootstrapMethods.flatMap BootstrapMethod.slots → SlotAgrees bytes other slot :=
    fun hmem => hattributeSlots slot (List.mem_append_right _ hmem)
  rcases List.mem_append.mp hslot with hstring | hmem
  · rw [stringSlots_eq] at hstring
    exact hargument (List.mem_of_mem_filter hstring)
  · rcases mem_parts_of_sites hbare hmethods hmem
      with hannotation | hbootstrap | ⟨one, hone, hslot⟩ | ⟨field, hfield, hslot⟩
    · exact hattributeSlots slot (List.mem_append_left _ hannotation)
    · exact hargument hbootstrap
    · exact hpendingSlots one hone slot hslot
    · exact hfieldSlots field hfield slot hslot

theorem read_inStep (halike : Alike bytes other Survey.file start start') :
    Parallel (read start) (read start') fun a _ b _ => SameSlots bytes other (foundSlots ·.2) a b := by
  have hpool := Survey.ahead_behind ConstantPool.read_progressive Survey.ahead_declaration
  have hmajor := Survey.ahead_behind .u16 fun _ => hpool
  rw [read]
  refine (halike.read .u32 fun _ => Survey.ahead_behind .u16 fun _ => hmajor).bind ?_
  rintro _ afterMagic found afterMagic' ⟨rfl, halike⟩
  by_cases hmagic : (found != magic) = true
  · rw [if_pos hmagic]
    exact rfl
  rw [if_neg hmagic]
  refine (halike.read .u16 fun _ => hmajor).bind ?_
  rintro _ afterMinor minor afterMinor' ⟨rfl, halike⟩
  refine (halike.read .u16 fun _ => hpool).bind ?_
  rintro _ afterMajor major afterMajor' ⟨rfl, halike⟩
  refine (halike.read ConstantPool.read_progressive Survey.ahead_declaration).bind ?_
  rintro _ afterPool pool afterPool' ⟨rfl, halike⟩
  refine (readDeclaration_inStep hlength minor major halike).bind ?_
  rintro _ stop found stop' ⟨rfl, hslots⟩
  exact .pure ⟨rfl, hslots⟩

/-- Both files are refused with one error, or both are read and differ in nothing but their bytes. -/
theorem ofBytes_inStep (hskips : ∀ position, ¬ Agree bytes other position → Skips bytes position) :
    (∃ error, ofBytes bytes = .error error ∧ ofBytes other = .error error)
      ∨ ∃ file, file.bytes = bytes ∧ ofBytes bytes = .ok file ∧ ofBytes other = .ok { file with bytes := other }
        ∧ ∀ slot ∈ foundSlots (file.bootstrapStrings, file.declaration), SlotAgrees bytes other slot := by
  have halike : Alike bytes other Survey.file ⟨0, bytes⟩ ⟨0, other⟩ :=
    ⟨rfl, rfl, rfl, fun position _ hdiffers => hskips position hdiffers⟩
  have hparallel := read_inStep hlength halike
  cases hread : read ⟨0, bytes⟩ with
  | error error =>
    cases hread' : read ⟨0, other⟩ with
    | error error' =>
      rw [hread, hread'] at hparallel
      obtain rfl : error = error' := hparallel
      exact .inl ⟨error, ofBytes_error hread, ofBytes_error hread'⟩
    | ok result' =>
      rw [hread, hread'] at hparallel
      exact hparallel.elim
  | ok result =>
    cases hread' : read ⟨0, other⟩ with
    | error error' =>
      rw [hread, hread'] at hparallel
      exact hparallel.elim
    | ok result' =>
      rw [hread, hread'] at hparallel
      obtain ⟨⟨pool, bootstrapStrings, declaration⟩, stop⟩ := result
      obtain ⟨found, stop'⟩ := result'
      obtain ⟨rfl, hslots⟩ := hparallel
      exact .inr ⟨⟨bytes, pool, bootstrapStrings, declaration⟩, rfl, except_bind_eq_ok.mpr ⟨_, hread, rfl⟩,
        except_bind_eq_ok.mpr ⟨_, hread', rfl⟩, hslots⟩

omit hlength in
theorem Skips.poolEnd_le {file : ClassFile} {position : Nat} (hskips : Skips bytes position)
    (hfile : ofBytes bytes = .ok file) : file.poolEnd ≤ position := by
  obtain ⟨-, minor, major, afterHeader, afterPool, stop, hheader, hpool, -⟩ := read_of_ofBytes hfile
  obtain ⟨-, -, hpoolPosition⟩ := ConstantPool.spells_of_read hpool
  have hposition := hheader.2
  obtain ⟨afterMagic, hmagic, hversions⟩ := Cursor.Spells.append_iff.mp hheader
  obtain ⟨afterMinor, hminor, hmajor⟩ := Cursor.Spells.append_iff.mp hversions
  obtain ⟨stretch, hstretch, hcovers⟩ := hskips
  simp only [Survey.file, Survey.behind, u32_eq_ok.mpr hmagic, u16_eq_ok.mpr hminor, u16_eq_ok.mpr hmajor, hpool]
    at hstretch
  have hahead := Survey.ahead_declaration file.pool afterPool stretch hstretch
  have hlow := hcovers.1
  rw [hpoolPosition, hposition] at hahead
  exact Nat.le_trans hahead hlow

end ClassFile

end Retoken
