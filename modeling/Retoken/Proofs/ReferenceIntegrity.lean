import Retoken.Proofs.ConstantPool.Chains
import Retoken.Proofs.Frame
import Retoken.Proofs.Relinking.Refusals

/-!
# Nothing is missed

The checks on reading a pool are enough for all look-ups in it, and what reading a file has recorded is enough for writing it. So no look-up in a pool that was read meets a constant that is missing or of another kind, writing an edited file never finds the file malformed, and no byte is written outside of the file.
-/

namespace Retoken.ClassFile

open BigEndian PoolExtension Relinking

/-- All that is written for the changes of a relinking lies inside of the bytes that come out, and stands there in full. -/
structure Inside (file : ClassFile) (relinking : Relinking) (out : List UInt8) : Prop where
  copied : poolStart + 2 ≤ file.poolEnd ∧ file.poolEnd ≤ file.bytes.length ∧ file.bytes.length ≤ out.length
  patched : ∀ (position : Nat) (patch : Patch), relinking.patches[position]? = some patch →
    file.poolEnd ≤ position ∧ position + (out.length - file.bytes.length) + patch.kind.width ≤ out.length
      ∧ (out.drop (position + (out.length - file.bytes.length))).take patch.kind.width = patch.bytes
  /-- A constant of the pool is changed only in the index that a string has behind its tag. -/
  repointed : ∀ index, relinking.extension.base.get? index ≠ file.pool.get? index →
    ∃ old new, file.pool.get? index = some (.string old) ∧ relinking.extension.base.get? index = some (.string new)
      ∧ file.entryStart index + 3 ≤ file.poolEnd
      ∧ (out.drop (file.entryStart index + 1)).take 2 = bytes16 new

namespace Legible

variable {file : ClassFile} {methods : List BootstrapMethod} {held : List Slot} {relinking : Relinking}
  {position : Nat} {patch : Patch} {index : UInt16} (hlegible : file.Legible methods held)
  (hrelinked : file.Relinked relinking)

include hlegible hrelinked

/-- A byte that is to be written stands behind the pool, as far behind it as in the original file. -/
theorem getElem?_assemble_written {byte : UInt8} (hlow : file.poolEnd ≤ position) (hhigh : position < file.bytes.length)
    (hwritten : relinking.patches.bytes[position]? = some byte) :
    (file.assemble relinking)[position + (relinking.extension.added.toList.flatMap Constant.toBytes).length]?
      = some byte := by
  have hrelocated : (relinking.relocation hrelinked.extended).written position = some byte := hwritten
  rw [hlegible.getElem?_assemble_moved hrelinked hlow, hrelocated, List.getElem?_eq_getElem hhigh]
  rfl

theorem patch_inside (hpatch : relinking.patches[position]? = some patch) :
    file.poolEnd ≤ position ∧ position + patch.kind.width ≤ file.bytes.length := by
  obtain ⟨slot, hslot, rfl, hkind⟩ := hlegible.exists_slot_of_patch hrelinked hpatch
  rw [← hkind]
  exact hlegible.spread.bounds hslot

theorem take_patch (hpatch : relinking.patches[position]? = some patch) :
    ((file.assemble relinking).drop (position +
      (relinking.extension.added.toList.flatMap Constant.toBytes).length)).take
      patch.kind.width = patch.bytes := by
  obtain ⟨hlow, hhigh⟩ := hlegible.patch_inside hrelinked hpatch
  refine List.ext_getElem? fun i => ?_
  rw [List.getElem?_take, List.getElem?_drop]
  by_cases hi : i < patch.kind.width
  · rw [if_pos hi]
    have hlt : i < patch.bytes.length := by rwa [patch.length_bytes]
    have hbyte : patch.byteAt? position (position + i) = some patch.bytes[i] := by
      rw [patch.byteAt?_add, List.getElem?_eq_getElem hlt]
    have hwritten := Patches.getElem?_bytes (hlegible.patches_disjoint hrelinked) hpatch hbyte
    have hfound := hlegible.getElem?_assemble_written hrelinked (Nat.le_add_right_of_le hlow) (by omega) hwritten
    rw [List.getElem?_eq_getElem hlt, ← hfound]
    congr 1
    omega
  · rw [if_neg hi, List.getElem?_eq_none]
    rw [patch.length_bytes]
    omega

theorem repointed_inside (hdiffers : relinking.extension.base.get? index ≠ file.pool.get? index) :
    ∃ old new, file.pool.get? index = some (.string old) ∧ relinking.extension.base.get? index = some (.string new)
      ∧ file.entryStart index + 3 ≤ file.poolEnd
      ∧ ((file.assemble relinking).drop (file.entryStart index + 1)).take 2 = bytes16 new := by
  have hover := hrelinked.extended
  rcases hover.slots index.toNat with hsame | ⟨old, new, hold, hnew, -⟩
  · rw [ConstantPool.get?, ConstantPool.get?, hsame] at hdiffers
    exact absurd rfl hdiffers
  · have hget : file.pool.get? index = some (.string old) := Option.join_eq_some_iff.mpr hold
    have hgetNew : relinking.extension.base.get? index = some (.string new) := Option.join_eq_some_iff.mpr hnew
    have hindex := ConstantPool.lt_of_get? hget
    rw [Array.length_toList] at hindex
    refine ⟨old, new, hget, hgetNew, ?_, ?_⟩
    · have hlength := congrArg List.length (ConstantPool.take_drop_entry hget)
      have hwidth : (Constant.string old).toBytes.length = 3 := rfl
      rw [hwidth, List.length_take, List.length_drop] at hlength
      rw [entryStart, poolEnd, ConstantPool.toBytes, List.length_append, length_bytes16]
      omega
    · have hentry : ((file.assemble relinking).drop (file.entryStart index)).take 3
          = (Constant.string new).toBytes := by
        rw [entryStart, ← hover.entryOffset_eq (Nat.le_of_lt hindex), assemble_split hrelinked]
        exact take_entry hlegible.length_header (get?_pool_of_base hgetNew)
      rw [← List.drop_drop, ← List.drop_take (i := 1) (j := 3), hentry]
      rfl

theorem inside : file.Inside relinking (file.assemble relinking) where
  copied := by
    have hcount : poolStart + 2 ≤ file.poolEnd := by
      rw [poolEnd, ConstantPool.toBytes, List.length_append, length_bytes16]
      omega
    rw [hlegible.length_assemble hrelinked]
    exact ⟨hcount, hlegible.spread.le, Nat.le_add_right _ _⟩
  patched position patch hpatch := by
    obtain ⟨hlow, hhigh⟩ := hlegible.patch_inside hrelinked hpatch
    have hbytes := hlegible.take_patch hrelinked hpatch
    rw [hlegible.length_assemble hrelinked, Nat.add_sub_cancel_left]
    exact ⟨hlow, by omega, hbytes⟩
  repointed _ hdiffers := hlegible.repointed_inside hrelinked hdiffers

omit hrelinked in
/-- The reasons not to write a file are none of those not to read it. -/
theorem category_ne_of_toBytes {error : ClassError} (herror : file.toBytes = .error error) :
    error.category ≠ "malformed-class" := by
  have hcategory : error.category = "encode-failed" := by
    cases hlegible.refusal_of_toBytes herror <;> rfl
  rw [hcategory]
  decide

end Legible

/-- In a pool that was read, all that a look-up comes across is there and of the right kind, so it fails only at a text that cannot be decoded. Writing an edited file never finds it malformed and writes nothing outside of it. -/
theorem lookUps_and_patches_sound :
    (∀ start pool stop, ConstantPool.read start = .ok (pool, stop) → ∀ index kind, pool.HasKind index kind →
      (∀ target, pool.Leads (index, kind) target → pool.HasKind target.1 target.2
        ∧ ∀ error, pool.lookUp target.1 target.2 = .error error → pool.Undecodable target error)
      ∧ (kind = .string → ∃ text, textIndex pool index = .ok text ∧ pool.HasKind text .utf8))
    ∧ ∀ bytes file edited, ofBytes bytes = .ok file → edited.map StringSite.reverted = file.declaration →
      (∀ error, ({ file with declaration := edited } : ClassFile).toBytes = .error error →
        error.category ≠ "malformed-class")
      ∧ ∀ relinking, ({ file with declaration := edited } : ClassFile).relink = .ok relinking →
        ({ file with declaration := edited } : ClassFile).Inside relinking
          (({ file with declaration := edited } : ClassFile).assemble relinking) := by
  refine ⟨fun start pool stop hread index kind hkind => ?_, fun bytes file edited hfile hedited => ?_⟩
  · have hunbroken := (ConstantPool.spells_of_read hread).1.unbroken
    refine ⟨fun target hleads => ?_, ?_⟩
    · have htarget := ConstantPool.hasKind_of_leads hunbroken hkind hleads
      exact ⟨htarget, fun error herror => ConstantPool.lookUp_fails hunbroken htarget herror⟩
    · rintro rfl
      exact ConstantPool.textIndex_of_hasKind hunbroken hkind
  · obtain ⟨-, methods, held, hlegible⟩ := exists_legible hfile hedited
    refine ⟨fun error herror => hlegible.category_ne_of_toBytes herror, fun relinking hrelink => ?_⟩
    exact hlegible.inside (settled_of_relink hlegible.relinkable hrelink)

/-- A class constant whose name cannot be decoded, and a file in which one string is repointed and the argument that two calls share is patched. -/
theorem lookUps_and_patches_sound_sharedClass :
    (∃ pool stop, ConstantPool.read ⟨0, [0x00, 0x03, 0x07, 0x00, 0x02, 0x01, 0x00, 0x01, 0xFF]⟩ = .ok (pool, stop)
      ∧ pool.lookUp 1 .classInfo = .error (.malformed (.undecodableText 2))
      ∧ pool.Undecodable (1, .classInfo) (.malformed (.undecodableText 2)))
    ∧ ∃ file edited relinking, ofBytes sharedClass = .ok file ∧ edited.map StringSite.reverted = file.declaration
      ∧ ({ file with declaration := edited } : ClassFile).relink = .ok relinking
      ∧ relinking.patches.toList.map (·.1) = [129]
      ∧ ({ file with declaration := edited } : ClassFile).Inside relinking
          (({ file with declaration := edited } : ClassFile).assemble relinking) := by
  constructor
  · have hrun : (ConstantPool.read ⟨0, [0x00, 0x03, 0x07, 0x00, 0x02, 0x01, 0x00, 0x01, 0xFF]⟩).map (fun result =>
        (result.1.get? 1, result.1.lookUp 1 .classInfo))
        = .ok (some (.classInfo 2), .error (.malformed (.undecodableText 2))) := by
      decide +kernel
    obtain ⟨⟨pool, stop⟩, hread, hfound⟩ := except_map_eq_ok.mp hrun
    obtain ⟨hget, herror⟩ := Prod.mk.inj hfound
    have hsound := lookUps_and_patches_sound.1 _ pool stop hread 1 .classInfo ⟨_, hget, rfl⟩
    exact ⟨pool, stop, hread, herror, (hsound.1 _ .refl).2 _ herror⟩
  · have hrun : ((ofBytes sharedClass).bind fun file =>
        (({ file with declaration := file.declaration.map sharedEdit } : ClassFile).relink).map fun relinking =>
          relinking.patches.toList.map (·.1)) = .ok [129] := by
      decide +kernel
    obtain ⟨file, hfile, hrun⟩ := except_bind_eq_ok.mp hrun
    obtain ⟨relinking, hrelink, hpatches⟩ := except_map_eq_ok.mp hrun
    have hedited := reverted_sharedEdit hfile
    have hsound := lookUps_and_patches_sound.2 _ file _ hfile hedited
    exact ⟨file, _, relinking, hfile, hedited, hrelink, hpatches, hsound.2 relinking hrelink⟩

end Retoken.ClassFile
