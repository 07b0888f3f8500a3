import Retoken.Proofs.Frame
import Retoken.Proofs.Skipping.ClassFile
import Retoken.Proofs.Unchanged

/-!
# What is stepped over does not matter

Two files that differ only in attributes that are stepped over are retokened alike. The same indices are written at the same slots, none of which lies where the files differ, so what is written differs as the files do.
-/

namespace Retoken

open ClassFile

/-- What is written for two files differs only in the bytes in which these differ, and keeps them where they have moved to. -/
structure Mirrors (bytes other out out' : List UInt8) (growth : Nat) : Prop where
  length_eq : out.length = bytes.length + growth
  length_eq' : out'.length = other.length + growth
  differing : ∀ position, ¬ Agree out out' position →
    ∃ original, position = original + growth ∧ ¬ Agree bytes other original
  kept : ∀ position, ¬ Agree bytes other position →
    out[position + growth]? = bytes[position]? ∧ out'[position + growth]? = other[position]?

theorem Mirrors.refl (bytes other : List UInt8) : Mirrors bytes other bytes other 0 :=
  ⟨rfl, rfl, fun position hdiffers => ⟨position, rfl, hdiffers⟩, fun _ _ => ⟨rfl, rfl⟩⟩

namespace ClassFile

open Relinking

variable {file : ClassFile} {other : List UInt8} {edited : Declaration StringSite} {methods : List BootstrapMethod}
  {held : List Slot} {relinking : Relinking} {position : Nat}

theorem slot_mem_foundSlots {pool : ConstantPool} {slot : Slot} (hmisled : file.Misled pool slot) :
    slot ∈ foundSlots (file.bootstrapStrings, file.declaration) := by
  obtain ⟨reference, hmem, rfl, -⟩ := hmisled
  rcases List.mem_append.mp hmem with hstring | htext
  · rcases mem_stringReferences.mp hstring with ⟨site, hsite, -, rfl⟩ | ⟨slot, hslot, rfl, -⟩
    · exact List.mem_append_right _ (List.mem_map_of_mem hsite)
    · exact List.mem_append_left _ hslot
  · obtain ⟨site, hsite, -, rfl⟩ := mem_textReferences.mp htext
    exact List.mem_append_right _ (List.mem_map_of_mem hsite)

/-- The bytes behind the pool are written one by one. -/
theorem Legible.differing_assemble (hlegible : file.Legible methods held) (hrelinked : file.Relinked relinking)
    (hbehind : ∀ position, ¬ Agree file.bytes other position → file.poolEnd ≤ position)
    (hdiffers : ¬ Agree (file.assemble relinking)
      (({ file with bytes := other } : ClassFile).assemble relinking) position) :
    ∃ original, position = original + (relinking.extension.added.toList.flatMap Constant.toBytes).length
      ∧ ¬ Agree file.bytes other original := by
  have hheader : other.take poolStart = file.bytes.take poolStart := by
    have htake : (file.bytes.drop 0).take poolStart = (other.drop 0).take poolStart :=
      take_drop_eq fun before _ hlt => by
      by_contra hdiffers
      have hle := hbehind before hdiffers
      rw [poolEnd] at hle
      omega
    exact htake.symm
  have hlength := hlegible.length_header
  have hpool := hrelinked.extended.length_toBytes
  rw [Agree, assemble, assemble, hheader] at hdiffers
  by_cases hlt : position < (file.bytes.take poolStart ++ relinking.extension.pool.toBytes).length
  · rw [List.getElem?_append_left hlt, List.getElem?_append_left hlt] at hdiffers
    exact absurd rfl hdiffers
  obtain ⟨i, rfl⟩ := Nat.exists_eq_add_of_le (Nat.le_of_not_lt hlt)
  refine ⟨file.poolEnd + i, ?_, fun hagree => hdiffers ?_⟩
  · rw [List.length_append, hlength, hpool, poolEnd]
    omega
  · rw [List.getElem?_append_right (Nat.le_add_right _ _), List.getElem?_append_right (Nat.le_add_right _ _),
      Nat.add_sub_cancel_left, Patches.apply, Patches.apply, List.getElem?_mapIdx, List.getElem?_mapIdx,
      List.getElem?_drop, List.getElem?_drop, hagree]
    rfl

/-- No slot that has to be written lies where the files differ. -/
theorem clear_of_differing {bytes : List UInt8} {pool : ConstantPool}
    (hagree : ∀ slot ∈ foundSlots (file.bootstrapStrings, file.declaration), SlotAgrees bytes other slot)
    (hdiffers : ¬ Agree bytes other position) (slot : Slot) (hcovers : slot.Covers position) :
    ¬ file.Misled pool slot :=
  fun hmisled => hdiffers (hagree slot (slot_mem_foundSlots hmisled) position hcovers)

theorem foundSlots_edited {strings : List Slot} {declaration : Declaration StringSite}
    (hedited : edited.map StringSite.reverted = declaration) :
    foundSlots (strings, edited) = foundSlots (strings, declaration) := by
  rw [foundSlots, foundSlots, ← hedited, Declaration.sites_map, List.map_map]
  rfl

variable {bytes : List UInt8}

/-- Files that are read in step are written alike. -/
theorem toBytes_inStep (hfile : ofBytes bytes = .ok file) (hfile' : ofBytes other = .ok { file with bytes := other })
    (hedited : edited.map StringSite.reverted = file.declaration)
    (hbehind : ∀ position, ¬ Agree bytes other position → file.poolEnd ≤ position)
    (hagree : ∀ slot ∈ foundSlots (file.bootstrapStrings, file.declaration), SlotAgrees bytes other slot) :
    (∃ error, ({ file with declaration := edited } : ClassFile).toBytes = .error error
        ∧ ({ file with bytes := other, declaration := edited } : ClassFile).toBytes = .error error)
      ∨ ∃ out out' growth, ({ file with declaration := edited } : ClassFile).toBytes = .ok out
        ∧ ({ file with bytes := other, declaration := edited } : ClassFile).toBytes = .ok out'
        ∧ Mirrors bytes other out out' growth := by
  obtain ⟨rfl, methods, held, hlegible⟩ := exists_legible hfile hedited
  obtain ⟨-, methods', held', hlegible'⟩ := exists_legible hfile' hedited
  cases hmodified : edited.isModified with
  | false =>
    refine .inr ⟨file.bytes, other, 0, ?_, ?_, .refl _ _⟩
    · exact toBytes_eq_ok.mpr (.inl ⟨hmodified, rfl⟩)
    · exact toBytes_eq_ok.mpr (.inl ⟨hmodified, rfl⟩)
  | true =>
    -- What is to be changed does not depend on the bytes.
    cases hrelink : ({ file with declaration := edited } : ClassFile).relink with
    | error error =>
      have hrelink' : ({ file with bytes := other, declaration := edited } : ClassFile).relink = .error error := hrelink
      exact .inl ⟨error, toBytes_eq_error.mpr ⟨hmodified, hrelink⟩, toBytes_eq_error.mpr ⟨hmodified, hrelink'⟩⟩
    | ok relinking =>
      have hrelink' : ({ file with bytes := other, declaration := edited } : ClassFile).relink = .ok relinking :=
        hrelink
      have hrelinked := settled_of_relink hlegible.relinkable hrelink
      have hrelinked' := settled_of_relink hlegible'.relinkable hrelink'
      refine .inr ⟨_, _, _, toBytes_eq_ok.mpr (.inr ⟨hmodified, relinking, hrelink, rfl⟩),
        toBytes_eq_ok.mpr (.inr ⟨hmodified, relinking, hrelink', rfl⟩), hlegible.length_assemble hrelinked,
        hlegible'.length_assemble hrelinked', fun position => hlegible.differing_assemble hrelinked hbehind, ?_⟩
      intro position hdiffers
      have hagreeEdited := hagree
      rw [← foundSlots_edited hedited] at hagreeEdited
      have hlow := hbehind position hdiffers
      exact ⟨hlegible.getElem?_assemble_behind hrelinked hlow (clear_of_differing hagreeEdited hdiffers),
        hlegible'.getElem?_assemble_behind hrelinked' hlow (clear_of_differing hagreeEdited hdiffers)⟩

/-- The bodies of attributes that are stepped over have no influence on what is read, on the tally, on the error if there is one, and on any other byte of the file that is written. -/
theorem retoken_inStep (tokens : TokenTable) (hlength : bytes.length = other.length)
    (hskips : ∀ position, ¬ Agree bytes other position → Skips bytes position) :
    (∃ error, ofBytes bytes = .error error ∧ ofBytes other = .error error
        ∧ retoken tokens bytes = .error error ∧ retoken tokens other = .error error)
      ∨ ∃ file, ofBytes bytes = .ok file ∧ ofBytes other = .ok { file with bytes := other }
        ∧ ((∃ error, retoken tokens bytes = .error error ∧ retoken tokens other = .error error)
          ∨ (∃ tally, retoken tokens bytes = .ok ⟨tally, none⟩ ∧ retoken tokens other = .ok ⟨tally, none⟩)
          ∨ ∃ tally out out' growth, retoken tokens bytes = .ok ⟨tally, some out⟩
            ∧ retoken tokens other = .ok ⟨tally, some out'⟩ ∧ Mirrors bytes other out out' growth) := by
  rcases ofBytes_inStep hlength hskips with ⟨error, herror, herror'⟩ | ⟨file, -, hfile, hfile', hagree⟩
  · refine .inl ⟨error, herror, herror', ?_, ?_⟩
    · rw [retoken, herror]
      rfl
    · rw [retoken, herror']
      rfl
  refine .inr ⟨file, hfile, hfile', ?_⟩
  have hbehind : ∀ position, ¬ Agree bytes other position → file.poolEnd ≤ position :=
    fun position hdiffers => (hskips position hdiffers).poolEnd_le hfile
  have htally : (({ file with bytes := other } : ClassFile).replaceTokens tokens).2 = (file.replaceTokens tokens).2 :=
    rfl
  rw [retoken_of_ofBytes hfile, retoken_of_ofBytes hfile', htally]
  cases hchanged : (file.replaceTokens tokens).2.changed with
  | false => exact .inr (.inl ⟨_, rfl, rfl⟩)
  | true =>
    have hreverted := retokened_reverted hfile tokens
    have hwritten := toBytes_inStep hfile hfile' hreverted hbehind hagree
    have hone : (file.replaceTokens tokens).1
        = { file with declaration := file.declaration.mapOpen (Declaration.retokened tokens) } := by
      rw [replaceTokens, Declaration.replaceTokens_eq]
    have htwo : (({ file with bytes := other } : ClassFile).replaceTokens tokens).1
        = { file with bytes := other, declaration := file.declaration.mapOpen (Declaration.retokened tokens) } := by
      rw [replaceTokens, Declaration.replaceTokens_eq]
    rw [← hone, ← htwo] at hwritten
    rcases hwritten with ⟨error, herror, herror'⟩ | ⟨out, out', growth, hout, hout', hmirrors⟩
    · rw [herror, herror']
      exact .inl ⟨error, rfl, rfl⟩
    · rw [hout, hout']
      exact .inr (.inr ⟨_, out, out', growth, rfl, rfl, hmirrors⟩)

/-- `sharedClass` with one more attribute, whose name means nothing. Its body is the last byte. -/
def markedClass : List UInt8 :=
  sharedClass.set 116 2 ++ [0x00, 0x02, 0x00, 0x00, 0x00, 0x01, 0x00]

theorem retoken_inStep_markedClass : ∃ tally out out' growth,
    retoken ⟨[("x", "y")]⟩ markedClass = .ok ⟨tally, some out⟩
      ∧ retoken ⟨[("x", "y")]⟩ (markedClass.set 137 1) = .ok ⟨tally, some out'⟩
      ∧ Mirrors markedClass (markedClass.set 137 1) out out' growth := by
  have hskips : ∀ position, ¬ Agree markedClass (markedClass.set 137 1) position → Skips markedClass position := by
    intro position hdiffers
    by_cases hbody : 137 = position
    · subst hbody
      decide +kernel
    · exact absurd (List.getElem?_set_ne hbody).symm hdiffers
  have hrun : (retoken ⟨[("x", "y")]⟩ markedClass).map (·.bytes?.isSome) = .ok true := by
    decide +kernel
  obtain ⟨retokened, hretoken, hwritten⟩ := except_map_eq_ok.mp hrun
  rcases retoken_inStep ⟨[("x", "y")]⟩ (List.length_set.symm) hskips with
    ⟨error, -, -, herror, -⟩ | ⟨file, -, -, ⟨error, herror, -⟩ | ⟨tally, hnone, -⟩ | hboth⟩
  · rw [hretoken] at herror
    cases herror
  · rw [hretoken] at herror
    cases herror
  · rw [hretoken] at hnone
    cases hnone
    cases hwritten
  · exact hboth

end ClassFile

end Retoken
