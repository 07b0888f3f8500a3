import Retoken.Proofs.PoolExtension.Readable

/-!
# The bytes of an extended pool

An extended pool is written as its count, the entries of the original pool, and the entries that were added. An original entry is written at the same distance from the count as before, and with the same bytes but for the index in a string constant that was made to name another text.
-/

namespace Retoken

open BigEndian

namespace ConstantPool

variable {slot old new : Option Constant} {slots slots' : List (Option Constant)}

theorem entriesToBytes_map_some (constants : List Constant) :
    entriesToBytes (constants.map some) = constants.flatMap Constant.toBytes := by
  rw [entriesToBytes, List.flatMap_map]

/-- A slot is written differently only in the index of a string constant. -/
theorem SameSlot.offset_of_differing {offset : Nat} (hsame : SameSlot old new)
    (hdiffers : (entriesToBytes [new])[offset]? ≠ (entriesToBytes [old])[offset]?) :
    new ≠ old ∧ (offset = 1 ∨ offset = 2) := by
  rcases hsame with rfl | ⟨oldText, newText, rfl, rfl⟩
  · exact absurd rfl hdiffers
  · refine ⟨fun heq => hdiffers (by rw [heq]), ?_⟩
    match offset, hdiffers with
    | 0, hdiffers => exact absurd rfl hdiffers
    | 1, _ => exact .inl rfl
    | 2, _ => exact .inr rfl
    | _ + 3, hdiffers => exact absurd rfl hdiffers

theorem offset_of_differing {offset : Nat} (hsame : List.Forall₂ SameSlot slots slots')
    (hdiffers : (entriesToBytes slots')[offset]? ≠ (entriesToBytes slots)[offset]?) :
    ∃ i, slots'[i]? ≠ slots[i]? ∧ (offset = (entriesToBytes (slots.take i)).length + 1
      ∨ offset = (entriesToBytes (slots.take i)).length + 2) := by
  induction hsame generalizing offset with
  | nil => exact absurd rfl hdiffers
  | @cons old new slots slots' hslot _ ih =>
    have hlength := length_entriesToBytes_same (List.Forall₂.cons hslot .nil)
    rw [entriesToBytes_cons new, entriesToBytes_cons old] at hdiffers
    by_cases hhere : offset < (entriesToBytes [old]).length
    · rw [List.getElem?_append_left hhere, List.getElem?_append_left (by omega)] at hdiffers
      obtain ⟨hne, hoffset⟩ := hslot.offset_of_differing hdiffers
      refine ⟨0, fun heq => hne (Option.some.inj heq), ?_⟩
      have hbefore : (entriesToBytes ((old :: slots).take 0)).length = 0 := rfl
      rw [hbefore]
      omega
    · rw [List.getElem?_append_right (by omega), List.getElem?_append_right (by omega), hlength] at hdiffers
      obtain ⟨i, hne, hoffset⟩ := ih hdiffers
      refine ⟨i + 1, by rwa [List.getElem?_cons_succ, List.getElem?_cons_succ], ?_⟩
      rw [List.take_succ_cons, entriesToBytes_cons, List.length_append]
      omega

end ConstantPool

namespace PoolExtension

open ConstantPool

variable {source : ConstantPool} {extension : PoolExtension} {index : UInt16} {constant : Constant}

theorem entriesToBytes_pool (extension : PoolExtension) :
    entriesToBytes extension.pool.slots.toList
      = entriesToBytes extension.base.slots.toList ++ extension.added.toList.flatMap Constant.toBytes := by
  rw [pool, Array.toList_append, entriesToBytes_append, Array.toList_map, entriesToBytes_map_some]

theorem Over.length_toBytes (hover : Over source extension) :
    extension.pool.toBytes.length
      = source.toBytes.length + (extension.added.toList.flatMap Constant.toBytes).length := by
  rw [toBytes, toBytes, entriesToBytes_pool]
  simp only [List.length_append, length_bytes16, length_entriesToBytes_same hover.sameSlots]
  omega

theorem Over.entryOffset_eq (hover : Over source extension) (hindex : index.toNat ≤ source.slots.size) :
    extension.pool.entryOffset index.toNat = source.entryOffset index.toNat := by
  rw [entryOffset, entryOffset, pool, Array.toList_append, List.take_append_of_le_length]
  · exact length_entriesToBytes_same (List.forall₂_take index.toNat hover.sameSlots)
  · rw [Array.length_toList, hover.size_eq]
    exact hindex

theorem Over.exists_repointed (hover : Over source extension) {offset : Nat}
    (hdiffers : (entriesToBytes extension.base.slots.toList)[offset]? ≠ (entriesToBytes source.slots.toList)[offset]?) :
    ∃ index : UInt16, extension.base.get? index ≠ source.get? index
      ∧ (offset = source.entryOffset index.toNat + 1 ∨ offset = source.entryOffset index.toNat + 2) := by
  obtain ⟨i, hne, hoffset⟩ := offset_of_differing hover.sameSlots hdiffers
  rw [Array.getElem?_toList, Array.getElem?_toList] at hne
  rcases hover.slots i with hkept | ⟨old, new, hold, hnew, -⟩
  · exact absurd hkept hne
  · have hlt := (Array.getElem?_eq_some_iff.mp hold).1
    have hsize := hover.fits
    rw [slotCount, hover.size_eq, maxSlots] at hsize
    have hword : (UInt16.ofNat i).toNat = i := by
      rw [UInt16.toNat_ofNat']
      omega
    refine ⟨UInt16.ofNat i, ?_, by rwa [hword]⟩
    rw [ConstantPool.get?, ConstantPool.get?, hword, hold, hnew]
    rw [hold, hnew] at hne
    exact fun heq => hne (congrArg some heq)

end PoolExtension

end Retoken
