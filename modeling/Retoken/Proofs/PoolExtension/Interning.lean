import Mathlib.Data.List.Nodup
import Retoken.Proofs.PoolExtension.Readable

/-!
# Interning

What is asked for is added only if it is not there yet. So no constant is added twice, and no text is added that the pool holds already. A request that is not refused for its length fails only if there is no slot left.
-/

namespace Retoken.PoolExtension

open Text

variable {extension : PoolExtension} {constant : Constant} {index : UInt16} {text : String}

/-- No added constant is there already. -/
structure Unrepeated (extension : PoolExtension) : Prop where
  nodup : extension.added.toList.Nodup
  new : ∀ bytes, .utf8 bytes ∈ extension.added → extension.base.findUtf8? bytes = none

theorem Unrepeated.start (source : ConstantPool) : Unrepeated { base := source } where
  nodup := List.nodup_nil
  new _ hmem := absurd hmem (Array.not_mem_empty _)

theorem not_mem_of_addedIndex? (habsent : extension.addedIndex? constant = none) : constant ∉ extension.added := by
  intro hmem
  have hnone := Array.findIdx?_eq_none_iff.mp (Option.map_eq_none_iff.mp habsent) constant hmem
  simp at hnone

/-- A constant that is added is the only one of its kind. -/
theorem Unrepeated.pushed (hunrepeated : extension.Unrepeated) (habsent : extension.addedIndex? constant = none)
    (hnew : ∀ bytes, constant = .utf8 bytes → extension.base.findUtf8? bytes = none) :
    (extension.pushed constant).Unrepeated where
  nodup := by
    rw [PoolExtension.pushed, Array.toList_push]
    refine List.nodup_append.mpr ⟨hunrepeated.nodup, List.nodup_singleton _, ?_⟩
    rintro one hone other hother rfl
    rw [List.mem_singleton.mp hother] at hone
    exact not_mem_of_addedIndex? habsent (Array.mem_toList_iff.mp hone)
  new bytes hmem := by
    rcases Array.mem_push.mp hmem with hmem | heq
    · exact hunrepeated.new bytes hmem
    · exact hnew bytes heq.symm

theorem utf8_unrepeated (hunrepeated : extension.Unrepeated) :
    Meets (utf8 text) extension (fun _ extension' => extension'.Unrepeated)
      (fun error => error = .poolOverflow → maxSlots ≤ extension.slotCount) := by
  refine utf8_meets (fun _ => nofun) (fun _ _ _ => hunrepeated) (fun _ habsent _ => ?_) fun _ hfull _ => hfull
  obtain ⟨hnew, hunadded⟩ := textIndex?_eq_none.mp habsent
  refine hunrepeated.pushed hunadded ?_
  rintro _ ⟨⟩
  exact hnew

theorem stringNaming_unrepeated (hunrepeated : extension.Unrepeated) :
    Meets (stringNaming index) extension (fun _ extension' => extension'.Unrepeated)
      (fun error => error = .poolOverflow → maxSlots ≤ extension.slotCount) :=
  intern_meets (fun _ _ => hunrepeated) (fun habsent _ => hunrepeated.pushed habsent nofun) fun _ hfull _ => hfull

end Retoken.PoolExtension
