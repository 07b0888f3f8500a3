import Retoken.Proofs.ConstantPool.Serialisation

/-!
# References between constants

A constant refers to others by index, and for each of these indices the format says which kind of constant has to stand there. A method handle also says by a number from 1 to 9 how its member is used; without it nothing would be known about the kind of member. A pool is read only if all of its references are of the required kinds.
-/

namespace Retoken

namespace Constant

/-- The kind of a constant, where something may require it. -/
def kind? : Constant → Option ConstantKind
  | utf8 _ => some .utf8
  | classInfo _ => some .classInfo
  | string _ => some .string
  | nameAndType .. => some .nameAndType
  | member .. => some .member
  | methodHandle .. => some .methodHandle
  | integer _ | float _ | long _ | double _ | methodType _ | dynamic .. | invokeDynamic .. | moduleInfo _
  | packageInfo _ => none

/-- The indices in a constant, each with the kind of constant that has to stand there. -/
def references : Constant → List (UInt16 × ConstantKind)
  | classInfo name | moduleInfo name | packageInfo name => [(name, .utf8)]
  | string text => [(text, .utf8)]
  | methodType descriptor => [(descriptor, .utf8)]
  | nameAndType name descriptor => [(name, .utf8), (descriptor, .utf8)]
  | member _ owner pair => [(owner, .classInfo), (pair, .nameAndType)]
  | methodHandle _ reference => [(reference, .member)]
  | dynamic _ pair | invokeDynamic _ pair => [(pair, .nameAndType)]
  | utf8 _ | integer _ | float _ | long _ | double _ => []

theorem kind_ne_string {constant : Constant} {reference : UInt16 × ConstantKind}
    (hreference : reference ∈ constant.references) : reference.2 ≠ .string := by
  cases constant with
  | classInfo | moduleInfo | packageInfo | string | methodType | methodHandle | dynamic | invokeDynamic =>
    obtain rfl := List.mem_singleton.mp hreference
    nofun
  | nameAndType | member =>
    rcases List.mem_pair.mp hreference with rfl | rfl <;> nofun
  | utf8 | integer | float | long | double => cases hreference

end Constant

namespace ConstantPool

def HasKind (pool : ConstantPool) (index : UInt16) (kind : ConstantKind) : Prop :=
  ∃ constant, pool.get? index = some constant ∧ constant.kind? = some kind

structure WellTyped (pool : ConstantPool) (constant : Constant) : Prop where
  hasKind : ∀ reference ∈ constant.references, pool.HasKind reference.1 reference.2
  handleKind : ∀ kind reference, constant = .methodHandle kind reference → 1 ≤ kind.toNat ∧ kind.toNat ≤ 9

variable {pool : ConstantPool} {index : UInt16} {constant : Constant}

/-- Each check of an index asks for the kind of the constant there. -/
theorem checks_iff (pool : ConstantPool) (index : UInt16) :
    (pool.isUtf8 index = true ↔ pool.HasKind index .utf8)
      ∧ (pool.isClass index = true ↔ pool.HasKind index .classInfo)
      ∧ (pool.isNameAndType index = true ↔ pool.HasKind index .nameAndType)
      ∧ (pool.isMember index = true ↔ pool.HasKind index .member) := by
  simp only [isUtf8, isClass, isNameAndType, isMember, HasKind]
  cases pool.get? index with
  | none => simp
  | some constant => cases constant <;> simp [Constant.kind?]

theorem wellTyped_iff :
    pool.WellTyped constant ↔ (∀ reference ∈ constant.references, pool.HasKind reference.1 reference.2)
    ∧ ∀ kind reference, constant = .methodHandle kind reference → 1 ≤ kind.toNat ∧ kind.toNat ≤ 9 :=
  ⟨fun h => ⟨h.hasKind, h.handleKind⟩, fun h => ⟨h.1, h.2⟩⟩

theorem refersWell_iff : pool.refersWell constant = true ↔ pool.WellTyped constant := by
  rw [wellTyped_iff]
  cases constant with
  | methodHandle kind reference =>
    simp [refersWell, Constant.references, checks_iff pool, UInt8.le_iff_toNat_le]
    exact and_comm
  | _ => simp [refersWell, Constant.references, checks_iff pool]

theorem firstBroken?_eq_none :
    pool.firstBroken? = none ↔ ∀ constant, some constant ∈ pool.slots → pool.refersWell constant = true := by
  rw [firstBroken?, Array.findIdx?_eq_none_iff]
  constructor
  · intro hall constant hmem
    simpa using hall (some constant) hmem
  · intro hall slot hmem
    cases slot with
    | none => rfl
    | some constant => simpa using hall constant hmem

structure FirstMistyped (pool : ConstantPool) (slot : Nat) : Prop where
  mistyped : ∃ constant, pool.slots[slot]? = some (some constant) ∧ ¬ pool.WellTyped constant
  first : ∀ earlier < slot, ∀ constant, pool.slots[earlier]? = some (some constant) → pool.WellTyped constant

theorem firstBroken?_eq_some {slot : Nat} : pool.firstBroken? = some slot ↔ pool.FirstMistyped slot := by
  rw [firstBroken?, Array.findIdx?_eq_some_iff_getElem]
  constructor
  · rintro ⟨hlt, hbroken, hbefore⟩
    refine ⟨?_, fun earlier hearlier constant hconstant => ?_⟩
    · cases hslot : pool.slots[slot] with
      | none => simp [hslot] at hbroken
      | some constant =>
        refine ⟨constant, Array.getElem?_eq_some_iff.mpr ⟨hlt, hslot⟩, ?_⟩
        rw [← refersWell_iff]
        simpa [hslot] using hbroken
    · obtain ⟨_, hslot⟩ := Array.getElem?_eq_some_iff.mp hconstant
      rw [← refersWell_iff]
      simpa [hslot] using hbefore earlier hearlier
  · rintro ⟨⟨constant, hconstant, hmistyped⟩, hfirst⟩
    obtain ⟨hlt, hslot⟩ := Array.getElem?_eq_some_iff.mp hconstant
    refine ⟨hlt, ?_, fun earlier hearlier => ?_⟩
    · simpa [hslot, ← refersWell_iff] using hmistyped
    · cases hearlierSlot : pool.slots[earlier] with
      | none => simp
      | some other =>
        have htyped := hfirst earlier hearlier other (Array.getElem?_eq_some_iff.mpr ⟨by omega, hearlierSlot⟩)
        simpa [← refersWell_iff] using htyped

end ConstantPool

end Retoken
