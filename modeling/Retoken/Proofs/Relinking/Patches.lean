import Retoken.ClassFile.Relinking

/-!
# Patches

What patches write at a position. Patches that do not overlap all take effect, whatever the order in which they are written, and no other byte changes.
-/

namespace Retoken

def Patch.byteAt? (patch : Patch) (position other : Nat) : Option UInt8 :=
  if position ≤ other then patch.bytes[other - position]? else none

theorem Patch.length_bytes (patch : Patch) : patch.bytes.length = patch.kind.width := by
  rw [bytes]
  cases patch.kind <;> rfl

theorem Patch.byteAt?_add (patch : Patch) (position i : Nat) :
    patch.byteAt? position (position + i) = patch.bytes[i]? := by
  rw [byteAt?, if_pos (Nat.le_add_right _ _), Nat.add_sub_cancel_left]

theorem Patch.bounds_of_byteAt? {patch : Patch} {position other : Nat} {byte : UInt8}
    (hbyte : patch.byteAt? position other = some byte) :
    position ≤ other ∧ other < position + patch.kind.width := by
  rw [byteAt?] at hbyte
  split at hbyte
  case isTrue hle =>
    have hlt := (List.getElem?_eq_some_iff.mp hbyte).1
    rw [length_bytes] at hlt
    omega
  case isFalse => cases hbyte

namespace Patches

variable {patches patches' : Patches} {position other : Nat} {patch : Patch} {byte : UInt8}

theorem getElem?_insert :
    (patches.insert position patch)[other]? = if position = other then some patch else patches[other]? := by
  rw [Std.TreeMap.getElem?_insert]
  simp only [Std.LawfulEqCmp.compare_eq_iff_eq]

theorem add_eq_ok (hadd : patches.add position patch = .ok patches') :
    patches' = patches.insert position patch
      ∧ ∀ previous, patches[position]? = some previous → previous.index = patch.index := by
  rw [add] at hadd
  split at hadd
  case h_1 previous hprevious =>
    split at hadd
    case isTrue hsame =>
      cases hadd
      refine ⟨rfl, fun other hother => ?_⟩
      rw [hprevious] at hother
      cases hother
      exact hsame
    case isFalse => cases hadd
  case h_2 hnone =>
    cases hadd
    refine ⟨rfl, fun previous hprevious => ?_⟩
    rw [hnone] at hprevious
    cases hprevious

theorem add_eq_error {error : ClassError} (hadd : patches.add position patch = .error error) :
    error = .conflictingSlot position
      ∧ ∃ previous, patches[position]? = some previous ∧ previous.index ≠ patch.index := by
  rw [add] at hadd
  split at hadd
  case h_1 previous hprevious =>
    split at hadd
    case isTrue => cases hadd
    case isFalse hdiffers =>
      cases hadd
      exact ⟨rfl, previous, hprevious, hdiffers⟩
  case h_2 => cases hadd

def write (written : Std.TreeMap Nat UInt8) (position : Nat) (patch : Patch) : Std.TreeMap Nat UInt8 :=
  written.insertMany (patch.bytes.mapIdx fun i byte => (position + i, byte))

theorem getElem?_write (written : Std.TreeMap Nat UInt8) :
    (write written position patch)[other]? = (patch.byteAt? position other).or written[other]? := by
  obtain ⟨kind, index⟩ := patch
  cases kind with
  | narrowString =>
    simp only [write, Patch.byteAt?, Patch.bytes, List.mapIdx_cons, List.mapIdx_nil,
      Std.TreeMap.insertMany_list_singleton, Std.TreeMap.getElem?_insert, Std.LawfulEqCmp.compare_eq_iff_eq]
    grind
  | wideString | utf8 =>
    simp only [write, Patch.byteAt?, Patch.bytes, BigEndian.bytes16, List.mapIdx_cons, List.mapIdx_nil,
      Std.TreeMap.insertMany_cons, Std.TreeMap.insertMany_nil, Std.TreeMap.getElem?_insert,
      Std.LawfulEqCmp.compare_eq_iff_eq]
    grind

theorem bytes_eq (patches : Patches) :
    patches.bytes = patches.toList.foldl (fun written entry => write written entry.1 entry.2) ∅ := by
  rw [bytes, Std.TreeMap.foldl_eq_foldl_toList]
  rfl

theorem getElem?_foldl_write {entries : List (Nat × Patch)} {written : Std.TreeMap Nat UInt8}
    (hagree : ∀ entry ∈ entries, ∀ byte', entry.2.byteAt? entry.1 other = some byte' → byte' = byte)
    (hwritten : (∃ entry ∈ entries, entry.2.byteAt? entry.1 other = some byte) ∨ written[other]? = some byte) :
    (entries.foldl (fun written entry => write written entry.1 entry.2) written)[other]? = some byte := by
  induction entries generalizing written with
  | nil =>
    rcases hwritten with ⟨_, hmem, -⟩ | hwritten
    · cases hmem
    · exact hwritten
  | cons entry entries ih =>
    rw [List.foldl_cons]
    refine ih (fun later hlater => hagree later (List.mem_cons_of_mem _ hlater)) ?_
    rw [getElem?_write]
    cases hbyte : entry.2.byteAt? entry.1 other with
    | some byte' =>
      right
      rw [hagree entry List.mem_cons_self byte' hbyte]
      rfl
    | none =>
      rcases hwritten with ⟨later, hlater, hlaterByte⟩ | hwritten
      · rcases List.mem_cons.mp hlater with rfl | hmem
        · rw [hbyte] at hlaterByte
          cases hlaterByte
        · exact .inl ⟨later, hmem, hlaterByte⟩
      · exact .inr hwritten

theorem getElem?_foldl_write_of_none {entries : List (Nat × Patch)} {written : Std.TreeMap Nat UInt8}
    (hnone : ∀ entry ∈ entries, entry.2.byteAt? entry.1 other = none) :
    (entries.foldl (fun written entry => write written entry.1 entry.2) written)[other]? = written[other]? := by
  induction entries generalizing written with
  | nil => rfl
  | cons entry entries ih =>
    rw [List.foldl_cons, ih fun later hlater => hnone later (List.mem_cons_of_mem _ hlater),
      getElem?_write, hnone entry List.mem_cons_self, Option.none_or]

def Disjoint (patches : Patches) : Prop :=
  ∀ (position : Nat) (patch : Patch) (position' : Nat) (patch' : Patch) (other : Nat),
    patches[position]? = some patch → patches[position']? = some patch' →
    position ≤ other → other < position + patch.kind.width →
      position' ≤ other → other < position' + patch'.kind.width → position = position'

theorem getElem?_bytes (hdisjoint : patches.Disjoint) (hpatch : patches[position]? = some patch)
    (hbyte : patch.byteAt? position other = some byte) : patches.bytes[other]? = some byte := by
  rw [bytes_eq]
  refine getElem?_foldl_write ?_
    (.inl ⟨(position, patch), Std.TreeMap.mem_toList_iff_getElem?_eq_some.mpr hpatch, hbyte⟩)
  rintro ⟨position', patch'⟩ hentry byte' hbyte'
  have hpatch' := Std.TreeMap.mem_toList_iff_getElem?_eq_some.mp hentry
  obtain ⟨hle, hlt⟩ := Patch.bounds_of_byteAt? hbyte
  obtain ⟨hle', hlt'⟩ := Patch.bounds_of_byteAt? hbyte'
  obtain rfl := hdisjoint _ _ _ _ other hpatch hpatch' hle hlt hle' hlt'
  rw [hpatch] at hpatch'
  cases hpatch'
  rw [hbyte] at hbyte'
  exact (Option.some.inj hbyte').symm

theorem exists_of_getElem?_bytes (hwritten : patches.bytes[other]? ≠ none) :
    ∃ position patch, patches[position]? = some patch
      ∧ position ≤ other ∧ other < position + patch.kind.width := by
  refine Classical.byContradiction fun hnone => hwritten ?_
  rw [bytes_eq, getElem?_foldl_write_of_none]
  · exact Std.TreeMap.getElem?_emptyc
  · rintro ⟨position, patch⟩ hentry
    have hpatch := Std.TreeMap.mem_toList_iff_getElem?_eq_some.mp hentry
    cases hbyte : patch.byteAt? position other with
    | none => rfl
    | some byte => exact absurd ⟨position, patch, hpatch, Patch.bounds_of_byteAt? hbyte⟩ hnone

end Patches

end Retoken
