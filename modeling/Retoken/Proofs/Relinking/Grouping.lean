import Mathlib.Data.List.Induction
import Retoken.ClassFile.Relinking

/-!
# References by constant

All references to one string constant are settled together. The groups are what filtering the references by index gives, and no index has two groups.
-/

namespace Retoken.Relinking

def group (references : List Reference) (index : UInt16) : List Reference :=
  references.filter (·.slot.index = index)

theorem mem_group {references : List Reference} {index : UInt16} {reference : Reference} :
    reference ∈ group references index ↔ reference ∈ references ∧ reference.slot.index = index := by
  rw [group, List.mem_filter, decide_eq_true_iff]

def collected (references : List Reference) : Std.TreeMap UInt16 (Array Reference) :=
  references.foldl (fun groups reference =>
    groups.alter reference.slot.index fun group? => some ((group?.getD #[]).push reference)) ∅

theorem collected_append (references : List Reference) (reference : Reference) (index : UInt16) :
    (collected (references ++ [reference]))[index]?
      = if reference.slot.index = index
        then some (((collected references)[index]?.getD #[]).push reference)
        else (collected references)[index]? := by
  simp only [collected, List.foldl_append, List.foldl_cons, List.foldl_nil]
  rw [Std.TreeMap.getElem?_alter]
  simp only [Std.LawfulEqCmp.compare_eq_iff_eq]
  split
  case isTrue hindex => rw [hindex]
  case isFalse => rfl

theorem getElem?_collected (references : List Reference) (index : UInt16) :
    (collected references)[index]?
      = if group references index = [] then none else some (group references index).toArray := by
  induction references using List.reverseRecOn with
  | nil => exact Std.TreeMap.getElem?_emptyc
  | append_singleton references reference ih =>
    rw [collected_append, ih, group, group, List.filter_append]
    by_cases hindex : reference.slot.index = index
    · by_cases hempty : references.filter (·.slot.index = index) = []
      · simp [hindex, hempty]
      · simp [hindex, hempty]
    · simp [hindex]

theorem byIndex_eq (references : List Reference) :
    byIndex references = (collected references).toList.map fun entry => (entry.1, entry.2.toList) := rfl

theorem mem_byIndex {references : List Reference} {index : UInt16} {members : List Reference} :
    (index, members) ∈ byIndex references ↔ members = group references index ∧ members ≠ [] := by
  rw [byIndex_eq, List.mem_map]
  constructor
  · rintro ⟨⟨index', members'⟩, hentry, hsame⟩
    cases hsame
    rw [Std.TreeMap.mem_toList_iff_getElem?_eq_some, getElem?_collected] at hentry
    split at hentry
    case isTrue => cases hentry
    case isFalse hne =>
      cases hentry
      exact ⟨rfl, hne⟩
  · rintro ⟨rfl, hne⟩
    refine ⟨(index, (group references index).toArray), ?_, rfl⟩
    rw [Std.TreeMap.mem_toList_iff_getElem?_eq_some, getElem?_collected, if_neg hne]

theorem nodup_byIndex (references : List Reference) : ((byIndex references).map (·.1)).Nodup := by
  rw [byIndex_eq, List.map_map]
  refine List.pairwise_map.mpr (Std.TreeMap.distinct_keys_toList.imp fun {a b} hne heq => hne ?_)
  exact Std.LawfulEqCmp.compare_eq_iff_eq.mpr heq

theorem mem_flatMap_byIndex {references : List Reference} {reference : Reference} :
    reference ∈ (byIndex references).flatMap (·.2) ↔ reference ∈ references := by
  rw [List.mem_flatMap]
  constructor
  · rintro ⟨⟨index, members⟩, hentry, hmem⟩
    rw [(mem_byIndex.mp hentry).1] at hmem
    exact (mem_group.mp hmem).1
  · intro hmem
    have hgroup : reference ∈ group references reference.slot.index := mem_group.mpr ⟨hmem, rfl⟩
    exact ⟨_, mem_byIndex.mpr ⟨rfl, List.ne_nil_of_mem hgroup⟩, hgroup⟩

theorem index_ne_of_mem_earlier {references members : List Reference} {index : UInt16}
    {earlier later : List (UInt16 × List Reference)} {reference : Reference}
    (hentries : byIndex references = earlier ++ (index, members) :: later)
    (hmem : reference ∈ earlier.flatMap (·.2)) : reference ∈ references ∧ reference.slot.index ≠ index := by
  obtain ⟨⟨other, others⟩, hentry, hmem⟩ := List.mem_flatMap.mp hmem
  have hbyIndex : (other, others) ∈ byIndex references := by
    rw [hentries]
    exact List.mem_append_left _ hentry
  rw [(mem_byIndex.mp hbyIndex).1] at hmem
  obtain ⟨hmem, hother⟩ := mem_group.mp hmem
  refine ⟨hmem, fun hsame => ?_⟩
  have hnodup := nodup_byIndex references
  rw [hentries, List.map_append, List.map_cons, List.nodup_append] at hnodup
  refine hnodup.2.2 other (List.mem_map.mpr ⟨_, hentry, rfl⟩) index List.mem_cons_self ?_
  rw [← hother, hsame]

end Retoken.Relinking
