import Mathlib.Data.List.Nodup
import Mathlib.Data.List.Pairwise
import Retoken.Proofs.Relinking.Settling
import Retoken.Proofs.Relocation.Legible

/-!
# The references of a file

The references that relinking settles are the sites of a file and the bootstrap arguments that no site stands for. Each stands at a slot that reading the file came across, so they are apart where they are not the same, and each names a constant of its kind.
-/

namespace Retoken

/-- Slots that are met once have positions that are met once. -/
theorem nodup_positions_of_subperm {low high : Nat} {slots held : List Slot} (hspread : Spread low high held)
    (hslots : slots.Subperm held) : (slots.map (·.position)).Nodup := by
  obtain ⟨kept, hperm, hsublist⟩ := hslots
  exact ((hperm.map _).nodup_iff).mp (hspread.nodup_positions.sublist (hsublist.map _))

namespace ClassFile

open Relinking

variable {file : ClassFile} {methods : List BootstrapMethod} {held : List Slot} {site other : StringSite}
  {reference : Reference}

theorem mem_stringReferences :
    reference ∈ file.stringReferences
      ↔ (∃ site ∈ file.declaration.sites, site.slot.kind.namesString = true ∧ .ofSite site = reference)
        ∨ ∃ slot ∈ file.bootstrapStrings, reference = ⟨slot, none⟩
          ∧ ∀ site ∈ file.declaration.sites, site.slot.kind.namesString = true →
            site.slot.position ≠ slot.position := by
  simp only [stringReferences, List.mem_append, List.mem_map, List.mem_filter, Bool.not_eq_true',
    Std.TreeSet.contains_ofList, List.contains_eq_mem, decide_eq_false_iff_not]
  constructor
  · rintro (⟨site, ⟨hsite, hkind⟩, heq⟩ | ⟨slot, ⟨hslot, huncovered⟩, heq⟩)
    · exact .inl ⟨site, hsite, hkind, heq⟩
    · exact .inr ⟨slot, hslot, heq.symm, fun site hsite hkind hposition =>
        huncovered ⟨site, ⟨hsite, hkind⟩, hposition⟩⟩
  · rintro (⟨site, hsite, hkind, heq⟩ | ⟨slot, hslot, heq, huncovered⟩)
    · exact .inl ⟨site, ⟨hsite, hkind⟩, heq⟩
    · exact .inr ⟨slot, ⟨hslot, fun ⟨site, ⟨hsite, hkind⟩, hposition⟩ =>
        huncovered site hsite hkind hposition⟩, heq.symm⟩

theorem mem_textReferences :
    reference ∈ file.textReferences
      ↔ ∃ site ∈ file.declaration.sites, site.slot.kind.namesString = false ∧ .ofSite site = reference := by
  simp only [textReferences, List.mem_map, List.mem_filter, Bool.not_eq_true', and_assoc]

theorem kind_of_mem_methodSlots {slot : Slot} (hslot : slot ∈ methods.flatMap BootstrapMethod.slots) :
    slot.kind = .wideString := by
  obtain ⟨method, -, hslot⟩ := List.mem_flatMap.mp hslot
  obtain ⟨argument, -, rfl⟩ := BootstrapMethod.mem_slots.mp hslot
  rfl

namespace Legible

variable (hlegible : file.Legible methods held)

include hlegible

theorem slot_mem_held (hsite : site ∈ file.declaration.sites) : site.slot ∈ held := by
  rcases Declaration.mem_sites.mp hsite with hown | hargument
  · exact hlegible.slots.subset (List.mem_append_left _ (List.mem_map_of_mem hown))
  · obtain ⟨call, hcall, hmem⟩ := Declaration.mem_callArguments.mp hargument
    obtain ⟨method, hmethod, -, hslots⟩ := hlegible.calls call hcall
    exact hlegible.slots.subset (List.mem_append_right _ (List.mem_flatMap.mpr ⟨method, hmethod, hslots site hmem⟩))

theorem mem_methodSlots (hsite : site ∈ file.declaration.callArguments) :
    site.slot ∈ methods.flatMap BootstrapMethod.slots := by
  obtain ⟨call, hcall, hmem⟩ := Declaration.mem_callArguments.mp hsite
  obtain ⟨method, hmethod, -, hslots⟩ := hlegible.calls call hcall
  exact List.mem_flatMap.mpr ⟨method, hmethod, hslots site hmem⟩

theorem kind_of_mem_callArguments (hsite : site ∈ file.declaration.callArguments) :
    site.slot.kind = .wideString :=
  kind_of_mem_methodSlots (hlegible.mem_methodSlots hsite)

theorem positions_nodup : (file.declaration.ownSites.map (·.slot.position)
    ++ (methods.flatMap BootstrapMethod.slots).map (·.position)).Nodup := by
  have hnodup := nodup_positions_of_subperm hlegible.spread hlegible.slots
  rw [List.map_append, List.map_map] at hnodup
  exact hnodup

theorem eq_of_position_own (hown : site ∈ file.declaration.ownSites) (hother : other ∈ file.declaration.sites)
    (hposition : site.slot.position = other.slot.position) : site = other := by
  have hnodup := List.nodup_append.mp hlegible.positions_nodup
  rcases Declaration.mem_sites.mp hother with hotherOwn | hargument
  · exact List.inj_on_of_nodup_map hnodup.1 hown hotherOwn hposition
  · have hslot := List.mem_map_of_mem (f := fun slot : Slot => slot.position) (hlegible.mem_methodSlots hargument)
    exact absurd hposition (hnodup.2.2 _ (List.mem_map_of_mem hown) _ hslot)

/-- Two sites at one slot that are not the same are arguments of dynamic calls. -/
theorem callArguments_of_position (hsite : site ∈ file.declaration.sites) (hother : other ∈ file.declaration.sites)
    (hposition : site.slot.position = other.slot.position) (hne : site ≠ other) :
    site ∈ file.declaration.callArguments ∧ other ∈ file.declaration.callArguments := by
  rcases Declaration.mem_sites.mp hsite with hown | hargument
  · exact absurd (hlegible.eq_of_position_own hown hother hposition) hne
  · rcases Declaration.mem_sites.mp hother with hown | hargumentOther
    · exact absurd (hlegible.eq_of_position_own hown hsite hposition.symm) hne.symm
    · exact ⟨hargument, hargumentOther⟩

/-- A site is an argument of a dynamic call only at a slot of the kind that these have. -/
theorem mem_ownSites_of_kind (hsite : site ∈ file.declaration.sites) (hkind : site.slot.kind ≠ .wideString) :
    site ∈ file.declaration.ownSites := by
  rcases Declaration.mem_sites.mp hsite with hown | hargument
  · exact hown
  · exact absurd (hlegible.kind_of_mem_callArguments hargument) hkind

theorem slot_eq_of_position (hsite : site ∈ file.declaration.sites) (hother : other ∈ file.declaration.sites)
    (hposition : site.slot.position = other.slot.position) : site.slot = other.slot :=
  hlegible.spread.eq_of_position (hlegible.slot_mem_held hsite) (hlegible.slot_mem_held hother) hposition

/-- Calls that have arguments at one slot go through one bootstrap method. -/
theorem handle_eq_of_position {call call' : MethodHandle × List StringSite} (hcall : call ∈ file.declaration.calls)
    (hcall' : call' ∈ file.declaration.calls) (hsite : site ∈ call.2) (hother : other ∈ call'.2)
    (hposition : site.slot.position = other.slot.position) : call.1 = call'.1 := by
  obtain ⟨method, hmethod, hhandle, hslots⟩ := hlegible.calls call hcall
  obtain ⟨method', hmethod', hhandle', hslots'⟩ := hlegible.calls call' hcall'
  have hslot : site.slot = other.slot := hlegible.slot_eq_of_position
    (Declaration.mem_sites_of_mem_call hcall hsite) (Declaration.mem_sites_of_mem_call hcall' hother) hposition
  have hnodup := List.nodup_flatMap.mp (List.Nodup.of_map _ (List.nodup_append.mp hlegible.positions_nodup).2.1)
  have hmethods : method = method' := by
    by_contra hne
    have hsymm : Std.Symm (Function.onFun List.Disjoint BootstrapMethod.slots) := 
      ⟨fun _ _ hapart _ hsecond hfirst => hapart hfirst hsecond⟩
    have hdisjoint := hnodup.2.forall hmethod hmethod' hne
    exact hdisjoint (hslots site hsite) (hslot ▸ hslots' other hother)
  rw [← hhandle, ← hhandle', hmethods]

theorem bootstrapStrings_held {slot : Slot} (hslot : slot ∈ file.bootstrapStrings) :
    slot ∈ held ∧ slot.kind = .wideString ∧ isString file.pool slot.index = true := by
  rw [hlegible.strings, stringSlots_eq] at hslot
  obtain ⟨hargument, hstring⟩ := List.mem_filter.mp hslot
  exact ⟨hlegible.slots.subset (List.mem_append_right _ hargument), kind_of_mem_methodSlots hargument, hstring⟩

theorem stringSlot_held (hmem : reference ∈ file.stringReferences) :
    reference.slot ∈ held ∧ reference.slot.kind.namesString = true
      ∧ isString file.pool reference.slot.index = true := by
  rcases mem_stringReferences.mp hmem with ⟨site, hsite, hkind, rfl⟩ | ⟨slot, hslot, rfl, -⟩
  · refine ⟨hlegible.slot_mem_held hsite, hkind, ?_⟩
    obtain ⟨textIndex, hstring, -⟩ := (ConstantPool.shownText?_string hkind).mp (hlegible.shown site hsite)
    rw [isString]
    exact hstring ▸ rfl
  · obtain ⟨hheld, hkind, hstring⟩ := hlegible.bootstrapStrings_held hslot
    exact ⟨hheld, by rw [hkind]; rfl, hstring⟩

theorem textSlot_held (hmem : reference ∈ file.textReferences) :
    reference.slot ∈ held ∧ reference.slot.kind.namesString = false := by
  obtain ⟨site, hsite, hkind, rfl⟩ := mem_textReferences.mp hmem
  exact ⟨hlegible.slot_mem_held hsite, hkind⟩

theorem textPositions_nodup : (file.textReferences.map (·.slot.position)).Nodup := by
  have hperm := file.declaration.sites_perm.filter (!·.slot.kind.namesString)
  have harguments : file.declaration.callArguments.filter (!·.slot.kind.namesString) = [] := by
    refine List.filter_eq_nil_iff.mpr fun site hsite => ?_
    rw [hlegible.kind_of_mem_callArguments hsite]
    decide
  rw [List.filter_append, harguments, List.append_nil] at hperm
  rw [textReferences, List.map_map]
  refine (hperm.map _).nodup_iff.mpr ?_
  exact (List.nodup_append.mp hlegible.positions_nodup).1.sublist (List.filter_sublist.map _)

theorem relinkable : Relinkable file.pool file.stringReferences file.textReferences where
  size_le := hlegible.readable.size_le
  kinds _ hmem := (hlegible.stringSlot_held hmem).2.1
  slots _ hone _ hother hposition :=
    hlegible.spread.eq_of_position (hlegible.stringSlot_held hone).1 (hlegible.stringSlot_held hother).1 hposition
  named reference hmem := by
    obtain ⟨-, -, hstring⟩ := hlegible.stringSlot_held hmem
    rw [isString] at hstring
    split at hstring
    case h_1 text hget =>
      refine ⟨text, hget, ?_⟩
      have hslot := Option.join_eq_some_iff.mp hget
      exact ConstantPool.firstBroken?_eq_none.mp hlegible.readable.unbroken _ (Array.mem_of_getElem? hslot)
    case h_2 => cases hstring
  apart := hlegible.textPositions_nodup
  disjoint reference hmem other hother hposition := by
    obtain ⟨hheld, hkind, -⟩ := hlegible.stringSlot_held hmem
    obtain ⟨hheldOther, hkindOther⟩ := hlegible.textSlot_held hother
    rw [hlegible.spread.eq_of_position hheld hheldOther hposition, hkindOther] at hkind
    cases hkind

end Legible

end ClassFile

end Retoken
