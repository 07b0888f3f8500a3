import Retoken.Proofs.Format.ClassFile
import Retoken.Proofs.Format.Stored
import Retoken.Proofs.RoundTrip

/-!
# What slots say is so

Writing a file patches it at its slots without looking at what is there. So all that is relied on must hold from the start: every slot of a file that was read tells where its index is written and what kind of constant that names, and patching one slot leaves the others alone. Only the arguments of a bootstrap method are met more than once, by each call that goes through it.
-/

namespace Retoken

def SlotKind.named : SlotKind → ConstantKind
  | narrowString | wideString => .string
  | utf8 => .utf8

namespace ClassFile

/-- The index of the slot is written behind the pool, and names a constant of the right kind. -/
structure Holds (file : ClassFile) (slot : Slot) : Prop where
  bounds : file.poolEnd ≤ slot.position ∧ slot.stop ≤ file.bytes.length
  stored : StandsAt file.bytes slot.position slot.operand
  narrow : slot.kind = .narrowString →
    slot.index.toNat ≤ 0xFF ∧ file.bytes[slot.position - 1]? = some Bytecode.narrowLoad
  named : file.pool.HasKind slot.index slot.kind.named

/-- All slots of a file hold what they say, and no two of them share a byte but for those of one bootstrap argument. -/
structure Slotted (file : ClassFile) : Prop where
  split : file.bytes = file.bytes.take poolStart ++ (file.pool.toBytes ++ file.bytes.drop file.poolEnd)
  sites : ∀ site ∈ file.declaration.sites,
    file.Holds site.slot ∧ file.pool.shownText? site.slot.kind site.slot.index = some site.stored
  strings : ∀ slot ∈ file.bootstrapStrings, file.Holds slot ∧ slot.kind = .wideString
  narrow : ∀ site ∈ file.declaration.sites, site.slot.kind = .narrowString
    ↔ ∃ method ∈ file.declaration.methods, ∃ offset,
      .load offset Bytecode.narrowLoad (.string site) ∈ method.instructions
  apart : (file.declaration.sites.map (·.slot) ++ file.bootstrapStrings).Pairwise fun slot other =>
    ∀ position, slot.Covers position → other.Covers position → slot = other ∧ slot ∈ file.bootstrapStrings
  once : (file.bootstrapStrings.map (·.position)).Nodup

variable {file : ClassFile} {bytes : List UInt8} {site : StringSite} {slot : Slot}

namespace Legible

variable {methods : List BootstrapMethod} {held : List Slot} (hlegible : file.Legible methods held)

include hlegible

/-- Where a call has a text, its bootstrap method names a string. -/
theorem mem_bootstrapStrings (hsite : site ∈ file.declaration.callArguments) : site.slot ∈ file.bootstrapStrings := by
  have hkind : site.slot.kind.namesString = true := by
    rw [hlegible.kind_of_mem_callArguments hsite]
    rfl
  obtain ⟨text, hget, -⟩ := (ConstantPool.shownText?_string hkind).mp
    (hlegible.shown site (Declaration.mem_sites.mpr (.inr hsite)))
  have hstring : isString file.pool site.slot.index = true := by
    rw [isString, hget]
  rw [hlegible.strings, stringSlots_eq]
  exact List.mem_filter.mpr ⟨hlegible.mem_methodSlots hsite, hstring⟩

theorem bootstrapStrings_sublist : file.bootstrapStrings.Sublist (methods.flatMap BootstrapMethod.slots) := by
  rw [hlegible.strings, stringSlots_eq]
  exact List.filter_sublist

theorem bootstrapStrings_nodup : (file.bootstrapStrings.map (·.position)).Nodup :=
  (List.nodup_append.mp hlegible.positions_nodup).2.1.sublist (hlegible.bootstrapStrings_sublist.map _)

theorem slots_apart : (file.declaration.sites.map (·.slot) ++ file.bootstrapStrings).Pairwise fun slot other =>
    ∀ position, slot.Covers position → other.Covers position → slot = other ∧ slot ∈ file.bootstrapStrings := by
  have hperm := (file.declaration.sites_perm.map (·.slot)).append_right file.bootstrapStrings
  rw [List.map_append, List.append_assoc] at hperm
  have harguments : ∀ slot ∈ file.declaration.callArguments.map (·.slot) ++ file.bootstrapStrings,
      slot ∈ file.bootstrapStrings := by
    intro slot hslot
    rcases List.mem_append.mp hslot with hcall | hstring
    · obtain ⟨site, hsite, rfl⟩ := List.mem_map.mp hcall
      exact hlegible.mem_bootstrapStrings hsite
    · exact hstring
  have hheld : ∀ slot ∈ file.bootstrapStrings, slot ∈ held := fun _ hslot => (hlegible.bootstrapStrings_held hslot).1
  obtain ⟨hown, -, hdisjoint⟩ := List.nodup_append.mp hlegible.positions_nodup
  refine (hperm.pairwise_iff ?_).mpr (List.pairwise_append.mpr ⟨?_, ?_, ?_⟩)
  · intro slot other hapart position hother hslot
    obtain ⟨rfl, hstring⟩ := hapart position hslot hother
    exact ⟨rfl, hstring⟩
  -- Two sites that are no arguments are at different positions, so that they do not share a byte.
  · refine List.pairwise_map.mpr ((List.pairwise_map.mp hown).imp_of_mem ?_)
    intro site other hsite hother hne position hslot hcovers
    have hsame := hlegible.spread.eq_of_covers (hlegible.slot_mem_held (Declaration.mem_sites.mpr (.inl hsite)))
      (hlegible.slot_mem_held (Declaration.mem_sites.mpr (.inl hother))) hslot hcovers
    exact absurd (congrArg Slot.position hsame) hne
  · refine List.pairwise_of_forall_mem_list fun slot hslot other hother position hcovers hcoversOther => ?_
    have hstring := harguments slot hslot
    exact ⟨hlegible.spread.eq_of_covers (hheld slot hstring)
      (hheld other (harguments other hother)) hcovers hcoversOther, hstring⟩
  · intro slot hslot other hother position hcovers hcoversOther
    obtain ⟨site, hsite, rfl⟩ := List.mem_map.mp hslot
    have hstring := harguments other hother
    have hsame := hlegible.spread.eq_of_covers (hlegible.slot_mem_held (Declaration.mem_sites.mpr (.inl hsite)))
      (hheld other hstring) hcovers hcoversOther
    exact absurd (congrArg Slot.position hsame) (hdisjoint _ (List.mem_map_of_mem hsite) _
      (List.mem_map_of_mem (hlegible.bootstrapStrings_sublist.subset hstring)))

end Legible

namespace Described

variable {pool : ConstantPool} {strings : List Slot} {declaration : Declaration StringSite} {layout : ClassLayout}
  (hdescribed : Described pool strings declaration layout)

include hdescribed

theorem exists_stored (hsite : site ∈ declaration.sites) :
    ∃ place?, (place?, site) ∈ declaration.located.sites ∧ LocationStored layout.toBytes (place?, site.slot) := by
  have hmarked := hsite
  rw [← declaration.located_map_snd, Declaration.sites_map] at hmarked
  obtain ⟨⟨place?, other⟩, hlocated, rfl⟩ := List.mem_map.mp hmarked
  refine ⟨place?, hlocated, ?_⟩
  rw [hdescribed.sites] at hlocated
  obtain ⟨⟨place, slot⟩, hlocation, hfound⟩ := List.mem_filterMap.mp hlocated
  obtain ⟨found, hfound, hsame⟩ := Option.map_eq_some_iff.mp hfound
  cases hsame
  obtain ⟨text, -, rfl⟩ := Option.map_eq_some_iff.mp hfound
  exact layout.locations_stored hdescribed.wellFormed _ hlocation

/-- The sites with one byte are those at short load instructions. -/
theorem narrow_iff (hsite : site ∈ declaration.sites) : site.slot.kind = .narrowString
    ↔ ∃ method ∈ declaration.methods, ∃ offset, .load offset Bytecode.narrowLoad
      (.string site) ∈ method.instructions := by
  constructor
  · intro hnarrow
    obtain ⟨place?, hlocated, hstored⟩ := hdescribed.exists_stored hsite
    obtain ⟨-, -, label, offset, rfl⟩ := hstored.narrow hnarrow
    obtain ⟨method, hmethod, opcode, hload⟩ := Declaration.exists_load_of_located hlocated
    have hkind := hdescribed.loads method hmethod offset opcode site hload
    by_cases hopcode : opcode = Bytecode.narrowLoad
    · exact ⟨method, hmethod, offset, hopcode ▸ hload⟩
    · rw [hnarrow, if_neg hopcode] at hkind
      cases hkind
  · rintro ⟨method, hmethod, offset, hload⟩
    rw [hdescribed.loads method hmethod offset _ site hload, if_pos rfl]

theorem strings_wide (hslot : slot ∈ strings) : slot.WideIn layout.toBytes := by
  obtain ⟨entry, hentry, hslot⟩ := hdescribed.strings slot hslot
  exact layout.entries_wide entry hentry slot hslot

end Described

theorem hasKind_of_isString {pool : ConstantPool} {index : UInt16} (hstring : isString pool index = true) :
    pool.HasKind index .string := by
  rw [isString] at hstring
  split at hstring
  case h_1 text hget => exact ⟨.string text, hget, rfl⟩
  case h_2 => cases hstring

theorem hasKind_of_shownText? {pool : ConstantPool} {kind : SlotKind} {index : UInt16} {text : String}
    (hshown : pool.shownText? kind index = some text) : pool.HasKind index kind.named := by
  cases kind with
  | narrowString | wideString =>
    obtain ⟨textIndex, hget, -⟩ := (ConstantPool.shownText?_string rfl).mp hshown
    exact ⟨.string textIndex, hget, rfl⟩
  | utf8 =>
    obtain ⟨bytes, hget, -⟩ := ConstantPool.textAt?_eq_some.mp hshown
    exact ⟨.utf8 bytes, hget, rfl⟩

/-- Whatever bytes are read, the slots of the file hold what they say and are apart. -/
theorem slotted_of_ofBytes (hfile : ofBytes bytes = .ok file) : file.bytes = bytes ∧ file.Slotted := by
  obtain ⟨hbytes, methods, held, hlegible⟩ := exists_legible hfile (map_reverted hfile)
  obtain ⟨layout, hlayout, hdescribed⟩ := exists_described hfile
  rw [← hbytes] at hlayout
  refine ⟨hbytes, hlegible.split, fun site hsite => ?_, fun slot hslot => ?_,
    fun site hsite => hdescribed.narrow_iff hsite, hlegible.slots_apart, hlegible.bootstrapStrings_nodup⟩
  · obtain ⟨place?, -, hstored⟩ := hdescribed.exists_stored hsite
    rw [hlayout] at hstored
    have hshown := hlegible.shown site hsite
    refine ⟨⟨hlegible.spread.bounds (hlegible.slot_mem_held hsite), hstored.operand, fun hnarrow => ?_,
      hasKind_of_shownText? hshown⟩, hshown⟩
    obtain ⟨hindex, hopcode, -⟩ := hstored.narrow hnarrow
    exact ⟨hindex, hopcode⟩
  · obtain ⟨hheld, hkind, hstring⟩ := hlegible.bootstrapStrings_held hslot
    have hwide := hdescribed.strings_wide hslot
    rw [hlayout] at hwide
    refine ⟨⟨hlegible.spread.bounds hheld, hwide.1, fun hnarrow => absurd hnarrow hwide.2, ?_⟩, hkind⟩
    rw [hkind]
    exact hasKind_of_isString hstring

/-- The two calls of the class meet one argument, and its load has a slot of one byte. -/
theorem slotted_of_ofBytes_sharedClass : ∃ file, ofBytes sharedClass = .ok file
    ∧ file.declaration.sites.map (·.slot) = [⟨.narrowString, 104, 3⟩, ⟨.wideString, 129, 3⟩, ⟨.wideString, 129, 3⟩]
    ∧ file.bootstrapStrings = [⟨.wideString, 129, 3⟩] ∧ file.Slotted := by
  have hslots : (ofBytes sharedClass).map (fun file => (file.declaration.sites.map (·.slot), file.bootstrapStrings))
      = .ok ([⟨.narrowString, 104, 3⟩, ⟨.wideString, 129, 3⟩, ⟨.wideString, 129, 3⟩], [⟨.wideString, 129, 3⟩]) := by
    decide +kernel
  obtain ⟨file, hfile, hslots⟩ := except_map_eq_ok.mp hslots
  obtain ⟨hsites, hstrings⟩ := Prod.mk.inj hslots
  exact ⟨file, hfile, hsites, hstrings, (slotted_of_ofBytes hfile).2⟩

end ClassFile

end Retoken
