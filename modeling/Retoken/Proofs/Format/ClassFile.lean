import Retoken.Proofs.Format.Loads
import Retoken.Proofs.Relinking.References

/-!
# Class files and their layouts

A file that can be read is written for a layout of a class file, and its sites are those for the locations that the layout lists. So no text that is named in a last attribute of its name is missed, none is found twice, and an earlier attribute with the same name is not looked at any more.
-/

namespace Retoken

open BigEndian Reader

variable {pool : ConstantPool} {start stop : Cursor} {attr : Attribute}

namespace ClassFile

namespace ClassAttributes

def found (attributes : ClassAttributes) (name : String) : List (List StringSite) × List BootstrapEntry :=
  if name = "RuntimeVisibleAnnotations" then (attributes.annotations.visible.map (·.sites), [])
  else if name = "RuntimeInvisibleAnnotations" then (attributes.annotations.invisible.map (·.sites), [])
  else if name = "BootstrapMethods" then ([], attributes.bootstrapMethods.map Instruction.entryOf)
  else ([], [])

def FoundShown (pool : ConstantPool) (position : Nat) (content : AttributeContent)
    (found : List (List StringSite) × List BootstrapEntry) : Prop :=
  Shown pool position content found.1 ∧ found.2 = content.entries pool position

theorem add_adds {attributes attributes' : ClassAttributes} (hadd : add pool attributes attr = .ok attributes') :
    ∃ content, Attribute.Adds .ofClass found (FoundShown pool) attributes attr attributes' content := by
  have htakes := add_eq_ok.mp hadd
  generalize hname : attr.name = name at htakes
  cases htakes with
  | visible hparse | invisible hparse =>
    obtain ⟨content, hholds⟩ := Attribute.exists_annotations hparse
    have hentries : [] = content.entries pool attr.body.position :=
      (AttributeContent.entries_eq_nil (by rw [hholds.kind]; decide)).symm
    exact ⟨content, hholds.adds hname rfl ⟨hholds.shown, hentries⟩ fun other hne => by simp only [found, if_neg hne]⟩
  | bootstrapMethods hparse =>
    obtain ⟨content, hholds, hentries⟩ := Attribute.exists_bootstrapMethods hparse
    exact ⟨content, hholds.adds hname rfl ⟨hholds.shown, hentries⟩ fun other hne => by simp only [found, if_neg hne]⟩
  | other hvisible hinvisible hbootstrap =>
    have hkind : AttributeKind.ofClass name = .other := by
      rw [AttributeKind.ofClass] <;> assumption
    have hnone : found attributes name = ([], []) := by
      rw [found, if_neg hvisible, if_neg hinvisible, if_neg hbootstrap]
    refine ⟨_, (attr.holds_other pool).adds hname hkind ?_ fun _ _ => rfl⟩
    rw [hnone]
    exact ⟨rfl, rfl⟩

/-- The attributes of the class with their layouts: the annotations and the bootstrap methods. -/
theorem collect_undoes : Undoes (Attribute.collect pool (add pool) {}) (countedToBytes AttributeLayout.toBytes)
    fun position layouts attributes => layouts.length ≤ maxCount ∧ (∀ attr ∈ layouts, attr.WellFormed pool .ofClass)
      ∧ (∀ name, (attributes.found name).1
        = (AttributeLayout.inLast pool name AttributeContent.slots (position + 2) layouts).map
        (·.filterMap pool.siteAt?))
      ∧ attributes.bootstrapMethods.map Instruction.entryOf
        = AttributeLayout.inLast pool "BootstrapMethods" (AttributeContent.entries pool) (position + 2) layouts := by
  intro start stop attributes hread
  obtain ⟨layouts, hspells, hcount, hlayouts, hlast⟩ := Attribute.collect_undoes .ofClass found (FoundShown pool)
    (fun _ => True) (fun hadd _ => ⟨trivial, add_adds hadd⟩) hread trivial
  refine ⟨layouts, hspells, hcount, hlayouts, fun name => ?_, ?_⟩
  · have hsites := hlast.part (·.1) fun _ _ _ hshown => hshown.1
    refine hsites.flatten_eq ?_
    simp [found]
  · have hentries : Attribute.FoundLast pool (fun attributes name => (found attributes name).2)
        (fun position content entries => entries = content.entries pool position) {}
            (start.position + 2) layouts attributes :=
      hlast.part (·.2) fun _ _ _ hshown => hshown.2
    have hfound : (attributes.found "BootstrapMethods").2 = _ := hentries.eq_inLast (by simp [found])
    exact hfound

end ClassAttributes

theorem readSuperclass_spells {superclass? : Option String}
    (hread : readSuperclass pool start = .ok (superclass?, stop)) :
    ∃ index, start.Spells (bytes16 index) stop := by
  obtain ⟨index, hindex, -⟩ := readSuperclass_eq_ok.mp hread
  exact ⟨index, u16_eq_ok.mp hindex⟩

theorem readInterface_undoes : Undoes (indexed pool.className) bytes16 fun _ _ _ => True := by
  intro start stop name hread
  obtain ⟨index, hindex, -⟩ := indexed_spells hread
  exact ⟨index, hindex, trivial⟩

theorem exists_entry_of_stringSlots {methods : List BootstrapMethod} {slot : Slot}
    (hslot : slot ∈ stringSlots pool methods) :
    ∃ entry ∈ methods.map Instruction.entryOf, slot ∈ entry.2 := by
  rw [stringSlots_eq] at hslot
  obtain ⟨method, hmethod, hslot⟩ := List.mem_flatMap.mp (List.mem_of_mem_filter hslot)
  obtain ⟨argument, hargument, rfl⟩ := BootstrapMethod.mem_slots.mp hslot
  exact ⟨_, List.mem_map_of_mem hmethod, List.mem_map_of_mem hargument⟩

namespace Parts

variable {parts : Parts} {layout : ClassLayout} {minor major : UInt16}

structure LaidOut (pool : ConstantPool) (parts : Parts) (layout : ClassLayout) : Prop where
  pool_eq : layout.pool = pool
  fields : Row MemberLayout.toBytes (fun position member field => member.WellFormed pool .ofField
      ∧ field.located.sites = (member.fieldLocations pool position).filterMap pool.markedSiteAt?)
    layout.fieldsStart layout.fields parts.fields
  pending : Row MemberLayout.toBytes (PendingMethod.Describes pool) layout.methodsStart layout.methods parts.pending
  slots : ∀ name, (parts.attributes.found name).1 = (layout.slots name).map (·.filterMap pool.siteAt?)
  entries : parts.attributes.bootstrapMethods.map Instruction.entryOf = layout.entries

theorem ReadAt.codeReadable (hparts : parts.ReadAt pool start stop) : ∀ one ∈ parts.pending, one.CodeReadable := by
  intro one hmem
  obtain ⟨method, hcomplete⟩ := forall_of_mapM_eq_ok hparts.methods one hmem
  exact PendingMethod.codeReadable_of_complete hcomplete

/-- A file that is read up to its end is written for a layout. -/
theorem ReadAt.exists_layout {bytes : List UInt8} (hparts : parts.ReadAt pool start stop) (hreadable : pool.Readable)
    (hbefore : Cursor.Spells ⟨0, bytes⟩ (bytes32 magic ++ (bytes16 minor ++ bytes16 major) ++ pool.toBytes) start) :
    ∃ layout : ClassLayout, layout.toBytes = bytes ∧ layout.WellFormed ∧ parts.LaidOut pool layout := by
  obtain ⟨nameIndex, hname, -⟩ := indexed_spells hparts.name
  obtain ⟨superclassIndex, hsuperclass⟩ := readSuperclass_spells hparts.superclass?
  obtain ⟨interfaceIndices, hinterfaces, hinterfaceCount, -⟩ := readInterface_undoes.counted _ _ _ hparts.interfaces
  obtain ⟨fields, hfields, hfieldCount, hfieldRow⟩ := Field.read_undoes.counted _ _ _ hparts.fields
  obtain ⟨methods, hmethods, hmethodCount, hmethodRow⟩ :=
    PendingMethod.read_undoes.counted _ _ _ hparts.pending hparts.codeReadable
  obtain ⟨attributes, hattributes, hattributeCount, hformed, hslots, hentries⟩ :=
    ClassAttributes.collect_undoes _ _ _ hparts.attributes
  let layout : ClassLayout := ⟨minor, major, pool, parts.access, nameIndex, superclassIndex, interfaceIndices, fields,
    methods, attributes⟩
  have hhead : Cursor.Spells ⟨0, bytes⟩ layout.head parts.afterInterfaces := by
    rw [ClassLayout.head, ClassLayout.header, ← List.append_assoc]
    exact hbefore.append (Cursor.Spells.append (u16_eq_ok.mp hparts.access)
      (hname.append (hsuperclass.append hinterfaces)))
  have hfieldsStart : parts.afterInterfaces.position + 2 = layout.fieldsStart := by
    rw [hhead.2, Nat.zero_add, ClassLayout.fieldsStart]
  have hmethodsStart : parts.afterFields.position + 2 = layout.methodsStart := by
    rw [hfields.2, hhead.2, Nat.zero_add, ClassLayout.methodsStart]
  have hattributesStart : parts.afterPending.position + 2 = layout.attributesStart := by
    rw [hmethods.2, hfields.2, hhead.2, Nat.zero_add, ClassLayout.attributesStart]
  rw [hfieldsStart] at hfieldRow
  rw [hmethodsStart] at hmethodRow
  simp only [hattributesStart] at hslots hentries
  refine ⟨layout, ?_, ⟨hreadable, hinterfaceCount, hfieldCount, ?_, hmethodCount, ?_, hattributeCount, hformed⟩,
    rfl, hfieldRow, hmethodRow, hslots, hentries⟩
  · have hwhole := (hhead.append (hfields.append (hmethods.append hattributes))).1
    rw [hparts.ended, List.append_nil] at hwhole
    exact hwhole.symm
  · exact hfieldRow.forall_layouts fun _ _ _ hrelated => hrelated.1
  · exact hmethodRow.forall_layouts fun _ _ _ hdescribes => hdescribes.wellFormed

theorem LaidOut.sites (hlaid : parts.LaidOut pool layout) (hparts : parts.ReadAt pool start stop) :
    (parts.declaration minor major).located.sites = layout.locations.filterMap pool.markedSiteAt? := by
  obtain ⟨rfl, hfieldRow, hmethodRow, hslots, hentries⟩ := hlaid
  have hannotations : ∀ (name : String) {uses : List (AnnotationUse StringSite)},
      (parts.attributes.found name).1 = uses.map (·.sites) →
        uses.flatMap (·.sites) = (layout.slots name).flatten.filterMap layout.pool.siteAt? := by
    intro name uses hfound
    rw [List.flatMap_def, ← hfound, hslots, List.filterMap_flatten]
  have hmethods : parts.methods.flatMap (·.located.sites)
      = (inRow MemberLayout.toBytes (fun position method => method.methodLocations layout.pool position layout.entries)
        layout.methodsStart layout.methods).filterMap layout.pool.markedSiteAt? := by
    rw [inRow_filterMap, ← hentries]
    refine (hmethodRow.mapM hparts.methods).flatMap_eq ?_
    rintro position member method ⟨one, hdescribes, hcomplete⟩
    exact PendingMethod.sites_complete hdescribes hcomplete
  have hfields : parts.fields.flatMap (·.located.sites)
      = (inRow MemberLayout.toBytes (fun position field => field.fieldLocations layout.pool position)
        layout.fieldsStart layout.fields).filterMap layout.pool.markedSiteAt? := by
    rw [inRow_filterMap]
    exact hfieldRow.flatMap_eq fun _ _ _ hrelated => hrelated.2
  rw [Declaration.sites_eq, ClassLayout.locations, List.filterMap_append, List.filterMap_append,
    ConstantPool.filterMap_marked]
  simp only [Declaration.located, declaration, Annotations.sites_map, List.flatMap_map]
  rw [hmethods, hfields, Annotations.sites, hannotations "RuntimeVisibleAnnotations" rfl,
    hannotations "RuntimeInvisibleAnnotations" rfl, List.filterMap_append]

theorem ReadAt.kind_of_load (hparts : parts.ReadAt pool start stop) :
    ∀ method ∈ parts.methods, ∀ offset opcode site, .load offset opcode (.string site) ∈ method.instructions →
      site.slot.kind = if opcode = Bytecode.narrowLoad then .narrowString else .wideString := by
  intro method hmethod offset opcode site hload
  obtain ⟨one, hone, hcomplete⟩ := exists_of_mem_mapM hparts.methods hmethod
  exact PendingMethod.kind_of_load (hparts.bare one hone) hcomplete hload

end Parts

/-- What a layout says about the declaration and the slots of bootstrap arguments that are read from its bytes. -/
structure Described (pool : ConstantPool) (strings : List Slot) (declaration : Declaration StringSite)
    (layout : ClassLayout) :
    Prop where
  pool_eq : layout.pool = pool
  wellFormed : layout.WellFormed
  sites : declaration.located.sites = layout.locations.filterMap pool.markedSiteAt?
  strings : ∀ slot ∈ strings, ∃ entry ∈ layout.entries, slot ∈ entry.2
  loads : ∀ method ∈ declaration.methods, ∀ offset opcode site,
    .load offset opcode (.string site) ∈ method.instructions →
    site.slot.kind = if opcode = Bytecode.narrowLoad then .narrowString else .wideString

/-- The bytes of a file are those of a layout that describes what is read. -/
theorem readDeclaration_described {bytes : List UInt8} {minor major : UInt16} {strings : List Slot}
    {declaration : Declaration StringSite} (hreadable : pool.Readable)
    (hbefore : Cursor.Spells ⟨0, bytes⟩ (bytes32 magic ++ (bytes16 minor ++ bytes16 major) ++ pool.toBytes) start)
    (hread : readDeclaration pool minor major start = .ok ((strings, declaration), stop)) :
    ∃ layout : ClassLayout, layout.toBytes = bytes ∧ Described pool strings declaration layout := by
  obtain ⟨parts, hparts, rfl, rfl⟩ := readDeclaration_eq_ok.mp hread
  obtain ⟨layout, hbytes, hformed, hlaid⟩ := hparts.exists_layout hreadable hbefore
  refine ⟨layout, hbytes, hlaid.pool_eq, hformed, hlaid.sites hparts, fun slot hslot => ?_, hparts.kind_of_load⟩
  rw [← hlaid.entries]
  exact exists_entry_of_stringSlots hslot

theorem exists_described {bytes : List UInt8} {file : ClassFile} (hfile : ofBytes bytes = .ok file) :
    ∃ layout : ClassLayout, layout.toBytes = bytes
      ∧ Described file.pool file.bootstrapStrings file.declaration layout := by
  obtain ⟨-, minor, major, afterHeader, afterPool, stop, hheader, hpool, hdeclaration⟩ := read_of_ofBytes hfile
  obtain ⟨hreadable, hpoolSpelled⟩ := ConstantPool.spells_of_read hpool
  exact readDeclaration_described hreadable (hheader.append hpoolSpelled) hdeclaration

/-- The sites of a file are those for the locations in its layout. Those outside of dynamic calls are all at different positions. -/
theorem sites_eq_locations {bytes : List UInt8} {file : ClassFile} (hfile : ofBytes bytes = .ok file) :
    (∃ layout : ClassLayout, layout.pool = file.pool ∧ layout.WellFormed ∧ layout.toBytes = bytes
        ∧ file.declaration.located.sites = layout.locations.filterMap file.pool.markedSiteAt?)
      ∧ (file.declaration.ownSites.map (·.slot.position)).Nodup := by
  obtain ⟨-, methods, held, hlegible⟩ := exists_legible hfile (map_reverted hfile)
  refine ⟨?_, (List.nodup_append.mp hlegible.positions_nodup).1⟩
  obtain ⟨layout, hbytes, hdescribed⟩ := exists_described hfile
  exact ⟨layout, hdescribed.pool_eq, hdescribed.wellFormed, hbytes, hdescribed.sites⟩

/-- A class with two attributes for visible annotations, which hold the texts "x" and "y". -/
def repeatedClass : List UInt8 :=
  [0xCA, 0xFE, 0xBA, 0xBE, 0x00, 0x00, 0x00, 0x3D, 0x00, 0x08, 0x01, 0x00, 0x01, 0x41, 0x07, 0x00, 0x01, 0x01, 0x00,
    0x19, 0x52, 0x75, 0x6E, 0x74, 0x69, 0x6D, 0x65, 0x56, 0x69, 0x73, 0x69, 0x62, 0x6C, 0x65, 0x41, 0x6E, 0x6E, 0x6F,
    0x74, 0x61, 0x74, 0x69, 0x6F, 0x6E, 0x73, 0x01, 0x00, 0x03, 0x4C, 0x41, 0x3B, 0x01, 0x00, 0x01, 0x6E, 0x01, 0x00,
    0x01, 0x78, 0x01, 0x00, 0x01, 0x79, 0x00, 0x00, 0x00, 0x02, 0x00, 0x00, 0x00, 0x00, 0x00, 0x00, 0x00, 0x00, 0x00,
    0x02, 0x00, 0x03, 0x00, 0x00, 0x00, 0x0B, 0x00, 0x01, 0x00, 0x04, 0x00, 0x01, 0x00, 0x05, 0x73, 0x00, 0x06, 0x00,
    0x03, 0x00, 0x00, 0x00, 0x0B, 0x00, 0x01, 0x00, 0x04, 0x00, 0x01, 0x00, 0x05, 0x73, 0x00, 0x07]

theorem sites_eq_locations_repeatedClass : ∃ file, ofBytes repeatedClass = .ok file
    ∧ file.declaration.records = [⟨.onClass, "y"⟩]
    ∧ ∃ layout : ClassLayout, layout.WellFormed ∧ layout.toBytes = repeatedClass
      ∧ file.declaration.located.sites = layout.locations.filterMap file.pool.markedSiteAt? := by
  have hrecords : (ofBytes repeatedClass).map (·.declaration.records) = .ok [⟨.onClass, "y"⟩] := by
    decide +kernel
  obtain ⟨file, hfile, hrecords⟩ := except_map_eq_ok.mp hrecords
  obtain ⟨⟨layout, -, hwellFormed, hbytes, hsites⟩, -⟩ := sites_eq_locations hfile
  exact ⟨file, hfile, hrecords, layout, hwellFormed, hbytes, hsites⟩

end ClassFile

end Retoken
