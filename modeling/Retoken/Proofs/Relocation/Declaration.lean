import Retoken.Proofs.Relocation.Completion

/-!
# The declaration in a relocated file

Everything behind the pool is read again, and gives the same declaration with other texts at the sites. On the way all slots are collected: each site that is no argument of a dynamic call has a slot of its own, and so has each bootstrap argument.
-/

namespace Retoken

open Reader

variable {pool : ConstantPool} {start stop : Cursor}

namespace ClassFile

def ClassAttributes.slots (attributes : ClassAttributes) : List Slot :=
  attributes.annotations.sites.map (·.slot) ++ attributes.bootstrapMethods.flatMap BootstrapMethod.slots

theorem ClassAttributes.slots_eq (attributes : ClassAttributes) :
    attributes.slots = attributes.annotations.visible.flatMap AnnotationUse.slots
      ++ (attributes.annotations.invisible.flatMap AnnotationUse.slots
        ++ attributes.bootstrapMethods.flatMap BootstrapMethod.slots) := by
  rw [slots, Annotations.sites, List.map_append, List.map_flatMap, List.map_flatMap, List.append_assoc]
  rfl

end ClassFile

def Relocation.classAttributes (relocation : Relocation) (attributes : ClassFile.ClassAttributes) :
    ClassFile.ClassAttributes :=
  ⟨attributes.annotations.map relocation.site, attributes.bootstrapMethods.map relocation.bootstrapMethod⟩

namespace ClassFile

theorem ClassAttributes.Takes.carried {attributes attributes' : ClassAttributes} {attr : Attribute} {name : String}
    (htakes : Takes pool attr attributes name attributes') :
    ∃ added, attributes'.slots.Subperm (attributes.slots ++ added)
      ∧ Held pool attr.body.position attr.body.finish added fun relocation =>
        Takes relocation.target (relocation.attribute attr) (relocation.classAttributes attributes) name
          (relocation.classAttributes attributes') := by
  cases htakes with
  | visible hparse =>
    refine ⟨_, ?_, (Attribute.parse_held AnnotationUse.readAll_carried hparse).imp fun relocation _ hrun => ?_⟩
    · rw [slots_eq, slots_eq]
      exact subperm_replaced [] _ _ _
    · simpa only [Relocation.classAttributes, Annotations.map_eq] using Takes.visible hrun
  | invisible hparse =>
    refine ⟨_, ?_, (Attribute.parse_held AnnotationUse.readAll_carried hparse).imp fun relocation _ hrun => ?_⟩
    · rw [slots_eq, slots_eq]
      exact subperm_replaced _ _ _ _
    · simpa only [Relocation.classAttributes, Annotations.map_eq] using Takes.invisible hrun
  | bootstrapMethods hparse =>
    refine ⟨_, ?_, (Attribute.parse_held BootstrapMethod.readAll_carried hparse).imp
      fun relocation _ hrun => .bootstrapMethods hrun⟩
    rw [slots_eq, slots_eq]
    simpa using subperm_replaced (_ ++ _) _ _ []
  | other hvisible hinvisible hbootstrap =>
    exact ⟨[], by rw [List.append_nil], .nothing (Nat.le_add_right _ _) fun _ _ _ =>
      .other hvisible hinvisible hbootstrap⟩

theorem ClassAttributes.add_carried {attributes attributes' : ClassAttributes} {attr : Attribute}
    (hadd : add pool attributes attr = .ok attributes') :
    ∃ added, attributes'.slots.Subperm (attributes.slots ++ added)
      ∧ Held pool attr.body.position attr.body.finish added fun relocation =>
        add relocation.target (relocation.classAttributes attributes) (relocation.attribute attr)
          = .ok (relocation.classAttributes attributes') := by
  obtain ⟨added, hsub, hheld⟩ := (add_eq_ok.mp hadd).carried
  exact ⟨added, hsub, hheld.imp fun _ _ hrun => add_eq_ok.mpr hrun⟩

end ClassFile

namespace ClassFile

theorem readSuperclass_carried {superclass? : Option String}
    (hread : readSuperclass pool start = .ok (superclass?, stop)) :
    Carried pool start stop [] fun relocation =>
      readSuperclass relocation.target (relocation.cursor start)
        = .ok (superclass?, relocation.cursor stop) := by
  obtain ⟨index, hindex, hfound⟩ := readSuperclass_eq_ok.mp hread
  refine (u16_carried hindex).imp fun relocation hsource hrun => readSuperclass_eq_ok.mpr ⟨index, hrun, ?_⟩
  subst hsource
  obtain hnone | ⟨hsome, name, hname, rfl⟩ := hfound
  · exact .inl hnone
  · exact .inr ⟨hsome, name, relocation.className_kept hname, rfl⟩

theorem className_carried {name : String} (hread : indexed pool.className start = .ok (name, stop)) :
    Carried pool start stop [] fun relocation =>
      indexed relocation.target.className (relocation.cursor start) = .ok (name, relocation.cursor stop) :=
  indexed_carried ConstantPool.className Relocation.className_kept hread

theorem interfaces_carried {interfaces : List String}
    (hread : counted (indexed pool.className) start = .ok (interfaces, stop)) :
    Carried pool start stop [] fun relocation =>
      counted (indexed relocation.target.className) (relocation.cursor start)
        = .ok (interfaces, relocation.cursor stop) := by
  refine (counted_carried (fun relocation => indexed relocation.target.className) (fun _ => id)
    className_carried hread).mono List.nil_subperm fun relocation _ hrun => ?_
  rw [hrun, List.map_id]

theorem collect_carried {attributes : ClassAttributes}
    (hread : Attribute.collect pool (ClassAttributes.add pool) {} start = .ok (attributes, stop)) :
    Carried pool start stop attributes.slots fun relocation =>
      Attribute.collect relocation.target (ClassAttributes.add relocation.target) {}
          (relocation.cursor start)
        = .ok (relocation.classAttributes attributes, relocation.cursor stop) :=
  (Attribute.collect_carried (fun relocation => ClassAttributes.add relocation.target)
    ClassAttributes.slots Relocation.classAttributes (fun _ _ => True) (fun hadd => by
      obtain ⟨added, hsub, hheld⟩ := ClassAttributes.add_carried hadd
      exact ⟨added, hsub, hheld.imp fun _ _ hrun _ => ⟨hrun, trivial⟩⟩)
    rfl (fun _ => rfl) (fun _ => trivial) hread).imp fun _ _ hrun => hrun.1

namespace Parts

variable {parts : Parts} {minor major : UInt16}

/-- The slots of all parts but the instructions, which are still pending. -/
def slots (parts : Parts) : List Slot :=
  parts.fields.flatMap Field.slots ++ (parts.pending.flatMap PendingMethod.slots ++ parts.attributes.slots)

def relocated (parts : Parts) (relocation : Relocation) : Parts :=
  ⟨parts.access, relocation.cursor parts.afterAccess, parts.name, relocation.cursor parts.afterName, parts.superclass?,
    relocation.cursor parts.afterSuperclass, parts.interfaces, relocation.cursor parts.afterInterfaces,
    parts.fields.map (Field.map relocation.site), relocation.cursor parts.afterFields,
    parts.pending.map relocation.pending, relocation.cursor parts.afterPending,
      relocation.classAttributes parts.attributes,
    parts.methods.map (Method.map relocation.site)⟩

theorem declaration_relocated (relocation : Relocation) :
    (parts.relocated relocation).declaration minor major = (parts.declaration minor major).map relocation.site := by
  rw [Declaration.map_eq]
  rfl

variable (hparts : parts.ReadAt pool start stop)

include hparts

theorem ReadAt.bare : ∀ one ∈ parts.pending, one.method.instructions = [] :=
  counted_forall PendingMethod.instructions_read hparts.pending

theorem ReadAt.calls : ∀ call ∈ (parts.declaration minor major).calls, ∃ method ∈ parts.attributes.bootstrapMethods,
    method.handle = call.1 ∧ ∀ site ∈ call.2, site.slot ∈ method.slots := by
  intro call hcall
  obtain ⟨method, hmethod, hcall⟩ := List.mem_flatMap.mp hcall
  obtain ⟨one, hone, hcomplete⟩ := exists_of_mem_mapM hparts.methods hmethod
  exact PendingMethod.calls_complete (hparts.bare one hone) hcomplete hcall

theorem ReadAt.slots_subperm : ((parts.declaration minor major).ownSites.map (·.slot)
    ++ parts.attributes.bootstrapMethods.flatMap BootstrapMethod.slots).Subperm parts.slots := by
  have hfieldSlots : parts.fields.flatMap Field.slots = (parts.fields.flatMap (·.sites)).map (·.slot) :=
    List.map_flatMap.symm
  have hmethodSlots : ((parts.methods.flatMap (·.ownSites)).map (·.slot)).Subperm
      (parts.pending.flatMap PendingMethod.slots) := by
    rw [List.map_flatMap]
    exact mapM_flatMap_subperm _ _ hparts.methods fun one hone method hmethod =>
      PendingMethod.ownSlots_complete (hparts.bare one hone) hmethod
  rw [List.subperm_iff_count]
  intro slot
  have hcount := hmethodSlots.count_le slot
  simp only [Declaration.ownSites, declaration, slots, ClassAttributes.slots, hfieldSlots, List.map_append,
    List.count_append]
  omega

theorem ReadAt.carried : Carried pool start stop parts.slots fun relocation =>
    (parts.relocated relocation).ReadAt relocation.target (relocation.cursor start) (relocation.cursor stop) := by
  have hcarried := (u16_carried hparts.access).and ((className_carried hparts.name).and
    ((readSuperclass_carried hparts.superclass?).and ((interfaces_carried hparts.interfaces).and
    ((counted_carried (fun relocation => Field.read relocation.target)
      (fun relocation => Field.map relocation.site) Field.read_carried hparts.fields).and
    ((counted_kept (fun relocation => PendingMethod.read relocation.target) Relocation.pending
      PendingMethod.CodeKept PendingMethod.read_carried hparts.pending).and
    (collect_carried hparts.attributes))))))
  refine hcarried.keeps.imp ?_
  rintro relocation rfl ⟨⟨haccess, hname, hsuperclass, hinterfaces, hfields, ⟨hpending, hcode⟩, hattributes⟩, hkeeps⟩
  refine ⟨haccess, hname, hsuperclass, hinterfaces, hfields, hpending, hattributes, ?_, ?_⟩
  · rw [Relocation.cursor, hparts.ended, Relocation.overwrite_nil]
  · refine mapM_map_eq_ok hparts.methods fun one hone method hmethod =>
      PendingMethod.complete_kept (hcode one hone) (fun slot hslot => hkeeps slot ?_)
        (fun slot hslot => hkeeps slot ?_) hmethod
    · simp only [List.mem_append, List.mem_flatMap]
      exact .inr (.inr (.inr (.inr (.inr (.inl ⟨one, hone, hslot⟩)))))
    · simp only [ClassAttributes.slots, List.mem_append]
      exact .inr (.inr (.inr (.inr (.inr (.inr (.inr hslot))))))

end Parts

/-- What is read behind the pool, and where. The slots in between are those of the sites that are no arguments of dynamic calls, and those of all bootstrap arguments. -/
theorem readDeclaration_carried {minor major : UInt16} {strings : List Slot}
    {declaration : Declaration StringSite}
    (hread : readDeclaration pool minor major start = .ok ((strings, declaration), stop)) :
    ∃ methods : List BootstrapMethod,
      strings = stringSlots pool methods ∧ stop.rest = []
        ∧ (∀ call ∈ declaration.calls, ∃ method ∈ methods,
          method.handle = call.1 ∧ ∀ site ∈ call.2, site.slot ∈ method.slots)
        ∧ Carried pool start stop
          (declaration.ownSites.map (·.slot) ++ methods.flatMap BootstrapMethod.slots) fun relocation =>
            readDeclaration relocation.target minor major (relocation.cursor start)
              = .ok ((stringSlots relocation.target (methods.map relocation.bootstrapMethod),
                declaration.map relocation.site), relocation.cursor stop) := by
  obtain ⟨parts, hparts, rfl, rfl⟩ := readDeclaration_eq_ok.mp hread
  refine ⟨parts.attributes.bootstrapMethods, rfl, hparts.ended, hparts.calls, ?_⟩
  refine hparts.carried.mono hparts.slots_subperm fun relocation _ hrun => ?_
  exact readDeclaration_eq_ok.mpr ⟨_, hrun, rfl, (Parts.declaration_relocated relocation).symm⟩

end ClassFile

end Retoken
