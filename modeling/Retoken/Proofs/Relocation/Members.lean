import Retoken.Proofs.Relocation.Annotations
import Retoken.Proofs.Relocation.Attributes
import Retoken.Proofs.Relocation.Bytecode
import Retoken.Proofs.Relocation.Loading
import Retoken.Proofs.Relocation.Taking

/-!
# Fields and methods in a relocated file

A field is found again with other texts at its sites, and so is a method as far as its instructions are not concerned. Code that was set aside is set aside again, and reading it gives the same instructions with the indices that their slots hold now.
-/

namespace Retoken

open Reader

variable {pool : ConstantPool} {start stop : Cursor} {attr : Attribute}

/-- What takes the place of something else adds no more than itself. -/
theorem subperm_replaced (before old new after : List Slot) :
    (before ++ (new ++ after)).Subperm (before ++ (old ++ after) ++ new) := by
  rw [List.subperm_iff_count]
  intro slot
  simp only [List.count_append]
  omega

theorem subperm_behind (before : List Slot) {old new added : List Slot} (hsub : new.Subperm (old ++ added)) :
    (before ++ new).Subperm (before ++ old ++ added) := by
  rw [List.append_assoc]
  exact (List.subperm_append_left before).mpr hsub

theorem MemberHeader.ReadAt.carried {header : MemberHeader} (hheader : header.ReadAt pool start stop) :
    Carried pool start stop [] fun relocation =>
      header.ReadAt relocation.target (relocation.cursor start) (relocation.cursor stop) := by
  obtain ⟨afterAccess, afterName, haccess, hname, hdescriptor⟩ := hheader
  refine ((u16_carried haccess).and ((text_carried hname).and (text_carried hdescriptor))).imp
    fun relocation _ hrun => ?_
  exact ⟨relocation.cursor afterAccess, relocation.cursor afterName, hrun⟩

namespace Field

def slots (field : Field StringSite) : List Slot :=
  field.sites.map (·.slot)

theorem slots_eq (field : Field StringSite) :
    field.slots = (field.constant?.map fun constant => constant.sites.map (·.slot)).getD []
      ++ (field.annotations.visible.flatMap AnnotationUse.slots
        ++ field.annotations.invisible.flatMap AnnotationUse.slots) := by
  rw [slots, sites, Annotations.sites, List.map_append, List.map_append, List.map_flatMap,
    List.map_flatMap]
  cases field.constant? <;> rfl

theorem readConstant_carried {constant : Loadable StringSite}
    (hread : readConstant pool start = .ok (constant, stop)) :
    Carried pool start stop (constant.sites.map (·.slot)) fun relocation =>
      readConstant relocation.target (relocation.cursor start)
        = .ok (constant.map relocation.site, relocation.cursor stop) := by
  obtain ⟨index, hindex, hconstant⟩ := readConstant_eq_ok.mp hread
  refine (slot16_carried ⟨.wideString, start.position, index⟩ hindex nofun rfl rfl).keeps.mono
    (Loadable.slots_ofSlot hconstant).subperm fun relocation hsource hrun => ?_
  subst hsource
  obtain ⟨hindexRun, hkeeps⟩ := hrun
  have hkept := Loadable.ofSlot_kept rfl (hkeeps _ (List.mem_singleton.mpr rfl)) hconstant
  exact readConstant_eq_ok.mpr ⟨_, hindexRun, hkept⟩

theorem Takes.carried {field field' : Field StringSite} {name : String} (htakes : Takes pool attr field name field') :
    ∃ added, field'.slots.Subperm (field.slots ++ added)
      ∧ Held pool attr.body.position attr.body.finish added fun relocation =>
        Takes relocation.target (relocation.attribute attr) (field.map relocation.site) name
          (field'.map relocation.site) := by
  cases htakes with
  | constant hparse =>
    refine ⟨_, ?_, (Attribute.parse_held readConstant_carried hparse).imp fun relocation _ hrun => .constant hrun⟩
    rw [slots_eq, slots_eq]
    exact subperm_replaced [] _ _ _
  | visible hparse =>
    refine ⟨_, ?_, (Attribute.parse_held AnnotationUse.readAll_carried hparse).imp fun relocation _ hrun => ?_⟩
    · rw [slots_eq, slots_eq]
      exact subperm_replaced _ _ _ _
    · simpa only [map, Annotations.map_eq] using Takes.visible hrun
  | invisible hparse =>
    refine ⟨_, ?_, (Attribute.parse_held AnnotationUse.readAll_carried hparse).imp fun relocation _ hrun => ?_⟩
    · rw [slots_eq, slots_eq]
      exact subperm_behind _ (subperm_behind _ (List.sublist_append_right _ _).subperm)
    · simpa only [map, Annotations.map_eq] using Takes.invisible hrun
  | other hconstant hvisible hinvisible =>
    exact ⟨[], by rw [List.append_nil], .nothing (Nat.le_add_right _ _) fun _ _ _ =>
      .other hconstant hvisible hinvisible⟩

theorem addAttribute_carried {field field' : Field StringSite}
    (hadd : addAttribute pool field attr = .ok field') :
    ∃ added, field'.slots.Subperm (field.slots ++ added)
      ∧ Held pool attr.body.position attr.body.finish added fun relocation =>
        addAttribute relocation.target (field.map relocation.site) (relocation.attribute attr)
          = .ok (field'.map relocation.site) := by
  obtain ⟨added, hsub, hheld⟩ := (addAttribute_eq_ok.mp hadd).carried
  exact ⟨added, hsub, hheld.imp fun _ _ hrun => addAttribute_eq_ok.mpr hrun⟩

theorem read_carried {field : Field StringSite} (hread : read pool start = .ok (field, stop)) :
    Carried pool start stop field.slots fun relocation =>
      read relocation.target (relocation.cursor start)
        = .ok (field.map relocation.site, relocation.cursor stop) := by
  obtain ⟨header, middle, hheader, hread⟩ := read_eq_ok.mp hread
  have hcollect := Attribute.collect_carried (fun relocation => addAttribute relocation.target) slots
    (fun relocation => map relocation.site) (fun _ _ => True) (fun hadd => by
      obtain ⟨added, hsub, hheld⟩ := addAttribute_carried hadd
      exact ⟨added, hsub, hheld.imp fun _ _ hrun _ => ⟨hrun, trivial⟩⟩)
    rfl (fun _ => rfl) (fun _ => trivial) hread
  refine (hheader.carried.and hcollect).imp fun relocation _ hrun => ?_
  exact read_eq_ok.mpr ⟨header, _, hrun.1, hrun.2.1⟩

end Field

def Bytecode.codeSlots (code : Cursor) : List Slot :=
  match read code with
  | .ok located => located.flatMap Located.slots
  | .error _ => []

def Relocation.pending (relocation : Relocation) (pending : PendingMethod) : PendingMethod :=
  ⟨pending.method.map relocation.site, pending.code?.map relocation.cursor⟩

namespace PendingMethod

def CodeKept (relocation : Relocation) (pending : PendingMethod) : Prop :=
  ∀ code ∈ pending.code?, ∀ located, Bytecode.read code = .ok located →
    Bytecode.read (relocation.cursor code) = .ok (located.map relocation.located)

def slots (pending : PendingMethod) : List Slot :=
  pending.method.sites.map (·.slot) ++ (pending.code?.map Bytecode.codeSlots).getD []

theorem slots_eq (pending : PendingMethod) :
    pending.slots = (pending.method.instructions.flatMap (·.sites)).map (·.slot)
      ++ (pending.method.annotations.visible.flatMap AnnotationUse.slots
      ++ (pending.method.annotations.invisible.flatMap AnnotationUse.slots
      ++ (pending.method.visibleOnParameters.flatMap (·.flatMap AnnotationUse.slots)
      ++ (pending.method.invisibleOnParameters.flatMap (·.flatMap AnnotationUse.slots)
      ++ ((pending.method.annotationDefault?.map ElementValue.slots).getD []
      ++ (pending.code?.map Bytecode.codeSlots).getD []))))) := by
  have hdefault : ((pending.method.annotationDefault?.map ElementValue.sites).getD []).map (·.slot)
      = (pending.method.annotationDefault?.map ElementValue.slots).getD [] := by
    cases pending.method.annotationDefault? <;> rfl
  simp only [slots, Method.sites, Method.annotationSites, Annotations.sites, List.map_append,
    List.append_assoc, hdefault]
  simp only [List.map_flatMap]
  rfl

variable (pool) in
theorem readCode_carried {code : Cursor} (hread : readCode start = .ok (code, stop)) :
    Carried pool start stop (Bytecode.codeSlots code) fun relocation =>
      readCode (relocation.cursor start) = .ok (relocation.cursor code, relocation.cursor stop)
        ∧ ∀ located, Bytecode.read code = .ok located →
          Bytecode.read (relocation.cursor code) = .ok (located.map relocation.located) := by
  obtain ⟨afterSizes, length, afterLength, hsizes, hlength, hslice⟩ := readCode_eq_ok.mp hread
  have hheld : Held pool code.position code.finish (Bytecode.codeSlots code) fun relocation =>
      ∀ located, Bytecode.read code = .ok located →
        Bytecode.read (relocation.cursor code) = .ok (located.map relocation.located) := by
    rw [Bytecode.codeSlots]
    cases hcode : Bytecode.read code with
    | error e => exact .nothing (Nat.le_add_right _ _) fun _ _ _ => nofun
    | ok found =>
      refine (Bytecode.read_held hcode).imp fun relocation _ hrun located hlocated => ?_
      cases hlocated
      exact hrun
  refine ((skip_carried hsizes).and ((u32_carried hlength).and (slice_carried hslice hheld))).imp
    fun relocation _ hrun => ?_
  obtain ⟨hsizesRun, hlengthRun, hsliceRun, hkept⟩ := hrun
  exact ⟨readCode_eq_ok.mpr ⟨_, length, _, hsizesRun, hlengthRun, hsliceRun⟩, hkept⟩

theorem Takes.carried {pending pending' : PendingMethod} {name : String}
    (htakes : Takes pool attr pending name pending') :
    ∃ added, pending'.slots.Subperm (pending.slots ++ added)
      ∧ Held pool attr.body.position attr.body.finish added fun relocation =>
        CodeKept relocation pending →
          Takes relocation.target (relocation.attribute attr) (relocation.pending pending) name
            (relocation.pending pending')
            ∧ CodeKept relocation pending' := by
  cases htakes with
  | code hnone hread =>
    obtain ⟨hreaches, hheld⟩ := readCode_carried pool hread
    refine ⟨_, ?_, (hheld.widen (Nat.le_refl _) hreaches.le_finish).imp fun relocation _ hrun _ => ?_⟩
    · rw [slots, slots, List.append_assoc]
      exact (List.Subperm.refl _).append (List.sublist_append_right _ _).subperm
    · have hnone' : (relocation.pending pending).code? = none := by rw [Relocation.pending, hnone, Option.map_none]
      refine ⟨.code hnone' hrun.1, fun code' hcode' => ?_⟩
      cases hcode'
      exact hrun.2
  | visible hparse =>
    refine ⟨_, ?_, (Attribute.parse_held AnnotationUse.readAll_carried hparse).imp
      fun relocation _ hrun hkept => ⟨?_, hkept⟩⟩
    · rw [slots_eq, slots_eq]
      exact subperm_replaced _ _ _ _
    · simpa only [Relocation.pending, Method.map, Annotations.map_eq] using Takes.visible hrun
  | invisible hparse =>
    refine ⟨_, ?_, (Attribute.parse_held AnnotationUse.readAll_carried hparse).imp
      fun relocation _ hrun hkept => ⟨?_, hkept⟩⟩
    · rw [slots_eq, slots_eq]
      exact subperm_behind _ (subperm_replaced _ _ _ _)
    · simpa only [Relocation.pending, Method.map, Annotations.map_eq] using Takes.invisible hrun
  | visibleOnParameters hparse =>
    refine ⟨_, ?_, (Attribute.parse_held AnnotationUse.readPerParameter_carried hparse).imp
      fun relocation _ hrun hkept => ⟨.visibleOnParameters hrun, hkept⟩⟩
    rw [slots_eq, slots_eq]
    exact subperm_behind _ (subperm_behind _ (subperm_replaced _ _ _ _))
  | invisibleOnParameters hparse =>
    refine ⟨_, ?_, (Attribute.parse_held AnnotationUse.readPerParameter_carried hparse).imp
      fun relocation _ hrun hkept => ⟨.invisibleOnParameters hrun, hkept⟩⟩
    rw [slots_eq, slots_eq]
    exact subperm_behind _ (subperm_behind _ (subperm_behind _ (subperm_replaced _ _ _ _)))
  | annotationDefault hparse =>
    refine ⟨_, ?_, (Attribute.parse_held ElementValue.read_carried hparse).imp
      fun relocation _ hrun hkept => ⟨.annotationDefault hrun, hkept⟩⟩
    rw [slots_eq, slots_eq]
    exact subperm_behind _ (subperm_behind _ (subperm_behind _ (subperm_behind _ (subperm_replaced _ _ _ _))))
  | other hcode hvisible hinvisible hvisibleOn hinvisibleOn hdefault =>
    refine ⟨[], by rw [List.append_nil], .nothing (Nat.le_add_right _ _) fun _ _ _ hkept => ⟨?_, hkept⟩⟩
    exact .other hcode hvisible hinvisible hvisibleOn hinvisibleOn hdefault

theorem addAttribute_carried {pending pending' : PendingMethod}
    (hadd : addAttribute pool pending attr = .ok pending') :
    ∃ added, pending'.slots.Subperm (pending.slots ++ added)
      ∧ Held pool attr.body.position attr.body.finish added fun relocation =>
        CodeKept relocation pending →
          addAttribute relocation.target (relocation.pending pending) (relocation.attribute attr)
              = .ok (relocation.pending pending')
            ∧ CodeKept relocation pending' := by
  obtain ⟨added, hsub, hheld⟩ := (addAttribute_eq_ok.mp hadd).carried
  exact ⟨added, hsub, hheld.imp fun _ _ hrun hkept => (hrun hkept).imp_left addAttribute_eq_ok.mpr⟩

theorem read_carried {pending : PendingMethod} (hread : read pool start = .ok (pending, stop)) :
    Carried pool start stop pending.slots fun relocation =>
      read relocation.target (relocation.cursor start)
          = .ok (relocation.pending pending, relocation.cursor stop)
        ∧ CodeKept relocation pending := by
  obtain ⟨header, middle, hheader, hread⟩ := read_eq_ok.mp hread
  have hcollect := Attribute.collect_carried (fun relocation => addAttribute relocation.target) slots
    Relocation.pending CodeKept addAttribute_carried rfl (fun _ => rfl)
    (fun _ code hcode => absurd hcode (Option.not_mem_none code)) hread
  refine (hheader.carried.and hcollect).imp fun relocation _ hrun => ?_
  obtain ⟨hheaderRun, hcollectRun, hkept⟩ := hrun
  exact ⟨read_eq_ok.mpr ⟨header, _, hheaderRun, hcollectRun⟩, hkept⟩

theorem instructions_read {pending : PendingMethod} (hread : read pool start = .ok (pending, stop)) :
    pending.method.instructions = [] := by
  obtain ⟨header, middle, -, hread⟩ := read_eq_ok.mp hread
  refine Attribute.collect_preserves (fun pending => pending.method.instructions = []) ?_ rfl hread
  intro state state' attr hadd hstate
  have htakes := addAttribute_eq_ok.mp hadd
  generalize attr.name = name at htakes
  cases htakes <;> exact hstate

end PendingMethod

end Retoken
