import Retoken.Proofs.Format.Contents

/-!
# Members and their layouts

A field or a method that is read has the layout of a member, and its sites are those for the locations that the layout lists. The code of a method is known to be readable only once the method is completed, so reading a method is compared with its layout under that condition.
-/

namespace Retoken

open BigEndian Reader

variable {pool : ConstantPool} {start stop : Cursor} {attr : Attribute}

/-! ### Headers -/

theorem MemberHeader.ReadAt.spells {header : MemberHeader} {middle : Cursor}
    (hheader : header.ReadAt pool start middle) :
    ∃ name descriptor, pool.nameAt name = header.name ∧ pool.nameAt descriptor = header.descriptor
      ∧ middle.position + 2 = start.position + 8
      ∧ ∀ {layouts : List AttributeLayout} {stop : Cursor},
        middle.Spells (countedToBytes AttributeLayout.toBytes layouts) stop →
          start.Spells (MemberLayout.toBytes ⟨header.access, name, descriptor, layouts⟩) stop := by
  obtain ⟨afterAccess, afterName, haccess, hname, hdescriptor⟩ := hheader
  have haccessSpelled := u16_eq_ok.mp haccess
  obtain ⟨name, hnameSpelled, hnameText⟩ := indexed_spells hname
  obtain ⟨descriptor, hdescriptorSpelled, hdescriptorText⟩ := indexed_spells hdescriptor
  refine ⟨name, descriptor, ConstantPool.nameAt_of_text hnameText, ConstantPool.nameAt_of_text hdescriptorText, ?_,
    fun hattributes => Cursor.Spells.append haccessSpelled
      (hnameSpelled.append (hdescriptorSpelled.append hattributes))⟩
  rw [hdescriptorSpelled.2, hnameSpelled.2, haccessSpelled.2]
  simp only [length_bytes16]

/-! ### Fields -/

namespace Field

def found (field : Field StringSite) (name : String) : List (List StringSite) :=
  if name = "ConstantValue" then field.constant?.toList.map (·.sites)
  else if name = "RuntimeVisibleAnnotations" then field.annotations.visible.map (·.sites)
  else if name = "RuntimeInvisibleAnnotations" then field.annotations.invisible.map (·.sites)
  else []

theorem addAttribute_adds {field field' : Field StringSite} (hadd : addAttribute pool field attr = .ok field') :
    ∃ content, Attribute.Adds .ofField found (Shown pool) field attr field' content := by
  have htakes := addAttribute_eq_ok.mp hadd
  generalize hname : attr.name = name at htakes
  cases htakes with
  | constant hparse =>
    obtain ⟨content, hholds⟩ := Attribute.exists_constant hparse
    exact ⟨content, hholds.adds hname rfl hholds.shown fun other hne => by simp only [found, if_neg hne]⟩
  | visible hparse | invisible hparse =>
    obtain ⟨content, hholds⟩ := Attribute.exists_annotations hparse
    exact ⟨content, hholds.adds hname rfl hholds.shown fun other hne => by simp only [found, if_neg hne]⟩
  | other hconstant hvisible hinvisible =>
    have hkind : AttributeKind.ofField name = .other := by
      rw [AttributeKind.ofField] <;> assumption
    refine ⟨_, (attr.holds_other pool).adds hname hkind ?_ fun _ _ => rfl⟩
    rw [found, if_neg hconstant, if_neg hvisible, if_neg hinvisible]
    rfl

theorem name_addAttribute {field field' : Field StringSite} (hadd : addAttribute pool field attr = .ok field') :
    field'.name = field.name := by
  have htakes := addAttribute_eq_ok.mp hadd
  generalize attr.name = name at htakes
  cases htakes <;> rfl

theorem sites_located (field : Field StringSite) : field.located.sites
    = (field.found "ConstantValue").flatten.map (some (.fieldConstant field.name), ·)
      ++ ((field.found "RuntimeVisibleAnnotations").flatten
        ++ (field.found "RuntimeInvisibleAnnotations").flatten).map (some (.onField field.name), ·) := by
  rw [sites, located, Annotations.sites_map]
  simp only [Annotations.sites, found, List.flatMap_def]
  cases field.constant? with
  | none => rfl
  | some constant =>
    refine congrArg (· ++ _) ?_
    simp [Loadable.sites_map]

theorem read_undoes : Undoes (read pool) MemberLayout.toBytes fun position layout field =>
    layout.WellFormed pool .ofField
      ∧ field.located.sites = (layout.fieldLocations pool position).filterMap pool.markedSiteAt? := by
  intro start stop field hread
  obtain ⟨header, middle, hheader, hread⟩ := read_eq_ok.mp hread
  obtain ⟨nameIndex, descriptorIndex, hname, -, hposition, hspells⟩ := hheader.spells
  obtain ⟨layouts, hattributes, hcount, hlayouts, hlast⟩ := Attribute.collect_undoes .ofField found (Shown pool)
    (fun _ => True) (fun hadd _ => ⟨trivial, addAttribute_adds hadd⟩) hread trivial
  have hlabel : field.name = pool.nameAt nameIndex := by
    rw [hname]
    exact Attribute.collect_preserves (fun field => field.name = header.name)
      (fun hadd hstate => (name_addAttribute hadd).trans hstate) rfl hread
  refine ⟨⟨header.access, nameIndex, descriptorIndex, layouts⟩, hspells hattributes, ⟨hcount, hlayouts⟩, ?_⟩
  rw [hposition] at hlast
  have hfound : ∀ key, (field.found key).flatten
      = ((⟨header.access, nameIndex, descriptorIndex, layouts⟩ :
        MemberLayout).slots pool start.position key).flatten.filterMap
        pool.siteAt? := by
    intro key
    rw [hlast.flatten_eq (by simp [found]), MemberLayout.slots, List.filterMap_flatten]
  rw [sites_located, MemberLayout.fieldLocations, hlabel]
  simp only [hfound, List.filterMap_append, List.map_append, ConstantPool.filterMap_marked]

end Field

/-! ### Methods -/

def CodeShown (position : Nat) (content : AttributeContent) : Option Cursor → Prop
  | none => content.code? position = none
  | some code => ∃ instructions located, content.code? position = some (code.position, instructions)
    ∧ Bytecode.read code = .ok located
    ∧ Row InstructionLayout.toBytes (fun position layout located =>
      located = layout.located code.position position ∧ layout.WellFormed (position - code.position))
      code.position instructions located

variable (pool) in
theorem Attribute.exists_code {code : Cursor} {located : List Bytecode.Located}
    (hread : PendingMethod.readCode attr.body = .ok (code, stop)) (hlocated : Bytecode.read code = .ok located) :
    ∃ content, attr.Holds pool .code [] content ∧ CodeShown attr.body.position content (some code) := by
  obtain ⟨afterLimits, length, afterLength, hlimits, hlength, hslice⟩ := PendingMethod.readCode_eq_ok.mp hread
  obtain ⟨limits, hlimitsSpelled, hlimitsLength⟩ := Bytecode.skip_iff.mp hlimits
  obtain ⟨hrest, hcodeLength, hcodePosition, -⟩ := slice_eq_ok.mp hslice
  obtain ⟨instructions, harray, hrow⟩ := Bytecode.read_undoes hlocated
  have hlengthSpelled := u32_eq_ok.mp hlength
  have hposition : code.position = attr.body.position + 8 := by
    rw [hcodePosition, hlengthSpelled.2, hlimitsSpelled.2, hlimitsLength]
  have hword : UInt32.ofNat (instructions.flatMap InstructionLayout.toBytes).length = length := by
    rw [← harray, hcodeLength, UInt32.ofNat_toNat]
  refine ⟨.code limits instructions stop.rest, ⟨?_, rfl, ⟨hlimitsLength, ?_, ?_⟩, rfl⟩, instructions, located,
    ?_, hlocated, hrow⟩
  · rw [AttributeContent.toBytes, hword, ← harray, hlimitsSpelled.1, hlengthSpelled.1, hrest]
  · rw [← harray, hcodeLength]
    exact length.toNat_lt
  · exact allInRow_origin.mp (hrow.allInRow fun _ _ _ hrelated => hrelated.2)
  · rw [AttributeContent.code?, hposition]

namespace PendingMethod

def found (pending : PendingMethod) (name : String) : List (List StringSite) × Option Cursor :=
  let method := pending.method
  if name = "Code" then ([], pending.code?)
  else if name = "RuntimeVisibleAnnotations" then (method.annotations.visible.map (·.sites), none)
  else if name = "RuntimeInvisibleAnnotations" then (method.annotations.invisible.map (·.sites), none)
  else if name = "RuntimeVisibleParameterAnnotations" then
    (method.visibleOnParameters.map (·.flatMap (·.sites)), none)
  else if name = "RuntimeInvisibleParameterAnnotations" then
    (method.invisibleOnParameters.map (·.flatMap (·.sites)), none)
  else if name = "AnnotationDefault" then (method.annotationDefault?.toList.map (·.sites), none)
  else ([], none)

def FoundShown (pool : ConstantPool) (position : Nat) (content : AttributeContent)
    (found : List (List StringSite) × Option Cursor) : Prop :=
  Shown pool position content found.1 ∧ CodeShown position content found.2

def CodeReadable (pending : PendingMethod) : Prop :=
  ∀ code ∈ pending.code?, ∃ located, Bytecode.read code = .ok located

theorem addAttribute_adds {pending pending' : PendingMethod} (hadd : addAttribute pool pending attr = .ok pending')
    (hreadable : pending'.CodeReadable) :
    pending.CodeReadable ∧ ∃ content, Attribute.Adds .ofMethod found
      (FoundShown pool) pending attr pending' content := by
  have hnoCode : ∀ {kind : AttributeKind} {sites : List (List StringSite)} {content : AttributeContent},
      attr.Holds pool kind sites content → kind ≠ .code → CodeShown attr.body.position content none :=
    fun hholds hkind => AttributeContent.code?_eq_none (hholds.kind ▸ hkind)
  have htakes := addAttribute_eq_ok.mp hadd
  generalize hname : attr.name = name at htakes
  cases htakes with
  | @code code _ hnone hread =>
    obtain ⟨located, hlocated⟩ := hreadable code rfl
    obtain ⟨content, hholds, hshown⟩ := Attribute.exists_code pool hread hlocated
    refine ⟨fun other hother => ?_, content, hholds.adds hname rfl ⟨hholds.shown, hshown⟩ fun other hne => ?_⟩
    · rw [hnone] at hother
      cases hother
    · simp only [found, if_neg hne]
  | visible hparse | invisible hparse =>
    obtain ⟨content, hholds⟩ := Attribute.exists_annotations hparse
    exact ⟨hreadable, content, hholds.adds hname rfl ⟨hholds.shown, hnoCode hholds (by decide)⟩ fun other hne => by
      simp only [found, if_neg hne]⟩
  | visibleOnParameters hparse | invisibleOnParameters hparse =>
    obtain ⟨content, hholds⟩ := Attribute.exists_parameterAnnotations hparse
    exact ⟨hreadable, content, hholds.adds hname rfl ⟨hholds.shown, hnoCode hholds (by decide)⟩ fun other hne => by
      simp only [found, if_neg hne]⟩
  | annotationDefault hparse =>
    obtain ⟨content, hholds⟩ := Attribute.exists_annotationDefault hparse
    exact ⟨hreadable, content, hholds.adds hname rfl ⟨hholds.shown, hnoCode hholds (by decide)⟩ fun other hne => by
      simp only [found, if_neg hne]⟩
  | other hcode hvisible hinvisible hvisibleOn hinvisibleOn hdefault =>
    have hkind : AttributeKind.ofMethod name = .other := by
      rw [AttributeKind.ofMethod] <;> assumption
    have hnone : found pending name = ([], none) := by
      rw [found, if_neg hcode, if_neg hvisible, if_neg hinvisible, if_neg hvisibleOn,
        if_neg hinvisibleOn, if_neg hdefault]
    refine ⟨hreadable, _, (attr.holds_other pool).adds hname hkind ?_ fun _ _ => rfl⟩
    rw [hnone]
    exact ⟨rfl, rfl⟩

theorem labels_addAttribute {pending pending' : PendingMethod} (hadd : addAttribute pool pending attr = .ok pending') :
    pending'.method.name = pending.method.name ∧ pending'.method.descriptor = pending.method.descriptor := by
  have htakes := addAttribute_eq_ok.mp hadd
  generalize attr.name = name at htakes
  cases htakes <;> exact ⟨rfl, rfl⟩

structure Describes (pool : ConstantPool) (position : Nat) (layout : MemberLayout)
    (pending : PendingMethod) : Prop where
  wellFormed : layout.WellFormed pool .ofMethod
  label : layout.label pool = ⟨pending.method.name, pending.method.descriptor⟩
  slots : ∀ name, (pending.found name).1 = (layout.slots pool position name).map (·.filterMap pool.siteAt?)
  code : match AttributeLayout.last? pool "Code" (position + 8) layout.attributes with
    | some (body, content) => CodeShown body content pending.code?
    | none => pending.code? = none
  bare : pending.method.instructions = []

theorem read_undoes : UndoesWhen CodeReadable (read pool) MemberLayout.toBytes (Describes pool) := by
  intro start stop pending hread hreadable
  have hbare := instructions_read hread
  obtain ⟨header, middle, hheader, hread⟩ := read_eq_ok.mp hread
  obtain ⟨nameIndex, descriptorIndex, hname, hdescriptor, hposition, hspells⟩ := hheader.spells
  obtain ⟨layouts, hattributes, hcount, hlayouts, hlast⟩ := Attribute.collect_undoes .ofMethod found (FoundShown pool)
    CodeReadable addAttribute_adds hread hreadable
  have hlabels := Attribute.collect_preserves
    (fun pending => pending.method.name = header.name ∧ pending.method.descriptor = header.descriptor)
    (fun hadd hstate => ⟨(labels_addAttribute hadd).1.trans hstate.1, (labels_addAttribute hadd).2.trans hstate.2⟩)
    ⟨rfl, rfl⟩ hread
  rw [hposition] at hlast
  refine ⟨⟨header.access, nameIndex, descriptorIndex, layouts⟩, hspells hattributes, ⟨hcount, hlayouts⟩, ?_,
    fun key => ?_, ?_, hbare⟩
  · rw [MemberLayout.label, hname, hdescriptor, hlabels.1, hlabels.2]
  · have hsites := hlast.part (·.1) fun _ _ _ hshown => hshown.1
    refine hsites.flatten_eq ?_
    simp [found]
  · have hcode := hlast "Code"
    cases hbody : AttributeLayout.last? pool "Code" (start.position + 8) layouts with
    | none =>
      rw [hbody] at hcode
      exact congrArg Prod.snd hcode
    | some body =>
      rw [hbody] at hcode
      exact hcode.2

end PendingMethod

namespace Method

def label {σ : Type} (method : Method σ) : MethodLabel :=
  ⟨method.name, method.descriptor⟩

def onParameters (label : MethodLabel) (sites : List (List StringSite)) : List (Option Place × StringSite) :=
  (sites.mapIdx fun i sites => sites.map (some (.onParameter label i), ·)).flatten

theorem sites_located (method : Method StringSite) : method.located.sites
    = method.instructions.flatMap (fun instruction => (instruction.located method.label).sites)
      ++ ((method.annotations.visible.flatMap (·.sites)
          ++ method.annotations.invisible.flatMap (·.sites)).map (some (.onMethod method.label), ·)
        ++ (onParameters method.label (method.visibleOnParameters.map (·.flatMap (·.sites)))
          ++ (onParameters method.label (method.invisibleOnParameters.map (·.flatMap (·.sites)))
            ++ (method.annotationDefault?.toList.flatMap (·.sites)).map
              (some (.annotationDefault method.label), ·)))) := by
  have hparameters : ∀ uses : List (List (AnnotationUse StringSite)),
      (uses.mapIdx fun i uses => uses.map (·.map (some (Place.onParameter method.label i), ·))).flatMap
        (·.flatMap (·.sites))
        = onParameters method.label (uses.map (·.flatMap (·.sites))) := by
    intro uses
    rw [List.flatMap_def, map_mapIdx, onParameters, mapIdx_map]
    refine congrArg (fun f => (uses.mapIdx f).flatten) (funext fun i => funext fun uses => ?_)
    exact flatMap_map_contents _ (fun use : AnnotationUse StringSite => use.sites_map _) uses
  have hdefault : ((method.annotationDefault?.map
    (·.map (some (Place.annotationDefault method.label), ·))).map (·.sites)).getD []
      = (method.annotationDefault?.toList.flatMap (·.sites)).map (some (Place.annotationDefault method.label), ·) := by
    cases method.annotationDefault? with
    | none => rfl
    | some value => simp [ElementValue.sites_map]
  rw [sites, annotationSites, located, List.flatMap_map, Annotations.sites_map]
  refine congrArg (_ ++ ·) (congrArg (_ ++ ·) ?_)
  exact congrArg₂ (· ++ ·) (hparameters _) (congrArg₂ (· ++ ·) (hparameters _) hdefault)

theorem onParameters_filterMap (pool : ConstantPool) (label : MethodLabel) (slots : List (List Slot)) :
    onParameters label (slots.map (·.filterMap pool.siteAt?))
      = ((slots.mapIdx fun i slots => slots.map (some (.onParameter label i), ·)).flatten).filterMap
        pool.markedSiteAt? := by
  rw [onParameters, mapIdx_map, List.filterMap_flatten, map_mapIdx]
  simp only [ConstantPool.filterMap_marked]

end Method

namespace PendingMethod

variable {pending : PendingMethod} {methods : List BootstrapMethod} {method : Method StringSite}

theorem codeReadable_of_complete (hcomplete : pending.complete pool methods = .ok method) : pending.CodeReadable := by
  intro code hcode
  obtain ⟨located, -, hlocated, -⟩ := (complete_eq_ok (Option.mem_def.mp hcode)).mp hcomplete
  exact ⟨located, hlocated⟩

variable {layout : MemberLayout} {position : Nat}

theorem exists_instructions (hdescribes : Describes pool position layout pending)
    (hcomplete : pending.complete pool methods = .ok method) :
    ∃ instructions, method = { pending.method with instructions }
      ∧ instructions.flatMap (fun instruction => (instruction.located (layout.label pool)).sites)
        = (layout.codeLocations pool position (methods.map Instruction.entryOf)).filterMap pool.markedSiteAt? := by
  have hcode := hdescribes.code
  rw [MemberLayout.codeLocations, AttributeLayout.inLast]
  cases hsome : pending.code? with
  | none =>
    rw [complete, hsome] at hcomplete
    cases hcomplete
    refine ⟨[], by rw [← hdescribes.bare], ?_⟩
    cases hbody : AttributeLayout.last? pool "Code" (position + 8) layout.attributes with
    | none => rfl
    | some body =>
      rw [hbody, hsome] at hcode
      have hnone : body.2.code? body.1 = none := hcode
      simp only [Option.map_some, Option.getD_some, hnone]
      rfl
  | some code =>
    obtain ⟨located, instructions, hlocated, hread, rfl⟩ := (complete_eq_ok hsome).mp hcomplete
    refine ⟨instructions, rfl, ?_⟩
    cases hbody : AttributeLayout.last? pool "Code" (position + 8) layout.attributes with
    | none =>
      rw [hbody, hsome] at hcode
      cases hcode
    | some body =>
      rw [hbody, hsome] at hcode
      obtain ⟨layouts, located', hcontent, hlocated', hrow⟩ := hcode
      rw [hlocated] at hlocated'
      cases hlocated'
      simp only [Option.map_some, Option.getD_some, hcontent]
      exact Instruction.sites_instructions _ hrow hread

theorem sites_complete (hdescribes : Describes pool position layout pending)
    (hcomplete : pending.complete pool methods = .ok method) :
    method.located.sites
      = (layout.methodLocations pool position (methods.map Instruction.entryOf)).filterMap pool.markedSiteAt? := by
  obtain ⟨instructions, rfl, hinstructions⟩ := exists_instructions hdescribes hcomplete
  have hflat : ∀ name, (pending.found name).1.flatten
      = (layout.slots pool position name).flatten.filterMap pool.siteAt? := by
    intro name
    rw [hdescribes.slots, List.filterMap_flatten]
  have hvisible : pending.method.annotations.visible.flatMap (·.sites) = _ :=
    List.flatMap_def.trans (hflat "RuntimeVisibleAnnotations")
  have hinvisible : pending.method.annotations.invisible.flatMap (·.sites) = _ :=
    List.flatMap_def.trans (hflat "RuntimeInvisibleAnnotations")
  have hdefault : pending.method.annotationDefault?.toList.flatMap (·.sites) = _ :=
    List.flatMap_def.trans (hflat "AnnotationDefault")
  have hvisibleOn : pending.method.visibleOnParameters.map (·.flatMap (·.sites)) = _ :=
    hdescribes.slots "RuntimeVisibleParameterAnnotations"
  have hinvisibleOn : pending.method.invisibleOnParameters.map (·.flatMap (·.sites)) = _ :=
    hdescribes.slots "RuntimeInvisibleParameterAnnotations"
  have hlabel : ({ pending.method with instructions } : Method StringSite).label = layout.label pool :=
    hdescribes.label.symm
  rw [Method.sites_located, hlabel, MemberLayout.methodLocations]
  simp only [List.filterMap_append, ConstantPool.filterMap_marked, List.map_append, MemberLayout.parameterLocations,
    ← Method.onParameters_filterMap]
  rw [hinstructions, ← hvisible, ← hinvisible, ← hdefault, ← hvisibleOn, ← hinvisibleOn]

end PendingMethod

end Retoken
