import Retoken.Proofs.Format.Members

/-!
# Sites at load instructions

A site that is marked as the constant of a load stands at a load instruction of some method. Its slot has one byte if the instruction is the short load, and two bytes if it is one of the other loads.
-/

namespace Retoken

variable {pool : ConstantPool} {site : StringSite} {method : MethodLabel} {offset : Nat}

theorem Loadable.eq_string_of_sites {constant : Loadable StringSite} (hsite : site ∈ constant.sites) :
    constant = .string site := by
  cases constant with
  | string other => rw [List.mem_singleton.mp hsite]
  | _ => cases hsite

theorem Instruction.exists_load_of_located {instruction : Instruction StringSite} {label : MethodLabel}
    (hsite : (some (Place.load method offset), site) ∈ (instruction.located label).sites) :
    ∃ opcode, instruction = .load offset opcode (.string site) := by
  cases instruction with
  | load found opcode constant =>
    rw [located, sites, Loadable.sites_map] at hsite
    obtain ⟨other, hother, hsame⟩ := List.mem_map.mp hsite
    cases hsame
    exact ⟨opcode, by rw [Loadable.eq_string_of_sites hother]⟩
  | invokeDynamic found name descriptor bootstrap arguments =>
    obtain ⟨argument, hargument, hsite⟩ := List.mem_flatMap.mp hsite
    obtain ⟨i, hi, rfl⟩ := List.mem_mapIdx.mp hargument
    rw [Loadable.sites_map] at hsite
    obtain ⟨other, -, hsame⟩ := List.mem_map.mp hsite
    have hplace := congrArg Prod.fst hsame
    simp only at hplace
    split at hplace
    case isTrue => cases hplace
    case isFalse => cases hplace
  | other => cases hsite

theorem ne_load_of_onParameters {label : MethodLabel} {sites : List (List StringSite)} :
    (some (Place.load method offset), site) ∉ Method.onParameters label sites := by
  intro hsite
  obtain ⟨marked, hmarked, hsite⟩ := List.mem_flatten.mp hsite
  obtain ⟨i, hi, rfl⟩ := List.mem_mapIdx.mp hmarked
  obtain ⟨other, -, hsame⟩ := List.mem_map.mp hsite
  cases hsame

theorem Method.exists_load_of_located {declared : Method StringSite}
    (hsite : (some (Place.load method offset), site) ∈ declared.located.sites) :
    ∃ opcode, .load offset opcode (.string site) ∈ declared.instructions := by
  have hother : ∀ (place : StringSite → Option Place) (sites : List StringSite),
      (∀ other, place other ≠ some (.load method offset)) →
        (some (Place.load method offset), site) ∉ sites.map fun other => (place other, other) := by
    intro place sites hplace hmem
    obtain ⟨other, -, hsame⟩ := List.mem_map.mp hmem
    exact hplace other (congrArg Prod.fst hsame)
  rw [sites_located] at hsite
  rcases List.mem_append.mp hsite with hcode | hsite
  · obtain ⟨instruction, hinstruction, hsite⟩ := List.mem_flatMap.mp hcode
    obtain ⟨opcode, rfl⟩ := instruction.exists_load_of_located hsite
    exact ⟨opcode, hinstruction⟩
  rcases List.mem_append.mp hsite with hannotation | hsite
  · exact absurd hannotation (hother _ _ nofun)
  rcases List.mem_append.mp hsite with hvisible | hsite
  · exact absurd hvisible ne_load_of_onParameters
  rcases List.mem_append.mp hsite with hinvisible | hdefault
  · exact absurd hinvisible ne_load_of_onParameters
  · exact absurd hdefault (hother _ _ nofun)

theorem Declaration.exists_load_of_located {declaration : Declaration StringSite}
    (hsite : (some (Place.load method offset), site) ∈ declaration.located.sites) :
    ∃ declared ∈ declaration.methods, ∃ opcode, .load offset opcode (.string site) ∈ declared.instructions := by
  rw [Declaration.sites_eq] at hsite
  simp only [located, Annotations.sites_map, List.flatMap_map] at hsite
  rcases List.mem_append.mp hsite with hannotation | hsite
  · obtain ⟨other, -, hsame⟩ := List.mem_map.mp hannotation
    cases hsame
  rcases List.mem_append.mp hsite with hmethod | hfield
  · obtain ⟨declared, hdeclared, hsite⟩ := List.mem_flatMap.mp hmethod
    exact ⟨declared, hdeclared, declared.exists_load_of_located hsite⟩
  · obtain ⟨field, -, hsite⟩ := List.mem_flatMap.mp hfield
    rw [Field.sites_located] at hsite
    rcases List.mem_append.mp hsite with hconstant | hannotation
    · obtain ⟨other, -, hsame⟩ := List.mem_map.mp hconstant
      cases hsame
    · obtain ⟨other, -, hsame⟩ := List.mem_map.mp hannotation
      cases hsame

variable {methods : List BootstrapMethod} {opcode : UInt8}

theorem Instruction.kind_of_load {located : Bytecode.Located}
    (hread : ofLocated pool methods located = .ok (.load offset opcode (.string site))) :
    site.slot.kind = if opcode = Bytecode.narrowLoad then .narrowString else .wideString := by
  obtain ⟨foundOffset, operation⟩ := located
  cases operation with
  | load found index position =>
    obtain ⟨constant, hconstant, hsame⟩ := ofLocated_load_eq_ok.mp hread
    cases hsame
    have hsites := Loadable.sites_ofSlot (Bytecode.loadSlot_namesString _ _ _) hconstant
    have hsite : pool.siteAt? (Bytecode.loadSlot opcode index position) = some site := by
      cases hfound : pool.siteAt? (Bytecode.loadSlot opcode index position) with
      | none =>
        rw [hfound] at hsites
        cases hsites
      | some other =>
        rw [hfound] at hsites
        cases hsites
        rfl
    obtain ⟨text, -, rfl⟩ := Option.map_eq_some_iff.mp hsite
    rfl
  | invokeDynamic index =>
    obtain ⟨_, _, _, _, _, _, -, -, -, -, hsame⟩ := ofLocated_invokeDynamic_eq_ok.mp hread
    cases hsame
  | other => cases hread

/-- The constant of a load has a slot of one byte if the load is the short one. -/
theorem PendingMethod.kind_of_load {pending : PendingMethod} {declared : Method StringSite}
    (hbare : pending.method.instructions = []) (hcomplete : pending.complete pool methods = .ok declared)
    (hload : .load offset opcode (.string site) ∈ declared.instructions) :
    site.slot.kind = if opcode = Bytecode.narrowLoad then .narrowString else .wideString := by
  cases hcode : pending.code? with
  | none =>
    rw [complete, hcode] at hcomplete
    cases hcomplete
    rw [hbare] at hload
    cases hload
  | some code =>
    obtain ⟨located, instructions, -, hread, rfl⟩ := (complete_eq_ok hcode).mp hcomplete
    obtain ⟨one, -, hone⟩ := exists_of_mem_mapM hread hload
    exact Instruction.kind_of_load hone

end Retoken
