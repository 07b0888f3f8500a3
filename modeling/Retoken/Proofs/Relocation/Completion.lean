import Retoken.Proofs.Declaration.Calls
import Retoken.Proofs.Relocation.Members

/-!
# Instructions in a relocated file

Bootstrap methods are found with their arguments at new places. A dynamic call still leads to the bootstrap method with the same number, so completing the methods gives what it gave before, with other texts at the sites.
-/

namespace Retoken

open Reader

namespace Relocation

variable (relocation : Relocation)

def argument (argument : BootstrapArgument) : BootstrapArgument :=
  ⟨argument.position + relocation.shift, relocation.index argument.slot⟩

def bootstrapMethod (method : BootstrapMethod) : BootstrapMethod :=
  ⟨method.handle, method.arguments.map relocation.argument⟩

end Relocation

variable {pool : ConstantPool} {start stop : Cursor}

theorem BootstrapArgument.read_carried {argument : BootstrapArgument}
    (hread : read pool start = .ok (argument, stop)) :
    Carried pool start stop [argument.slot] fun relocation =>
      read relocation.target (relocation.cursor start)
        = .ok (relocation.argument argument, relocation.cursor stop) := by
  obtain ⟨hindex, hposition, constant, hget⟩ := read_eq_ok.mp hread
  refine (slot16_carried argument.slot hindex nofun hposition rfl).keeps.imp fun relocation hsource hrun => ?_
  subst hsource
  obtain ⟨hindexRun, hkeeps⟩ := hrun
  have hfound := ConstantPool.get_eq_ok.mp hget
  have hkept := hkeeps _ (List.mem_singleton.mpr rfl) (Relocation.Keeps.suits rfl hfound)
  obtain ⟨constant', hget'⟩ := hkept.get rfl hfound
  refine read_eq_ok.mpr ⟨hindexRun, ?_, constant', ConstantPool.get_eq_ok.mpr hget'⟩
  exact congrArg (· + relocation.shift) hposition

namespace BootstrapMethod

def slots (method : BootstrapMethod) : List Slot :=
  method.arguments.flatMap fun argument => [argument.slot]

theorem mem_slots {method : BootstrapMethod} {slot : Slot} :
    slot ∈ method.slots ↔ ∃ argument ∈ method.arguments, argument.slot = slot := by
  simp only [slots, List.mem_flatMap, List.mem_singleton, eq_comm]

theorem read_carried {method : BootstrapMethod} (hread : read pool start = .ok (method, stop)) :
    Carried pool start stop method.slots fun relocation =>
      read relocation.target (relocation.cursor start)
        = .ok (relocation.bootstrapMethod method, relocation.cursor stop) := by
  obtain ⟨middle, hhandle, harguments⟩ := read_eq_ok.mp hread
  refine ((indexed_carried ConstantPool.methodHandle Relocation.methodHandle_kept_same hhandle).and
    (counted_carried (fun relocation => BootstrapArgument.read relocation.target)
      (fun relocation => relocation.argument) BootstrapArgument.read_carried harguments)).imp
    fun relocation _ hrun => ?_
  exact read_eq_ok.mpr ⟨_, hrun⟩

theorem readAll_carried {methods : List BootstrapMethod}
    (hread : readAll pool start = .ok (methods, stop)) :
    Carried pool start stop (methods.flatMap slots) fun relocation =>
      readAll relocation.target (relocation.cursor start)
        = .ok (methods.map relocation.bootstrapMethod, relocation.cursor stop) :=
  counted_carried (fun relocation => read relocation.target)
    (fun relocation => relocation.bootstrapMethod) read_carried hread

end BootstrapMethod

namespace Instruction

variable {relocation : Relocation} {methods : List BootstrapMethod} {located : Bytecode.Located}
  {instruction : Instruction StringSite}

theorem ofLocated_load_eq_ok {offset : Nat} {opcode : UInt8} {index : UInt16} {position : Nat} :
    ofLocated pool methods ⟨offset, .load opcode index position⟩ = .ok instruction
      ↔ ∃ constant, Loadable.ofSlot pool (Bytecode.loadSlot opcode index position) = .ok constant
        ∧ load offset opcode constant = instruction := by
  rw [ofLocated, except_bind_eq_ok]
  simp only [pure, Except.pure, Except.ok.injEq]
  rfl

theorem ofLocated_invokeDynamic_eq_ok {offset : Nat} {index : UInt16} :
    ofLocated pool methods ⟨offset, .invokeDynamic index⟩ = .ok instruction
      ↔ ∃ bootstrap pairIndex method name descriptor arguments,
        pool.get? index = some (.invokeDynamic bootstrap pairIndex)
          ∧ methods[bootstrap.toNat]? = some method
          ∧ pool.nameAndType pairIndex = .ok (name, descriptor)
          ∧ method.arguments.mapM (fun argument => Loadable.ofSlot pool argument.slot) = .ok arguments
          ∧ invokeDynamic offset name descriptor method.handle arguments = instruction := by
  rw [ofLocated, except_bind_eq_ok]
  constructor
  · rintro ⟨constant, hget, hcall⟩
    cases constant with
    | invokeDynamic bootstrap pairIndex =>
      simp only at hcall
      cases hmethod : methods[bootstrap.toNat]? with
      | none =>
        rw [hmethod] at hcall
        cases hcall
      | some method =>
        simp only [hmethod] at hcall
        obtain ⟨⟨name, descriptor⟩, hpair, hcall⟩ := except_bind_eq_ok.mp hcall
        obtain ⟨arguments, harguments, hpure⟩ := except_bind_eq_ok.mp hcall
        exact ⟨bootstrap, pairIndex, method, name, descriptor, arguments, ConstantPool.get_eq_ok.mp hget,
          hmethod, hpair, harguments, Except.ok.inj hpure⟩
    | _ => cases hcall
  · rintro ⟨bootstrap, pairIndex, method, name, descriptor, arguments, hget, hmethod, hpair, harguments, rfl⟩
    refine ⟨_, ConstantPool.get_eq_ok.mpr hget, ?_⟩
    simp only [hmethod]
    exact except_bind_eq_ok.mpr ⟨_, hpair, except_bind_eq_ok.mpr ⟨_, harguments, rfl⟩⟩

theorem ofLocated_kept
    (hloads : ∀ slot ∈ located.slots, relocation.source.Suits slot → relocation.Keeps slot)
    (harguments : ∀ slot ∈ methods.flatMap (·.slots), relocation.source.Suits slot → relocation.Keeps slot)
    (hread : ofLocated relocation.source methods located = .ok instruction) :
    ofLocated relocation.target (methods.map relocation.bootstrapMethod) (relocation.located located)
      = .ok (instruction.map relocation.site) := by
  obtain ⟨offset, operation⟩ := located
  cases operation with
  | load opcode index position =>
    obtain ⟨constant, hconstant, rfl⟩ := ofLocated_load_eq_ok.mp hread
    have hkept := hloads _ (List.mem_singleton.mpr rfl)
    exact ofLocated_load_eq_ok.mpr
      ⟨_, Loadable.ofSlot_kept (Bytecode.loadSlot_namesString _ _ _) hkept hconstant, rfl⟩
  | invokeDynamic index =>
    obtain ⟨bootstrap, pairIndex, method, name, descriptor, arguments, hget, hmethod, hpair, hmapM, rfl⟩ :=
      ofLocated_invokeDynamic_eq_ok.mp hread
    have hmapMTarget : (method.arguments.map relocation.argument).mapM
        (fun argument => Loadable.ofSlot relocation.target argument.slot)
          = .ok (arguments.map (·.map relocation.site)) := by
      refine mapM_map_eq_ok hmapM fun argument hargument constant hconstant => ?_
      refine Loadable.ofSlot_kept rfl (harguments _ (List.mem_flatMap.mpr ⟨method, ?_, ?_⟩)) hconstant
      · exact List.mem_of_getElem? hmethod
      · exact BootstrapMethod.mem_slots.mpr ⟨argument, hargument, rfl⟩
    refine ofLocated_invokeDynamic_eq_ok.mpr ⟨bootstrap, pairIndex, relocation.bootstrapMethod method, name,
      descriptor, _, relocation.kept hget nofun, ?_, relocation.nameAndType_kept hpair, hmapMTarget, ?_⟩
    · rw [List.getElem?_map, hmethod, Option.map_some]
    · rw [map_invokeDynamic]
      rfl
  | other opcode =>
    cases hread
    rfl

theorem ownSlots_ofLocated (hread : ofLocated pool methods located = .ok instruction) :
    (instruction.ownSites.map (·.slot)).Subperm located.slots := by
  obtain ⟨offset, operation⟩ := located
  cases operation with
  | load opcode index position =>
    obtain ⟨constant, hconstant, rfl⟩ := ofLocated_load_eq_ok.mp hread
    exact (Loadable.slots_ofSlot hconstant).subperm
  | invokeDynamic index =>
    obtain ⟨_, _, _, _, _, _, -, -, -, -, rfl⟩ := ofLocated_invokeDynamic_eq_ok.mp hread
    exact List.nil_subperm
  | other opcode =>
    cases hread
    exact List.nil_subperm

/-- A call has its arguments at slots of the bootstrap method that it goes through. -/
theorem calls_ofLocated (hread : ofLocated pool methods located = .ok instruction)
    {call : MethodHandle × List StringSite} (hcall : call ∈ instruction.calls) :
    ∃ method ∈ methods, method.handle = call.1 ∧ ∀ site ∈ call.2, site.slot ∈ method.slots := by
  obtain ⟨offset, operation⟩ := located
  cases operation with
  | load opcode index position =>
    obtain ⟨constant, -, rfl⟩ := ofLocated_load_eq_ok.mp hread
    cases hcall
  | invokeDynamic index =>
    obtain ⟨_, _, method, _, _, arguments, -, hmethod, -, hmapM, rfl⟩ :=
      ofLocated_invokeDynamic_eq_ok.mp hread
    rw [List.mem_singleton.mp hcall]
    refine ⟨method, List.mem_of_getElem? hmethod, rfl, fun site hsite => ?_⟩
    obtain ⟨constant, hconstant, hsite⟩ := List.mem_flatMap.mp hsite
    obtain ⟨argument, hargument, hread⟩ := exists_of_mem_mapM hmapM hconstant
    have hslot := (Loadable.slots_ofSlot hread).subset (List.mem_map_of_mem hsite)
    exact BootstrapMethod.mem_slots.mpr ⟨argument, hargument, (List.mem_singleton.mp hslot).symm⟩
  | other opcode =>
    cases hread
    cases hcall

end Instruction

namespace PendingMethod

variable {relocation : Relocation} {methods : List BootstrapMethod} {pending : PendingMethod}
  {method : Method StringSite}

theorem complete_eq_ok {code : Cursor} (hcode : pending.code? = some code) :
    pending.complete pool methods = .ok method
      ↔ ∃ located instructions, Bytecode.read code = .ok located
        ∧ located.mapM (Instruction.ofLocated pool methods) = .ok instructions
        ∧ { pending.method with instructions } = method := by
  rw [complete, hcode]
  simp only [except_bind_eq_ok, pure, Except.pure, Except.ok.injEq, exists_and_left]

theorem complete_kept (hcode : CodeKept relocation pending)
    (hslots : ∀ slot ∈ pending.slots, relocation.source.Suits slot → relocation.Keeps slot)
    (harguments : ∀ slot ∈ methods.flatMap (·.slots), relocation.source.Suits slot → relocation.Keeps slot)
    (hread : pending.complete relocation.source methods = .ok method) :
    (relocation.pending pending).complete relocation.target (methods.map relocation.bootstrapMethod)
      = .ok (method.map relocation.site) := by
  cases hsome : pending.code? with
  | none =>
    rw [complete, hsome] at hread
    cases hread
    rw [complete, Relocation.pending, hsome]
    rfl
  | some code =>
    obtain ⟨located, instructions, hlocated, hmapM, rfl⟩ := (complete_eq_ok hsome).mp hread
    have hmoved : (relocation.pending pending).code? = some (relocation.cursor code) := by
      rw [Relocation.pending, hsome, Option.map_some]
    refine (complete_eq_ok hmoved).mpr
      ⟨located.map relocation.located, instructions.map (·.map relocation.site), ?_, ?_, rfl⟩
    · exact hcode code (Option.mem_def.mpr hsome) located hlocated
    · refine mapM_map_eq_ok hmapM fun one hone instruction hinstruction => ?_
      refine Instruction.ofLocated_kept (fun slot hslot => hslots slot ?_) harguments hinstruction
      rw [slots, hsome, Option.map_some, Option.getD_some, Bytecode.codeSlots, hlocated]
      exact List.mem_append_right _ (List.mem_flatMap.mpr ⟨one, hone, hslot⟩)

theorem ownSlots_complete (hbare : pending.method.instructions = [])
    (hread : pending.complete pool methods = .ok method) :
    (method.ownSites.map (·.slot)).Subperm pending.slots := by
  cases hsome : pending.code? with
  | none =>
    rw [complete, hsome] at hread
    cases hread
    rw [slots, Method.ownSites, Method.sites, hbare]
    exact (List.sublist_append_left _ _).subperm
  | some code =>
    obtain ⟨located, instructions, hlocated, hmapM, rfl⟩ := (complete_eq_ok hsome).mp hread
    have hsub := mapM_flatMap_subperm Bytecode.Located.slots
      (fun instruction => instruction.ownSites.map (·.slot)) hmapM
      fun one _ instruction hinstruction => Instruction.ownSlots_ofLocated hinstruction
    have hcode : Bytecode.codeSlots code = located.flatMap Bytecode.Located.slots := by
      rw [Bytecode.codeSlots, hlocated]
    rw [← List.map_flatMap, ← hcode] at hsub
    rw [slots, hsome, Option.map_some, Option.getD_some, Method.ownSites, Method.sites, hbare,
      List.map_append]
    exact (hsub.append (List.Subperm.refl _)).trans List.perm_append_comm.subperm

theorem calls_complete (hbare : pending.method.instructions = [])
    (hread : pending.complete pool methods = .ok method)
    {call : MethodHandle × List StringSite} (hcall : call ∈ method.calls) :
    ∃ bootstrap ∈ methods, bootstrap.handle = call.1 ∧ ∀ site ∈ call.2, site.slot ∈ bootstrap.slots := by
  cases hsome : pending.code? with
  | none =>
    rw [complete, hsome] at hread
    cases hread
    rw [Method.calls, hbare] at hcall
    cases hcall
  | some code =>
    obtain ⟨located, instructions, hlocated, hmapM, rfl⟩ := (complete_eq_ok hsome).mp hread
    obtain ⟨instruction, hinstruction, hcall⟩ := List.mem_flatMap.mp hcall
    obtain ⟨one, -, hread⟩ := exists_of_mem_mapM hmapM hinstruction
    exact Instruction.calls_ofLocated hread hcall

end PendingMethod

end Retoken
