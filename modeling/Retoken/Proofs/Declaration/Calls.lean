import Mathlib.Data.List.Perm.Basic
import Retoken.Proofs.Declaration.Sites

/-!
# Sites of dynamic calls

Every site but one kind is read at a slot of its own. The arguments of a dynamic call are read from the bootstrap method that the call names, so calls through one bootstrap method have their arguments at the same slots. This module tells these sites from the others, and keeps with them the handle through which the call goes.
-/

namespace Retoken

variable {σ τ : Type}

namespace Instruction

/-- The sites that the instruction has for itself. -/
def ownSites : Instruction σ → List σ
  | load _ _ constant => constant.sites
  | invokeDynamic .. | other .. => []

/-- The call that the instruction makes, as the handle of its bootstrap method and the sites in its arguments. -/
def calls : Instruction σ → List (MethodHandle × List σ)
  | invokeDynamic _ _ _ bootstrap arguments => [(bootstrap, arguments.flatMap (·.sites))]
  | load .. | other .. => []

theorem sites_eq (instruction : Instruction σ) :
    instruction.sites = instruction.ownSites ++ instruction.calls.flatMap (·.2) := by
  cases instruction with
  | load _ _ constant => exact (List.append_nil constant.sites).symm
  | invokeDynamic _ _ _ _ arguments => exact (List.append_nil (arguments.flatMap (·.sites))).symm
  | other => rfl

theorem ownSites_map (f : σ → τ) (instruction : Instruction σ) :
    (instruction.map f).ownSites = instruction.ownSites.map f := by
  cases instruction with
  | load _ _ constant => exact constant.sites_map f
  | invokeDynamic => rfl
  | other => rfl

theorem calls_map (f : σ → τ) (instruction : Instruction σ) :
    (instruction.map f).calls = instruction.calls.map fun call => (call.1, call.2.map f) := by
  cases instruction with
  | load => rfl
  | invokeDynamic _ _ _ bootstrap arguments =>
    rw [map_invokeDynamic, calls, calls, List.map_singleton,
      flatMap_map_contents f fun constant : Loadable σ => constant.sites_map f]
  | other => rfl

end Instruction

namespace Method

def ownSites (method : Method σ) : List σ :=
  method.instructions.flatMap (·.ownSites) ++ method.annotationSites

def calls (method : Method σ) : List (MethodHandle × List σ) :=
  method.instructions.flatMap (·.calls)

theorem sites_perm (method : Method σ) :
    method.sites.Perm (method.ownSites ++ method.calls.flatMap (·.2)) := by
  have hinstructions : (method.instructions.flatMap (·.sites)).Perm
      (method.instructions.flatMap (·.ownSites) ++ method.calls.flatMap (·.2)) := by
    rw [calls, List.flatMap_assoc, funext Instruction.sites_eq]
    exact (List.flatMap_append_perm method.instructions _ _).symm
  rw [sites, ownSites, List.append_assoc]
  refine (hinstructions.append_right _).trans ?_
  rw [List.append_assoc]
  exact List.perm_append_comm.append_left _

end Method

namespace Declaration

def ownSites (declaration : Declaration σ) : List σ :=
  declaration.annotations.sites
    ++ (declaration.methods.flatMap (·.ownSites) ++ declaration.fields.flatMap (·.sites))

def calls (declaration : Declaration σ) : List (MethodHandle × List σ) :=
  declaration.methods.flatMap (·.calls)

def callArguments (declaration : Declaration σ) : List σ :=
  declaration.calls.flatMap (·.2)

theorem mem_callArguments {declaration : Declaration σ} {site : σ} :
    site ∈ declaration.callArguments ↔ ∃ call ∈ declaration.calls, site ∈ call.2 :=
  List.mem_flatMap

theorem sites_perm (declaration : Declaration σ) :
    declaration.sites.Perm (declaration.ownSites ++ declaration.callArguments) := by
  have hmethods : (declaration.methods.flatMap (·.sites)).Perm
      (declaration.methods.flatMap (·.ownSites) ++ declaration.callArguments) := by
    rw [callArguments, calls, List.flatMap_assoc]
    refine (List.Perm.flatMap_left _ fun method _ => method.sites_perm).trans ?_
    exact (List.flatMap_append_perm declaration.methods _ _).symm
  rw [sites_eq, ownSites, List.append_assoc, List.append_assoc]
  refine List.Perm.append_left _ ((hmethods.append_right _).trans ?_)
  rw [List.append_assoc]
  exact List.perm_append_comm.append_left _

theorem mem_sites {declaration : Declaration σ} {site : σ} :
    site ∈ declaration.sites ↔ site ∈ declaration.ownSites ∨ site ∈ declaration.callArguments := by
  rw [declaration.sites_perm.mem_iff, List.mem_append]

theorem mem_sites_of_mem_call {declaration : Declaration σ} {call : MethodHandle × List σ} {site : σ}
    (hcall : call ∈ declaration.calls) (hsite : site ∈ call.2) : site ∈ declaration.sites :=
  mem_sites.mpr (.inr (mem_callArguments.mpr ⟨call, hcall, hsite⟩))

end Declaration

theorem Method.ownSites_map (f : σ → τ) (method : Method σ) :
    (method.map f).ownSites = method.ownSites.map f := by
  rw [ownSites, ownSites, List.map_append, annotationSites_map, map,
    flatMap_map_contents f fun instruction : Instruction σ => instruction.ownSites_map f]

namespace Declaration

theorem ownSites_map (f : σ → τ) (declaration : Declaration σ) :
    (declaration.map f).ownSites = declaration.ownSites.map f := by
  rw [ownSites, ownSites, map_eq, List.map_append, List.map_append, Annotations.sites_map,
    flatMap_map_contents f fun method => Method.ownSites_map f method,
    flatMap_map_contents f fun field => Field.sites_map f field]

theorem calls_map (f : σ → τ) (declaration : Declaration σ) :
    (declaration.map f).calls = declaration.calls.map fun call => (call.1, call.2.map f) := by
  rw [calls, calls, map_eq]
  refine flatMap_map_contents _ (fun method => ?_) declaration.methods
  exact flatMap_map_contents _ (fun instruction : Instruction σ => instruction.calls_map f)
    method.instructions

theorem callArguments_map (f : σ → τ) (declaration : Declaration σ) :
    (declaration.map f).callArguments = declaration.callArguments.map f := by
  rw [callArguments, callArguments, calls_map, List.flatMap_map, List.map_flatMap]

end Declaration

end Retoken
