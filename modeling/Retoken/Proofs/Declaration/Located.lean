import Retoken.ClassFile.Place
import Retoken.Proofs.Declaration.Calls

/-!
# Marked sites

Marking the sites of a declaration leaves everything else as it is, and where a site stands does not depend on what it holds. So a declaration whose sites are replaced by something that may depend on their places has its sites marked as before. Whether a site is open depends on even less: all are, but for the arguments of dynamic calls that do not build a string.
-/

namespace Retoken

variable {σ τ υ : Type}

theorem map_mapIdx {α β γ : Type} (f : Nat → α → β) (g : β → γ) (items : List α) :
    (items.mapIdx f).map g = items.mapIdx fun i item => g (f i item) := by
  refine List.ext_getElem? fun i => ?_
  rw [List.getElem?_map, List.getElem?_mapIdx, List.getElem?_mapIdx, Option.map_map]
  rfl

theorem mapIdx_map {α β γ : Type} (f : Nat → β → γ) (g : α → β) (items : List α) :
    (items.map g).mapIdx f = items.mapIdx fun i item => f i (g item) := by
  refine List.ext_getElem? fun i => ?_
  rw [List.getElem?_mapIdx, List.getElem?_mapIdx, List.getElem?_map, Option.map_map]
  rfl

theorem mapIdx_eq_map {α β : Type} (f : α → β) (items : List α) :
    (items.mapIdx fun _ item => f item) = items.map f := by
  refine List.ext_getElem? fun i => ?_
  rw [List.getElem?_mapIdx, List.getElem?_map]

namespace Instruction

variable (label : MethodLabel)

theorem located_map_located (f : Option Place × σ → τ) (instruction : Instruction σ) :
    ((instruction.located label).map f).located label
      = (instruction.located label).map fun marked => (marked.1, f marked) := by
  cases instruction with
  | load => simp only [located, map_load, Loadable.map_map, Function.comp_def]
  | invokeDynamic =>
    simp only [located, map_invokeDynamic, map_mapIdx, List.mapIdx_mapIdx, Loadable.map_map, Function.comp_def]
  | other => rfl

theorem located_map_snd (instruction : Instruction σ) : (instruction.located label).map Prod.snd = instruction := by
  have hsame : ∀ constant : Loadable σ, constant.map (fun site => site) = constant := Loadable.map_id
  cases instruction with
  | load => simp only [located, map_load, Loadable.map_map, Function.comp_def, hsame]
  | invokeDynamic =>
    simp only [located, map_invokeDynamic, map_mapIdx, Loadable.map_map, Function.comp_def, hsame,
      mapIdx_eq_map, List.map_id_fun', id_eq]
  | other => rfl

end Instruction

namespace Method

theorem located_map_located (f : Option Place × σ → τ) (method : Method σ) :
    (method.located.map f).located = method.located.map fun marked => (marked.1, f marked) := by
  simp only [located, map, List.map_map, map_mapIdx, List.mapIdx_mapIdx, Function.comp_def,
    Instruction.located_map_located, Annotations.map_map, AnnotationUse.map_map, Option.map_map,
    ElementValue.map_map]

theorem located_map_snd (method : Method σ) : method.located.map Prod.snd = method := by
  have huse : ∀ use : AnnotationUse σ, use.map (fun site => site) = use := AnnotationUse.map_id
  have hannotations : ∀ annotations : Annotations σ, annotations.map (fun site => site) = annotations :=
    Annotations.map_id
  have hvalue : ∀ value : ElementValue σ, value.map (fun site => site) = value := ElementValue.map_id
  simp only [located, map, List.map_map, map_mapIdx, mapIdx_eq_map, Function.comp_def,
    Instruction.located_map_snd, Annotations.map_map, AnnotationUse.map_map, Option.map_map,
    ElementValue.map_map, huse, hannotations, hvalue, List.map_id_fun', Option.map_id_fun', id_eq]

end Method

namespace Field

theorem located_map_located (f : Option Place × σ → τ) (field : Field σ) :
    (field.located.map f).located = field.located.map fun marked => (marked.1, f marked) := by
  simp only [located, map, Function.comp_def, Annotations.map_map, Option.map_map, Loadable.map_map]

theorem located_map_snd (field : Field σ) : field.located.map Prod.snd = field := by
  have hconstant : ∀ constant : Loadable σ, constant.map (fun site => site) = constant := Loadable.map_id
  have hannotations : ∀ annotations : Annotations σ, annotations.map (fun site => site) = annotations :=
    Annotations.map_id
  simp only [located, map, Function.comp_def, Annotations.map_map, Option.map_map, Loadable.map_map,
    hconstant, hannotations, Option.map_id_fun', id_eq]

end Field

namespace Declaration

/-- The places of sites do not depend on what the sites hold. -/
theorem located_map_located (f : Option Place × σ → τ) (declaration : Declaration σ) :
    (declaration.located.map f).located = declaration.located.map fun marked => (marked.1, f marked) := by
  simp only [located, map_eq, List.map_map, Function.comp_def, Annotations.map_map,
    Method.located_map_located, Field.located_map_located]

theorem located_map_snd (declaration : Declaration σ) : declaration.located.map Prod.snd = declaration := by
  have hannotations : ∀ annotations : Annotations σ, annotations.map (fun site => site) = annotations :=
    Annotations.map_id
  simp only [located, map_eq, List.map_map, Function.comp_def, Annotations.map_map, hannotations,
    Method.located_map_snd, Field.located_map_snd, List.map_id_fun', id_eq]

theorem located_map (f : σ → τ) (declaration : Declaration σ) :
    (declaration.map f).located = declaration.located.map fun marked => (marked.1, f marked.2) := by
  have hmarked := located_map_located (fun marked => f marked.2) declaration
  have hplain : declaration.located.map (fun marked => f marked.2) = declaration.map f := by
    refine (declaration.located.map_map f Prod.snd).symm.trans ?_
    rw [located_map_snd]
  rwa [hplain] at hmarked

end Declaration

def Instruction.mapOpen (f : Bool → σ → τ) : Instruction σ → Instruction τ
  | load offset opcode constant => load offset opcode (constant.map (f true))
  | invokeDynamic offset name descriptor bootstrap arguments =>
    invokeDynamic offset name descriptor bootstrap (arguments.map (·.map (f bootstrap.isStringConcat)))
  | other offset opcode => other offset opcode

def Method.mapOpen (f : Bool → σ → τ) (method : Method σ) : Method τ :=
  { method.map (f true) with instructions := method.instructions.map (·.mapOpen f) }

/-- Replaces each site by what the function makes of it, given whether the site is open. -/
def Declaration.mapOpen (f : Bool → σ → τ) (declaration : Declaration σ) : Declaration τ :=
  { declaration.map (f true) with methods := declaration.methods.map (·.mapOpen f) }

theorem Instruction.located_map_isSome (f : Bool → σ → τ) (label : MethodLabel) (instruction : Instruction σ) :
    (instruction.located label).map (fun marked => f marked.1.isSome marked.2) = instruction.mapOpen f := by
  cases instruction with
  | load => simp only [located, mapOpen, map_load, Loadable.map_map, Function.comp_def, Option.isSome_some]
  | invokeDynamic offset name descriptor bootstrap arguments =>
    simp only [located, mapOpen, map_invokeDynamic, map_mapIdx, Loadable.map_map, Function.comp_def]
    cases bootstrap.isStringConcat with
    | true => simp only [if_true, Option.isSome_some, mapIdx_eq_map]
    | false => simp only [Bool.false_eq_true, if_false, Option.isSome_none, mapIdx_eq_map]
  | other => rfl

theorem Method.located_map_isSome (f : Bool → σ → τ) (method : Method σ) :
    method.located.map (fun marked => f marked.1.isSome marked.2) = method.mapOpen f := by
  simp only [located, mapOpen, map, List.map_map, map_mapIdx, mapIdx_eq_map, Function.comp_def,
    Instruction.located_map_isSome, Annotations.map_map, AnnotationUse.map_map, Option.map_map,
    ElementValue.map_map, Option.isSome_some]

theorem Field.located_map_isSome (f : Bool → σ → τ) (field : Field σ) :
    field.located.map (fun marked => f marked.1.isSome marked.2) = field.map (f true) := by
  simp only [located, map, Function.comp_def, Annotations.map_map, Option.map_map, Loadable.map_map,
    Option.isSome_some]

namespace Declaration

theorem located_map_isSome (f : Bool → σ → τ) (declaration : Declaration σ) :
    declaration.located.map (fun marked => f marked.1.isSome marked.2) = declaration.mapOpen f := by
  simp only [located, mapOpen, map_eq, List.map_map, Function.comp_def, Annotations.map_map,
    Method.located_map_isSome, Field.located_map_isSome, Option.isSome_some]

theorem mapOpen_map (f : Bool → σ → τ) (g : τ → υ) (declaration : Declaration σ) :
    (declaration.mapOpen f).map g = declaration.mapOpen fun isOpen site => g (f isOpen site) := by
  rw [← located_map_isSome, map_map, ← located_map_isSome]
  rfl

theorem mapOpen_const (f : σ → τ) (declaration : Declaration σ) :
    (declaration.mapOpen fun _ => f) = declaration.map f := by
  rw [← located_map_isSome]
  refine (declaration.located.map_map f Prod.snd).symm.trans ?_
  rw [located_map_snd]

end Declaration

theorem Instruction.ownSites_mapOpen (f : Bool → σ → τ) (instruction : Instruction σ) :
    (instruction.mapOpen f).ownSites = instruction.ownSites.map (f true) := by
  cases instruction with
  | load _ _ constant => exact constant.sites_map (f true)
  | invokeDynamic => rfl
  | other => rfl

theorem Instruction.calls_mapOpen (f : Bool → σ → τ) (instruction : Instruction σ) :
    (instruction.mapOpen f).calls
      = instruction.calls.map fun call => (call.1, call.2.map (f call.1.isStringConcat)) := by
  cases instruction with
  | load => rfl
  | invokeDynamic _ _ _ bootstrap arguments =>
    rw [mapOpen, calls, calls, List.map_singleton,
      flatMap_map_contents (f bootstrap.isStringConcat) fun constant : Loadable σ => constant.sites_map _]
  | other => rfl

theorem Method.ownSites_mapOpen (f : Bool → σ → τ) (method : Method σ) :
    (method.mapOpen f).ownSites = method.ownSites.map (f true) := by
  have hannotations : (method.mapOpen f).annotationSites = method.annotationSites.map (f true) :=
    method.annotationSites_map (f true)
  rw [ownSites, ownSites, List.map_append, hannotations, mapOpen,
    flatMap_map_contents (f true) fun instruction : Instruction σ => instruction.ownSites_mapOpen f]

namespace Declaration

theorem ownSites_mapOpen (f : Bool → σ → τ) (declaration : Declaration σ) :
    (declaration.mapOpen f).ownSites = declaration.ownSites.map (f true) := by
  rw [ownSites, ownSites, mapOpen, map_eq, List.map_append, List.map_append, Annotations.sites_map,
    flatMap_map_contents (f true) fun method => Method.ownSites_mapOpen f method,
    flatMap_map_contents (f true) fun field => Field.sites_map (f true) field]

/-- The arguments of a call are all open or all closed. -/
theorem calls_mapOpen (f : Bool → σ → τ) (declaration : Declaration σ) :
    (declaration.mapOpen f).calls
      = declaration.calls.map fun call => (call.1, call.2.map (f call.1.isStringConcat)) := by
  rw [calls, calls, mapOpen]
  refine flatMap_map_contents _ (fun method => ?_) declaration.methods
  exact flatMap_map_contents _ (fun instruction : Instruction σ => instruction.calls_mapOpen f)
    method.instructions

end Declaration

end Retoken
