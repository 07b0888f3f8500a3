import Retoken.Proofs.Declaration.ElementValue

/-!
# The contents of a declaration

The container laws of annotation values carry over to everything that a declaration is made of: annotations, loadable constants, instructions, fields, methods and the declaration itself. For each of them `sites` lists what stands in it, `foldl_eq` says that `foldl` goes through that list, and `map` obeys `sites_map`, `map_map`, `map_id` and `map_congr`. Constants and values that hold no site are kept as they are by every `map`, so two declarations with equal images under `map` have the same shape.
-/

namespace Retoken

variable {σ τ υ β : Type}

/-! ### Lists and optional parts -/

section Lists

variable {α γ : Type} {f : α → γ} {contents : α → List σ}

theorem foldl_flatMap {step : β → α → β} {f : β → σ → β}
    (hstep : ∀ init item, step init item = (contents item).foldl f init) (init : β) (items : List α) :
    items.foldl step init = (items.flatMap contents).foldl f init := by
  induction items generalizing init with
  | nil => rfl
  | cons item items ih => rw [List.foldl_cons, List.flatMap_cons, List.foldl_append, ih, hstep]

theorem flatMap_map_contents {contents' : γ → List τ} (h : σ → τ)
    (hcontents : ∀ item, contents' (f item) = (contents item).map h) (items : List α) :
    (items.map f).flatMap contents' = (items.flatMap contents).map h := by
  induction items with
  | nil => rfl
  | cons item items ih => rw [List.map_cons, List.flatMap_cons, List.flatMap_cons, List.map_append,
      hcontents, ih]

end Lists

/-! ### Annotations -/

namespace AnnotationUse

def sites (use : AnnotationUse σ) : List σ :=
  ElementValue.memberSites use.members

theorem foldl_eq (f : β → σ → β) (init : β) (use : AnnotationUse σ) :
    use.foldl f init = use.sites.foldl f init :=
  ElementValue.foldlMembers_eq f init use.members

theorem map_eq (f : σ → τ) (use : AnnotationUse σ) :
    use.map f = ⟨use.type, use.members.map fun member => (member.1, member.2.map f)⟩ :=
  congrArg (AnnotationUse.mk use.type) (ElementValue.traverseMembers_pure f [] use.members)

theorem sites_map (f : σ → τ) (use : AnnotationUse σ) : (use.map f).sites = use.sites.map f := by
  rw [map_eq, sites, sites, ElementValue.memberSites_map]

theorem map_map (g : τ → υ) (f : σ → τ) (use : AnnotationUse σ) :
    (use.map f).map g = use.map (g ∘ f) := by
  rw [map_eq, map_eq, map_eq, ElementValue.mapMembers_map]

theorem map_id (use : AnnotationUse σ) : use.map id = use := by
  rw [map_eq, ElementValue.mapMembers_id]

theorem map_congr {f g : σ → τ} {use : AnnotationUse σ}
    (hagree : ∀ site ∈ use.sites, f site = g site) : use.map f = use.map g := by
  rw [map_eq, map_eq, ElementValue.mapMembers_congr hagree]

end AnnotationUse

namespace Annotations

def sites (annotations : Annotations σ) : List σ :=
  annotations.visible.flatMap (·.sites) ++ annotations.invisible.flatMap (·.sites)

theorem foldl_eq (f : β → σ → β) (init : β) (annotations : Annotations σ) :
    annotations.foldl f init = annotations.sites.foldl f init := by
  rw [foldl, sites, List.foldl_append, foldl_flatMap (AnnotationUse.foldl_eq f),
    foldl_flatMap (AnnotationUse.foldl_eq f)]

theorem map_eq (f : σ → τ) (annotations : Annotations σ) :
    annotations.map f
      = ⟨annotations.visible.map (·.map f), annotations.invisible.map (·.map f)⟩ := by
  simp only [map, traverse, Id.run_bind, Id.run_pure, List.idRun_mapM]
  rfl

theorem sites_map (f : σ → τ) (annotations : Annotations σ) :
    (annotations.map f).sites = annotations.sites.map f := by
  rw [map_eq, sites, sites, List.map_append,
    flatMap_map_contents f fun use => AnnotationUse.sites_map f use,
    flatMap_map_contents f fun use => AnnotationUse.sites_map f use]

theorem map_map (g : τ → υ) (f : σ → τ) (annotations : Annotations σ) :
    (annotations.map f).map g = annotations.map (g ∘ f) := by
  simp only [map_eq, List.map_map, Function.comp_def, AnnotationUse.map_map]

theorem map_id (annotations : Annotations σ) : annotations.map id = annotations := by
  simp only [map_eq, AnnotationUse.map_id, List.map_id_fun', id_eq]

theorem map_congr {f g : σ → τ} {annotations : Annotations σ}
    (hagree : ∀ site ∈ annotations.sites, f site = g site) : annotations.map f = annotations.map g := by
  have hvisible : annotations.visible.map (·.map f) = annotations.visible.map (·.map g) :=
    List.map_congr_left fun use huse => AnnotationUse.map_congr fun site hsite =>
      hagree site (List.mem_append_left _ (List.mem_flatMap.mpr ⟨use, huse, hsite⟩))
  have hinvisible : annotations.invisible.map (·.map f) = annotations.invisible.map (·.map g) :=
    List.map_congr_left fun use huse => AnnotationUse.map_congr fun site hsite =>
      hagree site (List.mem_append_right _ (List.mem_flatMap.mpr ⟨use, huse, hsite⟩))
  rw [map_eq, map_eq, hvisible, hinvisible]

end Annotations

/-! ### Instructions -/

namespace Loadable

def sites : Loadable σ → List σ
  | string site => [site]
  | _ => []

theorem foldl_eq (f : β → σ → β) (init : β) (constant : Loadable σ) :
    constant.foldl f init = constant.sites.foldl f init := by
  cases constant <;> rfl

theorem sites_map (f : σ → τ) (constant : Loadable σ) :
    (constant.map f).sites = constant.sites.map f := by
  cases constant <;> rfl

theorem map_map (g : τ → υ) (f : σ → τ) (constant : Loadable σ) :
    (constant.map f).map g = constant.map (g ∘ f) := by
  cases constant <;> rfl

theorem map_id (constant : Loadable σ) : constant.map id = constant := by
  cases constant <;> rfl

theorem map_congr {f g : σ → τ} {constant : Loadable σ}
    (hagree : ∀ site ∈ constant.sites, f site = g site) : constant.map f = constant.map g := by
  cases constant with
  | string site => exact congrArg string (hagree site (List.mem_singleton.mpr rfl))
  | _ => rfl

end Loadable

namespace Instruction

def sites : Instruction σ → List σ
  | load _ _ constant => constant.sites
  | invokeDynamic _ _ _ _ arguments => arguments.flatMap (·.sites)
  | other .. => []

theorem foldl_eq (f : β → σ → β) (init : β) (instruction : Instruction σ) :
    instruction.foldl f init = instruction.sites.foldl f init := by
  cases instruction with
  | load _ _ constant => exact constant.foldl_eq f init
  | invokeDynamic _ _ _ _ arguments => exact foldl_flatMap (Loadable.foldl_eq f) init arguments
  | other => rfl

theorem map_load (f : σ → τ) (offset : Nat) (opcode : UInt8) (constant : Loadable σ) :
    (load offset opcode constant).map f = load offset opcode (constant.map f) := rfl

theorem map_invokeDynamic (f : σ → τ) (offset : Nat) (name descriptor : String)
    (bootstrap : MethodHandle) (arguments : List (Loadable σ)) :
    (invokeDynamic offset name descriptor bootstrap arguments).map f
      = invokeDynamic offset name descriptor bootstrap (arguments.map (·.map f)) :=
  congrArg (invokeDynamic offset name descriptor bootstrap)
    (List.idRun_mapM (f := Loadable.traverse fun site => pure (f site)))

theorem sites_map (f : σ → τ) (instruction : Instruction σ) :
    (instruction.map f).sites = instruction.sites.map f := by
  cases instruction with
  | load _ _ constant => exact constant.sites_map f
  | invokeDynamic _ _ _ _ arguments =>
    rw [map_invokeDynamic]
    exact flatMap_map_contents f (fun constant => constant.sites_map f) arguments
  | other => rfl

theorem map_map (g : τ → υ) (f : σ → τ) (instruction : Instruction σ) :
    (instruction.map f).map g = instruction.map (g ∘ f) := by
  cases instruction with
  | load offset opcode constant =>
    exact congrArg (load offset opcode) (constant.map_map g f)
  | invokeDynamic =>
    simp only [map_invokeDynamic, List.map_map, Function.comp_def, Loadable.map_map]
  | other => rfl

theorem map_id (instruction : Instruction σ) : instruction.map id = instruction := by
  cases instruction with
  | load offset opcode constant => exact congrArg (load offset opcode) constant.map_id
  | invokeDynamic => simp only [map_invokeDynamic, Loadable.map_id, List.map_id_fun', id_eq]
  | other => rfl

theorem map_congr {f g : σ → τ} {instruction : Instruction σ}
    (hagree : ∀ site ∈ instruction.sites, f site = g site) : instruction.map f = instruction.map g := by
  cases instruction with
  | load offset opcode constant => exact congrArg (load offset opcode) (Loadable.map_congr hagree)
  | invokeDynamic _ _ _ _ arguments =>
    have harguments : arguments.map (·.map f) = arguments.map (·.map g) :=
      List.map_congr_left fun argument hargument => Loadable.map_congr fun site hsite =>
        hagree site (List.mem_flatMap.mpr ⟨argument, hargument, hsite⟩)
    rw [map_invokeDynamic, map_invokeDynamic, harguments]
  | other => rfl

end Instruction

/-! ### Members -/

namespace Field

def sites (field : Field σ) : List σ :=
  (field.constant?.map (·.sites)).getD [] ++ field.annotations.sites

def map (f : σ → τ) (field : Field σ) : Field τ :=
  { field with
    constant? := field.constant?.map (·.map f)
    annotations := field.annotations.map f }

theorem foldl_eq (f : β → σ → β) (init : β) (field : Field σ) :
    field.foldl f init = field.sites.foldl f init := by
  rw [foldl, sites, List.foldl_append, Annotations.foldl_eq]
  cases field.constant? with
  | none => rfl
  | some constant => exact congrArg (field.annotations.sites.foldl f) (constant.foldl_eq f init)

theorem traverse_pure (f : σ → τ) (field : Field σ) :
    Id.run (field.traverse fun site => pure (f site)) = field.map f := by
  obtain ⟨access, name, descriptor, constant?, annotations⟩ := field
  cases constant? <;> rfl

theorem sites_map (f : σ → τ) (field : Field σ) : (field.map f).sites = field.sites.map f := by
  rw [sites, sites, List.map_append, map, Annotations.sites_map]
  cases field.constant? with
  | none => rfl
  | some constant => exact congrArg (· ++ _) (constant.sites_map f)

theorem map_map (g : τ → υ) (f : σ → τ) (field : Field σ) :
    (field.map f).map g = field.map (g ∘ f) := by
  simp only [map, Option.map_map, Function.comp_def, Loadable.map_map, Annotations.map_map]

theorem map_id (field : Field σ) : field.map id = field := by
  simp only [map, Loadable.map_id, Annotations.map_id, Option.map_id_fun', id_eq]

theorem map_congr {f g : σ → τ} {field : Field σ}
    (hagree : ∀ site ∈ field.sites, f site = g site) : field.map f = field.map g := by
  have hannotations : field.annotations.map f = field.annotations.map g :=
    Annotations.map_congr fun site hsite => hagree site (List.mem_append_right _ hsite)
  have hconstant : field.constant?.map (·.map f) = field.constant?.map (·.map g) := by
    cases hsome : field.constant? with
    | none => rfl
    | some constant =>
      refine congrArg some (Loadable.map_congr fun site hsite => ?_)
      refine hagree site (List.mem_append_left _ ?_)
      rw [hsome]
      exact hsite
  rw [map, map, hannotations, hconstant]

end Field

namespace Method

/-- The sites that are not in the code. -/
def annotationSites (method : Method σ) : List σ :=
  method.annotations.sites
    ++ (method.visibleOnParameters.flatMap (·.flatMap (·.sites))
      ++ (method.invisibleOnParameters.flatMap (·.flatMap (·.sites))
        ++ (method.annotationDefault?.map (·.sites)).getD []))

def sites (method : Method σ) : List σ :=
  method.instructions.flatMap (·.sites) ++ method.annotationSites

def map (f : σ → τ) (method : Method σ) : Method τ :=
  { method with
    instructions := method.instructions.map (·.map f)
    annotations := method.annotations.map f
    visibleOnParameters := method.visibleOnParameters.map (·.map (·.map f))
    invisibleOnParameters := method.invisibleOnParameters.map (·.map (·.map f))
    annotationDefault? := method.annotationDefault?.map (·.map f) }

theorem foldl_eq (f : β → σ → β) (init : β) (method : Method σ) :
    method.foldl f init = method.sites.foldl f init := by
  have huses : ∀ init (uses : List (AnnotationUse σ)),
      uses.foldl (AnnotationUse.foldl f) init = (uses.flatMap (·.sites)).foldl f init :=
    fun init uses => foldl_flatMap (AnnotationUse.foldl_eq f) init uses
  simp only [foldl, sites, annotationSites, List.foldl_append, Annotations.foldl_eq,
    foldl_flatMap (Instruction.foldl_eq f), foldl_flatMap huses]
  cases method.annotationDefault? with
  | none => rfl
  | some value => exact value.foldl_eq f _

theorem traverse_pure (f : σ → τ) (method : Method σ) :
    Id.run (method.traverse fun site => pure (f site)) = method.map f := by
  obtain ⟨access, name, descriptor, instructions, annotations, visible, invisible, value?⟩ := method
  simp only [traverse, map, Id.run_bind, Id.run_pure, List.idRun_mapM]
  cases value? <;> rfl

theorem annotationSites_map (f : σ → τ) (method : Method σ) :
    (method.map f).annotationSites = method.annotationSites.map f := by
  have huses : ∀ uses : List (AnnotationUse σ),
      (uses.map (·.map f)).flatMap (·.sites) = (uses.flatMap (·.sites)).map f :=
    fun uses => flatMap_map_contents f (fun use => use.sites_map f) uses
  have hdefault : ((method.annotationDefault?.map (·.map f)).map (·.sites)).getD []
      = ((method.annotationDefault?.map (·.sites)).getD []).map f := by
    cases method.annotationDefault? with
    | none => rfl
    | some value => exact value.sites_map f
  simp only [annotationSites, map, List.map_append, Annotations.sites_map, hdefault,
    flatMap_map_contents f huses]

theorem sites_map (f : σ → τ) (method : Method σ) : (method.map f).sites = method.sites.map f := by
  rw [sites, sites, List.map_append, annotationSites_map, map,
    flatMap_map_contents f fun instruction : Instruction σ => instruction.sites_map f]

theorem map_map (g : τ → υ) (f : σ → τ) (method : Method σ) :
    (method.map f).map g = method.map (g ∘ f) := by
  simp only [map, Option.map_map, List.map_map, Function.comp_def, Instruction.map_map,
    Annotations.map_map, AnnotationUse.map_map, ElementValue.map_map]

theorem map_id (method : Method σ) : method.map id = method := by
  simp only [map, Instruction.map_id, Annotations.map_id, AnnotationUse.map_id, ElementValue.map_id,
    List.map_id_fun', Option.map_id_fun', id_eq]

theorem map_congr {f g : σ → τ} {method : Method σ}
    (hagree : ∀ site ∈ method.sites, f site = g site) : method.map f = method.map g := by
  simp only [sites, annotationSites, List.mem_append] at hagree
  have huses : ∀ uses : List (List (AnnotationUse σ)),
      (∀ site ∈ uses.flatMap (·.flatMap (·.sites)), f site = g site) →
        uses.map (·.map (·.map f)) = uses.map (·.map (·.map g)) := by
    intro uses hin
    refine List.map_congr_left fun list hlist => List.map_congr_left fun use huse =>
      AnnotationUse.map_congr fun site hsite => hin site ?_
    exact List.mem_flatMap.mpr ⟨list, hlist, List.mem_flatMap.mpr ⟨use, huse, hsite⟩⟩
  have hinstructions : method.instructions.map (·.map f) = method.instructions.map (·.map g) :=
    List.map_congr_left fun instruction hmem => Instruction.map_congr fun site hsite =>
      hagree site (.inl (List.mem_flatMap.mpr ⟨instruction, hmem, hsite⟩))
  have hannotations : method.annotations.map f = method.annotations.map g :=
    Annotations.map_congr fun site hsite => hagree site (.inr (.inl hsite))
  have hdefault : method.annotationDefault?.map (·.map f) = method.annotationDefault?.map (·.map g) := by
    cases hsome : method.annotationDefault? with
    | none => rfl
    | some value =>
      refine congrArg some (ElementValue.map_congr fun site hsite => hagree site ?_)
      rw [hsome]
      exact .inr (.inr (.inr (.inr hsite)))
  rw [map, map, hinstructions, hannotations, hdefault,
    huses _ fun site hsite => hagree site (.inr (.inr (.inl hsite))),
    huses _ fun site hsite => hagree site (.inr (.inr (.inr (.inl hsite))))]

end Method

/-! ### Declarations -/

namespace Declaration

theorem foldl_push (sites : List σ) (found : Array σ) :
    (sites.foldl Array.push found).toList = found.toList ++ sites := by
  induction sites generalizing found with
  | nil => simp
  | cons site sites ih => rw [List.foldl_cons, ih, Array.toList_push, List.append_assoc,
      List.singleton_append]

theorem sites_eq (declaration : Declaration σ) :
    declaration.sites = declaration.annotations.sites
      ++ (declaration.methods.flatMap (·.sites) ++ declaration.fields.flatMap (·.sites)) := by
  rw [sites, foldl, Annotations.foldl_eq, foldl_flatMap (Method.foldl_eq _),
    foldl_flatMap (Field.foldl_eq _), ← List.foldl_append, ← List.foldl_append, foldl_push]
  rfl

theorem foldl_eq (f : β → σ → β) (init : β) (declaration : Declaration σ) :
    declaration.foldl f init = declaration.sites.foldl f init := by
  rw [foldl, sites_eq, List.foldl_append, List.foldl_append, Annotations.foldl_eq,
    foldl_flatMap (Method.foldl_eq _), foldl_flatMap (Field.foldl_eq _)]

theorem map_eq (f : σ → τ) (declaration : Declaration σ) :
    declaration.map f = { declaration with
      annotations := declaration.annotations.map f
      methods := declaration.methods.map (·.map f)
      fields := declaration.fields.map (·.map f) } := by
  simp only [map, traverse, Id.run_bind, Id.run_pure, List.idRun_mapM, Method.traverse_pure,
    Field.traverse_pure]
  rfl

theorem sites_map (f : σ → τ) (declaration : Declaration σ) :
    (declaration.map f).sites = declaration.sites.map f := by
  rw [sites_eq, sites_eq, map_eq, List.map_append, List.map_append, Annotations.sites_map,
    flatMap_map_contents f fun method => Method.sites_map f method,
    flatMap_map_contents f fun field => Field.sites_map f field]

theorem map_map (g : τ → υ) (f : σ → τ) (declaration : Declaration σ) :
    (declaration.map f).map g = declaration.map (g ∘ f) := by
  simp only [map_eq, List.map_map, Function.comp_def, Annotations.map_map, Method.map_map,
    Field.map_map]

theorem map_id (declaration : Declaration σ) : declaration.map id = declaration := by
  simp only [map_eq, Annotations.map_id, Method.map_id, Field.map_id, List.map_id_fun', id_eq]

theorem map_congr {f g : σ → τ} {declaration : Declaration σ}
    (hagree : ∀ site ∈ declaration.sites, f site = g site) : declaration.map f = declaration.map g := by
  simp only [sites_eq, List.mem_append] at hagree
  have hannotations : declaration.annotations.map f = declaration.annotations.map g :=
    Annotations.map_congr fun site hsite => hagree site (.inl hsite)
  have hmethods : declaration.methods.map (·.map f) = declaration.methods.map (·.map g) :=
    List.map_congr_left fun method hmethod => Method.map_congr fun site hsite =>
      hagree site (.inr (.inl (List.mem_flatMap.mpr ⟨method, hmethod, hsite⟩)))
  have hfields : declaration.fields.map (·.map f) = declaration.fields.map (·.map g) :=
    List.map_congr_left fun field hfield => Field.map_congr fun site hsite =>
      hagree site (.inr (.inr (List.mem_flatMap.mpr ⟨field, hfield, hsite⟩)))
  rw [map_eq, map_eq, hannotations, hmethods, hfields]

end Declaration

end Retoken
