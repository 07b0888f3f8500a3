import Retoken.ClassFile.Visiting
import Retoken.Proofs.Declaration.Sites

/-!
# Running a traversal

A traversal with an effect at each site runs through the sites in order. If the effect at a site is to take it to another and to advance a state, the traversal as a whole maps the declaration and advances the state over the list of its sites. This is said once for every monad whose steps can be run on a state, since visitors come with states of their own.
-/

namespace Retoken

/-- A way to run the steps of a monad on a state. -/
structure Machine (m : Type → Type) [Monad m] (S : Type) where
  run : {α : Type} → m α → S → α × S
  run_pure : ∀ {α : Type} (a : α) (state : S), run (pure a) state = (a, state)
  run_bind : ∀ {α β : Type} (first : m α) (next : α → m β) (state : S),
    run (first >>= next) state = run (next (run first state).1) (run first state).2

variable {m : Type → Type} [Monad m] {S σ τ : Type}

namespace Machine

def ofState (S : Type) : Machine (StateT S Id) S where
  run step state := (step.run state).run
  run_pure _ _ := rfl
  run_bind _ _ _ := rfl

def ofNested (S T : Type) : Machine (StateT S (StateM T)) (S × T) where
  run step state :=
    let result := ((step.run state.1).run state.2).run
    (result.1.1, result.1.2, result.2)
  run_pure _ _ := rfl
  run_bind _ _ _ := rfl

variable (machine : Machine m S) {advance : S → σ → S}

/-- The effect takes each site to another and advances the state. -/
def Steps (effect : σ → m τ) (result : σ → τ) (advance : S → σ → S) : Prop :=
  ∀ site state, machine.run (effect site) state = (result site, advance state site)

variable [LawfulMonad m]

theorem run_map {α β : Type} (f : α → β) (step : m α) (state : S) :
    machine.run (f <$> step) state = (f (machine.run step state).1, (machine.run step state).2) := by
  rw [map_eq_pure_bind, machine.run_bind, machine.run_pure]

theorem run_mapM {α γ : Type} {step : α → m γ} {result : α → γ} {contents : α → List σ}
    (hstep : ∀ item state, machine.run (step item) state = (result item, (contents item).foldl advance state))
    (items : List α) (state : S) :
    machine.run (items.mapM step) state = (items.map result, (items.flatMap contents).foldl advance state) := by
  induction items generalizing state with
  | nil => rw [List.mapM_nil, machine.run_pure]; rfl
  | cons item items ih =>
    rw [List.mapM_cons, machine.run_bind, machine.run_bind, machine.run_pure, hstep, ih, List.map_cons,
      List.flatMap_cons, List.foldl_append]

theorem run_mapM_option {α γ : Type} {step : α → m γ} {result : α → γ} {contents : α → List σ}
    (hstep : ∀ item state, machine.run (step item) state = (result item, (contents item).foldl advance state))
    (item? : Option α) (state : S) :
    machine.run (item?.mapM step) state
      = (item?.map result, ((item?.map contents).getD []).foldl advance state) := by
  cases item? with
  | none => exact machine.run_pure none state
  | some item =>
    rw [Option.mapM_some, machine.run_map, hstep]
    rfl

end Machine

variable {machine : Machine m S} {effect : σ → m τ} {result : σ → τ} {advance : S → σ → S}

namespace ElementValue

mutual

theorem run_traverse (hsteps : machine.Steps effect result advance) :
    ∀ (value : ElementValue σ) (state : S),
    machine.run (value.traverse effect) state = (value.map result, value.sites.foldl advance state)
  | string site, state => by
    rw [traverse, machine.run_bind, machine.run_pure, hsteps]
    rfl
  | array values, state => by
    rw [traverse, machine.run_bind, machine.run_pure, run_traverseItems hsteps [] values state, map_array]
    rfl
  | nested type members, state => by
    rw [traverse, machine.run_bind, machine.run_pure, run_traverseMembers hsteps [] members state, map_nested]
    rfl
  | nonText, state => machine.run_pure _ state
  | number .., state => machine.run_pure _ state
  | enumConstant .., state => machine.run_pure _ state
  | classRef _, state => machine.run_pure _ state

theorem run_traverseItems (hsteps : machine.Steps effect result advance) (rebuilt : List (ElementValue τ)) :
    ∀ (values : List (ElementValue σ)) (state : S), machine.run (traverseItems effect rebuilt values) state
      = (rebuilt.reverse ++ values.map (map result), (itemSites values).foldl advance state)
  | [], state => by rw [traverseItems, machine.run_pure, List.map_nil, List.append_nil]; rfl
  | value :: values, state => by
    rw [traverseItems, machine.run_bind, run_traverse hsteps value state, run_traverseItems hsteps _ values, itemSites,
      List.foldl_append, List.reverse_cons, List.append_assoc]
    rfl

theorem run_traverseMembers (hsteps : machine.Steps effect result advance)
    (rebuilt : List (String × ElementValue τ)) :
    ∀ (members : List (String × ElementValue σ)) (state : S),
      machine.run (traverseMembers effect rebuilt members) state
        = (rebuilt.reverse ++ members.map fun member => (member.1, member.2.map result),
          (memberSites members).foldl advance state)
  | [], state => by rw [traverseMembers, machine.run_pure, List.map_nil, List.append_nil]; rfl
  | (name, value) :: members, state => by
    rw [traverseMembers, machine.run_bind, run_traverse hsteps value state,
      run_traverseMembers hsteps _ members, memberSites, List.foldl_append, List.reverse_cons, List.append_assoc]
    rfl

end

end ElementValue

theorem AnnotationUse.run_traverse (hsteps : machine.Steps effect result advance) (use : AnnotationUse σ) (state : S) :
    machine.run (use.traverse effect) state = (use.map result, use.sites.foldl advance state) := by
  rw [traverse, machine.run_bind, machine.run_pure, ElementValue.run_traverseMembers hsteps, map_eq]
  rfl

theorem Loadable.run_traverse (hsteps : machine.Steps effect result advance) (constant : Loadable σ) (state : S) :
    machine.run (constant.traverse effect) state = (constant.map result, constant.sites.foldl advance state) := by
  cases constant with
  | string site =>
    rw [traverse, machine.run_bind, machine.run_pure, hsteps]
    rfl
  | _ => exact machine.run_pure _ state

variable [LawfulMonad m] (hsteps : machine.Steps effect result advance)

include hsteps

theorem Annotations.run_traverse (annotations : Annotations σ) (state : S) :
    machine.run (annotations.traverse effect) state
      = (annotations.map result, annotations.sites.foldl advance state) := by
  rw [traverse, machine.run_bind, machine.run_bind, machine.run_pure,
    machine.run_mapM (AnnotationUse.run_traverse hsteps), machine.run_mapM (AnnotationUse.run_traverse hsteps),
    map_eq, sites, List.foldl_append]

theorem Instruction.run_traverse (instruction : Instruction σ) (state : S) :
    machine.run (instruction.traverse effect) state
      = (instruction.map result, instruction.sites.foldl advance state) := by
  cases instruction with
  | load offset opcode constant =>
    rw [traverse, machine.run_bind, machine.run_pure, Loadable.run_traverse hsteps]
    rfl
  | invokeDynamic offset name descriptor bootstrap arguments =>
    rw [traverse, machine.run_bind, machine.run_pure, machine.run_mapM (Loadable.run_traverse hsteps),
      map_invokeDynamic]
    rfl
  | other => exact machine.run_pure _ state

theorem Field.run_traverse (field : Field σ) (state : S) :
    machine.run (field.traverse effect) state = (field.map result, field.sites.foldl advance state) := by
  rw [traverse, machine.run_bind, machine.run_bind, machine.run_pure,
    machine.run_mapM_option (Loadable.run_traverse hsteps), Annotations.run_traverse hsteps, sites,
    List.foldl_append]
  rfl

theorem Method.run_traverse (method : Method σ) (state : S) :
    machine.run (method.traverse effect) state = (method.map result, method.sites.foldl advance state) := by
  have huses := machine.run_mapM (AnnotationUse.run_traverse hsteps)
  rw [traverse, machine.run_bind, machine.run_bind, machine.run_bind, machine.run_bind, machine.run_bind,
    machine.run_pure, machine.run_mapM (Instruction.run_traverse hsteps), Annotations.run_traverse hsteps,
    machine.run_mapM huses, machine.run_mapM huses, machine.run_mapM_option (ElementValue.run_traverse hsteps),
    sites, annotationSites, List.foldl_append, List.foldl_append, List.foldl_append, List.foldl_append]
  rfl

theorem Declaration.run_traverse (declaration : Declaration σ) (state : S) :
    machine.run (declaration.traverse effect) state
      = (declaration.map result, declaration.sites.foldl advance state) := by
  rw [traverse, machine.run_bind, machine.run_bind, machine.run_bind, machine.run_pure,
    Annotations.run_traverse hsteps, machine.run_mapM (Method.run_traverse hsteps),
    machine.run_mapM (Field.run_traverse hsteps), map_eq, sites_eq, List.foldl_append, List.foldl_append]

end Retoken
