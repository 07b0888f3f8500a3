import Mathlib.Tactic.Choose
import Retoken.Proofs.Declaration.Shapes

/-!
# Refilling a declaration

A traversal with an effect at each site runs the effects in the order in which the sites are listed, in any monad, and its result is the old shape with what the effects gave in the places of the sites. So nothing is visited twice, skipped or put elsewhere. `Refills` is closed under the steps of a monad, so for each part this is a walk along its definition.
-/

namespace Retoken

variable {σ τ : Type}

section Traversals

variable {m : Type → Type} [Monad m] [LawfulMonad m] {α γ δ ω : Type}

theorem mapM_bind_congr {f : α → m τ} {items : List α} {next next' : List τ → m γ}
    (hnext : ∀ found, found.length = items.length → next found = next' found) :
    items.mapM f >>= next = items.mapM f >>= next' := by
  induction items generalizing next next' with
  | nil => rw [List.mapM_nil, pure_bind, pure_bind, hnext [] rfl]
  | cons item items ih =>
    simp only [List.mapM_cons, bind_assoc, pure_bind]
    refine bind_congr fun a => ih fun found hlength => hnext (a :: found) ?_
    rw [List.length_cons, hlength, List.length_cons]

/-- The step runs the effect at the sites in order, and what the effects give determines a result that stands in the given relation to it. -/
def Refills (effect : σ → m τ) (step : m γ) (sites : List σ) (refilled : List τ → γ → Prop) : Prop :=
  ∃ rebuild : List τ → γ, step = rebuild <$> sites.mapM effect
    ∧ ∀ found, found.length = sites.length → refilled found (rebuild found)

namespace Refills

variable {effect : σ → m τ} {first : m γ} {next : γ → m δ} {sites sites' : List σ}
  {refilled after : List τ → γ → Prop} {refilledNext : γ → List τ → δ → Prop}

omit [LawfulMonad m] in
theorem imp (hfirst : Refills effect first sites refilled) (hafter : ∀ found c, refilled found c → after found c) :
    Refills effect first sites after := by
  obtain ⟨rebuild, hrun, hresult⟩ := hfirst
  exact ⟨rebuild, hrun, fun found hlength => hafter found _ (hresult found hlength)⟩

theorem pure {result : γ} (hresult : refilled [] result) : Refills effect (pure result) [] refilled := by
  refine ⟨fun _ => result, by rw [List.mapM_nil, map_pure], fun found hlength => ?_⟩
  rwa [List.eq_nil_of_length_eq_zero hlength]

theorem single [Nonempty τ] (site : σ) : Refills effect (effect site) [site] fun found c => [c] = found := by
  obtain ⟨fallback⟩ := ‹Nonempty τ›
  refine ⟨fun found => found.headD fallback, ?_, fun found hlength => ?_⟩
  · rw [List.mapM_cons, List.mapM_nil, map_bind]
    simp only [pure_bind, map_pure, List.headD_cons, bind_pure]
  · obtain ⟨c, rfl⟩ := List.length_eq_one_iff.mp hlength
    rfl

theorem bind (hfirst : Refills effect first sites refilled)
    (hnext : ∀ c, Refills effect (next c) sites' (refilledNext c)) :
    Refills effect (first >>= next) (sites ++ sites') fun all d =>
      ∃ found found' c, all = found ++ found' ∧ refilled found c ∧ refilledNext c found' d := by
  obtain ⟨rebuild, hrun, hresult⟩ := hfirst
  choose rebuild' hrun' hresult' using hnext
  refine ⟨fun found => rebuild' (rebuild (found.take sites.length)) (found.drop sites.length), ?_, ?_⟩
  · rw [hrun, List.mapM_append, map_eq_pure_bind, bind_assoc, map_eq_pure_bind, bind_assoc]
    refine mapM_bind_congr fun found hlength => ?_
    rw [pure_bind, hrun', bind_assoc, map_eq_pure_bind]
    refine mapM_bind_congr fun found' _ => ?_
    rw [pure_bind, List.take_left' hlength, List.drop_left' hlength]
  · intro all hlength
    rw [List.length_append] at hlength
    have hfront : (all.take sites.length).length = sites.length := List.length_take_of_le (by omega)
    have hback : (all.drop sites.length).length = sites'.length := by rw [List.length_drop]; omega
    exact ⟨_, _, _, (List.take_append_drop _ _).symm, hresult _ hfront, hresult' _ _ hback⟩

theorem bind_pure {f : γ → δ} (hfirst : Refills effect first sites refilled) :
    Refills effect (first >>= fun c => Pure.pure (f c)) sites fun found d => ∃ c, refilled found c ∧ f c = d := by
  obtain ⟨rebuild, hrun, hresult⟩ := hfirst
  refine ⟨fun found => f (rebuild found), ?_, fun found hlength => ⟨_, hresult found hlength, rfl⟩⟩
  rw [hrun, ← map_eq_pure_bind, Functor.map_map]

variable {step : α → m γ} {contents : α → List σ} {contents' : γ → List τ} {shape : α → ω} {shape' : γ → ω}
  (hstep : ∀ item, Refills effect (step item) (contents item) fun found c => contents' c = found
  ∧ shape' c = shape item)

include hstep

theorem list (items : List α) : Refills effect (items.mapM step) (items.flatMap contents) fun found results =>
    results.flatMap contents' = found ∧ results.map shape' = items.map shape := by
  induction items with
  | nil =>
    rw [List.mapM_nil]
    exact .pure ⟨rfl, rfl⟩
  | cons item items ih =>
    rw [List.mapM_cons]
    refine .imp ((hstep item).bind fun _ => ih.bind_pure) ?_
    rintro _ _ ⟨_, _, c, rfl, ⟨rfl, hhead⟩, rest, ⟨rfl, htail⟩, rfl⟩
    exact ⟨List.flatMap_cons, by rw [List.map_cons, hhead, htail, List.map_cons]⟩

theorem option (item? : Option α) :
    Refills effect (item?.mapM step) ((item?.map contents).getD []) fun found result? =>
      (result?.map contents').getD [] = found ∧ result?.map shape' = item?.map shape := by
  cases item? with
  | none => exact .pure ⟨rfl, rfl⟩
  | some item =>
    rw [Option.mapM_some, map_eq_pure_bind]
    refine .imp (hstep item).bind_pure ?_
    rintro _ _ ⟨c, ⟨rfl, hshape⟩, rfl⟩
    exact ⟨rfl, congrArg some hshape⟩

end Refills

variable (effect : σ → m τ)

namespace ElementValue

mutual

theorem refills_traverse [Nonempty τ] : ∀ value : ElementValue σ,
    Refills effect (value.traverse effect) value.sites fun found result =>
      result.sites = found ∧ result.map blank = value.map blank
  | string site => by
    rw [traverse]
    refine .imp (Refills.single site).bind_pure ?_
    rintro _ _ ⟨c, rfl, rfl⟩
    exact ⟨rfl, rfl⟩
  | array values => by
    rw [traverse]
    refine .imp (refills_traverseItems [] values).bind_pure ?_
    rintro _ _ ⟨_, ⟨results, rfl, rfl, hshape⟩, rfl⟩
    refine ⟨rfl, ?_⟩
    rw [map_array, map_array]
    exact congrArg array hshape
  | nested type members => by
    rw [traverse]
    refine .imp (refills_traverseMembers [] members).bind_pure ?_
    rintro _ _ ⟨_, ⟨results, rfl, rfl, hshape⟩, rfl⟩
    refine ⟨rfl, ?_⟩
    rw [map_nested, map_nested]
    exact congrArg (nested type) hshape
  | nonText => .pure ⟨rfl, rfl⟩
  | number .. => .pure ⟨rfl, rfl⟩
  | enumConstant .. => .pure ⟨rfl, rfl⟩
  | classRef _ => .pure ⟨rfl, rfl⟩

theorem refills_traverseItems [Nonempty τ] (rebuilt : List (ElementValue τ)) : ∀ values : List (ElementValue σ),
    Refills effect (traverseItems effect rebuilt values) (itemSites values) fun found all =>
      ∃ results, all = rebuilt.reverse ++ results ∧ itemSites results = found
        ∧ results.map (map blank) = values.map (map blank)
  | [] => .pure ⟨[], (List.append_nil _).symm, rfl, rfl⟩
  | value :: values => by
    rw [traverseItems]
    refine .imp ((refills_traverse value).bind fun result => refills_traverseItems (result :: rebuilt) values) ?_
    rintro _ _ ⟨_, _, result, rfl, ⟨rfl, hhead⟩, results, rfl, rfl, htail⟩
    refine ⟨result :: results, ?_, rfl, ?_⟩
    · rw [List.reverse_cons, List.append_assoc, List.singleton_append]
    · rw [List.map_cons, hhead, htail, List.map_cons]

theorem refills_traverseMembers [Nonempty τ] (rebuilt : List (String × ElementValue τ)) :
    ∀ members : List (String × ElementValue σ),
      Refills effect (traverseMembers effect rebuilt members) (memberSites members) fun found all =>
        ∃ results, all = rebuilt.reverse ++ results ∧ memberSites results = found
          ∧ (results.map fun member => (member.1, member.2.map blank))
            = members.map fun member => (member.1, member.2.map blank)
  | [] => .pure ⟨[], (List.append_nil _).symm, rfl, rfl⟩
  | (name, value) :: members => by
    rw [traverseMembers]
    refine .imp ((refills_traverse value).bind fun result =>
      refills_traverseMembers ((name, result) :: rebuilt) members) ?_
    rintro _ _ ⟨_, _, result, rfl, ⟨rfl, hhead⟩, results, rfl, rfl, htail⟩
    refine ⟨(name, result) :: results, ?_, rfl, ?_⟩
    · rw [List.reverse_cons, List.append_assoc, List.singleton_append]
    · rw [List.map_cons, hhead, htail, List.map_cons]

end

end ElementValue

variable [Nonempty τ]

namespace AnnotationUse

theorem refills_traverse (use : AnnotationUse σ) : Refills effect (use.traverse effect) use.sites fun found result =>
    result.sites = found ∧ result.map blank = use.map blank := by
  refine .imp (ElementValue.refills_traverseMembers effect [] use.members).bind_pure ?_
  rintro _ _ ⟨_, ⟨results, rfl, rfl, hshape⟩, rfl⟩
  refine ⟨rfl, ?_⟩
  rw [map_eq, map_eq]
  exact congrArg (AnnotationUse.mk use.type) hshape

end AnnotationUse

namespace Annotations

theorem refills_traverse (annotations : Annotations σ) :
    Refills effect (annotations.traverse effect) annotations.sites fun found result =>
      result.sites = found ∧ result.map blank = annotations.map blank := by
  have huses := Refills.list (AnnotationUse.refills_traverse effect)
  refine .imp ((huses annotations.visible).bind fun _ => (huses annotations.invisible).bind_pure) ?_
  rintro _ _ ⟨_, _, visible, rfl, ⟨rfl, hvisible⟩, invisible, ⟨rfl, hinvisible⟩, rfl⟩
  refine ⟨rfl, ?_⟩
  rw [map_eq, map_eq]
  exact congrArg₂ Annotations.mk hvisible hinvisible

end Annotations

namespace Loadable

theorem refills_traverse (constant : Loadable σ) :
    Refills effect (constant.traverse effect) constant.sites fun found result =>
      result.sites = found ∧ result.map blank = constant.map blank := by
  cases constant with
  | string site =>
    refine .imp (Refills.single site).bind_pure ?_
    rintro _ _ ⟨c, rfl, rfl⟩
    exact ⟨rfl, rfl⟩
  | _ => exact .pure ⟨rfl, rfl⟩

end Loadable

namespace Instruction

theorem refills_traverse (instruction : Instruction σ) :
    Refills effect (instruction.traverse effect) instruction.sites fun found result =>
      result.sites = found ∧ result.map blank = instruction.map blank := by
  cases instruction with
  | load offset opcode constant =>
    refine .imp (Loadable.refills_traverse effect constant).bind_pure ?_
    rintro _ _ ⟨result, ⟨rfl, hshape⟩, rfl⟩
    exact ⟨rfl, congrArg (load offset opcode) hshape⟩
  | invokeDynamic offset name descriptor bootstrap arguments =>
    refine .imp (Refills.list (Loadable.refills_traverse effect) arguments).bind_pure ?_
    rintro _ _ ⟨results, ⟨rfl, hshape⟩, rfl⟩
    refine ⟨rfl, ?_⟩
    rw [map_invokeDynamic, map_invokeDynamic]
    exact congrArg (invokeDynamic offset name descriptor bootstrap) hshape
  | other => exact .pure ⟨rfl, rfl⟩

end Instruction

namespace Field

theorem refills_traverse (field : Field σ) : Refills effect (field.traverse effect) field.sites fun found result =>
    result.sites = found ∧ result.map blank = field.map blank := by
  have hconstant := Refills.option (Loadable.refills_traverse effect) field.constant?
  refine .imp (hconstant.bind fun _ => (Annotations.refills_traverse effect field.annotations).bind_pure) ?_
  rintro _ _ ⟨_, _, constant?, rfl, ⟨rfl, hconstant⟩, annotations, ⟨rfl, hannotations⟩, rfl⟩
  refine ⟨rfl, ?_⟩
  rw [map, map, hconstant, hannotations]

end Field

namespace Method

theorem refills_traverse (method : Method σ) : Refills effect (method.traverse effect) method.sites fun found result =>
    result.sites = found ∧ result.map blank = method.map blank := by
  have hinstructions := Refills.list (Instruction.refills_traverse effect) method.instructions
  have hannotations := Annotations.refills_traverse effect method.annotations
  have hparameters := Refills.list (Refills.list (AnnotationUse.refills_traverse effect))
  have hdefault := Refills.option (ElementValue.refills_traverse effect) method.annotationDefault?
  refine .imp (hinstructions.bind fun _ => hannotations.bind fun _ =>
    (hparameters method.visibleOnParameters).bind fun _ =>
    (hparameters method.invisibleOnParameters).bind fun _ => hdefault.bind_pure) ?_
  rintro _ _ ⟨_, _, instructions, rfl, ⟨rfl, hinstructions⟩, _, _, annotations, rfl, ⟨rfl, hannotations⟩,
    _, _, visible, rfl, ⟨rfl, hvisible⟩, _, _, invisible, rfl, ⟨rfl, hinvisible⟩, default?, ⟨rfl, hdefault⟩, rfl⟩
  refine ⟨rfl, ?_⟩
  rw [map, map, hinstructions, hannotations, hvisible, hinvisible, hdefault]

end Method

namespace Declaration

theorem refills_traverse (declaration : Declaration σ) :
    Refills effect (declaration.traverse effect) declaration.sites fun found result =>
      result.sites = found ∧ result.map blank = declaration.map blank := by
  have hannotations := Annotations.refills_traverse effect declaration.annotations
  have hmethods := Refills.list (Method.refills_traverse effect) declaration.methods
  have hfields := Refills.list (Field.refills_traverse effect) declaration.fields
  rw [sites_eq]
  refine .imp (hannotations.bind fun _ => hmethods.bind fun _ => hfields.bind_pure) ?_
  rintro _ _ ⟨_, _, annotations, rfl, ⟨rfl, hannotations⟩, _, _, methods, rfl, ⟨rfl, hmethods⟩,
    fields, ⟨rfl, hfields⟩, rfl⟩
  refine ⟨sites_eq _, ?_⟩
  rw [map_eq, map_eq, hannotations, hmethods, hfields]

end Declaration

end Traversals

end Retoken
