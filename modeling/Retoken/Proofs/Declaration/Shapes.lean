import Mathlib.Logic.Basic
import Retoken.Proofs.Declaration.Sites

/-!
# Shapes

What is left of a declaration without what stands at its sites is its shape, and a declaration is its shape together with the list of its sites: each `container` says so for one part. `Container` is closed under lists and optional parts, so the parts are put together as the declaration is.
-/

namespace Retoken

variable {σ : Type}

/-- What stands at each site of a shape. -/
def blank (_ : σ) : Unit := ()

/-- A thing of this kind is its shape together with what it contains. -/
structure Container {α ω : Type} (contents : α → List σ) (shape : α → ω) : Prop where
  length_eq : ∀ {item other}, shape item = shape other → (contents item).length = (contents other).length
  eq : ∀ {item other}, shape item = shape other → contents item = contents other → item = other

namespace Container

variable {α ω : Type} {contents : α → List σ} {shape : α → ω}

theorem of_map {contents' : ω → List Unit} (hmap : ∀ item, contents' (shape item) = (contents item).map blank)
    (heq : ∀ {item other}, shape item = shape other → contents item = contents other → item = other) :
    Container contents shape where
  length_eq {item other} hshape := by
    rw [← List.length_map (f := blank), ← hmap, hshape, hmap, List.length_map]
  eq := heq

variable (container : Container contents shape)

include container

theorem list_eq : ∀ {items others : List α}, items.map shape = others.map shape →
    items.flatMap contents = others.flatMap contents → items = others
  | [], [], _, _ => rfl
  | item :: items, other :: others, hshape, hcontents => by
    obtain ⟨hhead, htail⟩ := List.cons.inj hshape
    rw [List.flatMap_cons, List.flatMap_cons] at hcontents
    obtain ⟨hfirst, hrest⟩ := List.append_inj hcontents (container.length_eq hhead)
    rw [container.eq hhead hfirst, list_eq htail hrest]

theorem list_length_eq : ∀ {items others : List α}, items.map shape = others.map shape →
    (items.flatMap contents).length = (others.flatMap contents).length
  | [], [], _ => rfl
  | item :: items, other :: others, hshape => by
    obtain ⟨hhead, htail⟩ := List.cons.inj hshape
    rw [List.flatMap_cons, List.flatMap_cons, List.length_append, List.length_append,
      container.length_eq hhead, list_length_eq htail]

theorem list : Container (fun items : List α => items.flatMap contents) (List.map shape) :=
  ⟨container.list_length_eq, container.list_eq⟩

theorem option : Container (fun item? : Option α => (item?.map contents).getD []) (Option.map shape) where
  length_eq {item? other?} hshape := by
    cases item? <;> cases other? <;> simp only [Option.map_some, Option.map_none, reduceCtorEq] at hshape
    · rfl
    · exact container.length_eq (Option.some.inj hshape)
  eq {item? other?} hshape hcontents := by
    cases item? <;> cases other? <;> simp only [Option.map_some, Option.map_none, reduceCtorEq] at hshape
    · rfl
    · rw [container.eq (Option.some.inj hshape) hcontents]

end Container

namespace ElementValue

theorem length_sites_of_shape {value other : ElementValue σ} (hshape : value.map blank = other.map blank) :
    value.sites.length = other.sites.length := by
  rw [← List.length_map (f := blank), ← sites_map, hshape, sites_map, List.length_map]

mutual

theorem eq_of_shape : ∀ {value other : ElementValue σ}, value.map blank = other.map blank →
    value.sites = other.sites → value = other
  | string site, other, hshape, hsites => by
    cases other with
    | string found => rw [List.singleton_inj.mp hsites]
    | _ => cases hshape
  | array values, other, hshape, hsites => by
    cases other with
    | array others =>
      rw [map_array, map_array] at hshape
      rw [items_eq_of_shape (array.inj hshape) hsites]
    | _ => cases hshape
  | nested type members, other, hshape, hsites => by
    cases other with
    | nested type' others =>
      rw [map_nested, map_nested] at hshape
      obtain ⟨rfl, hmembers⟩ := nested.inj hshape
      rw [members_eq_of_shape hmembers hsites]
    | _ => cases hshape
  | nonText, other, hshape, _ => by cases other <;> cases hshape; rfl
  | number .., other, hshape, _ => by cases other <;> cases hshape; rfl
  | enumConstant .., other, hshape, _ => by cases other <;> cases hshape; rfl
  | classRef _, other, hshape, _ => by cases other <;> cases hshape; rfl

theorem items_eq_of_shape : ∀ {values others : List (ElementValue σ)},
    values.map (map blank) = others.map (map blank) → itemSites values = itemSites others → values = others
  | [], [], _, _ => rfl
  | value :: values, other :: others, hshape, hsites => by
    obtain ⟨hhead, htail⟩ := List.cons.inj hshape
    obtain ⟨hfirst, hrest⟩ := List.append_inj hsites (length_sites_of_shape hhead)
    rw [eq_of_shape hhead hfirst, items_eq_of_shape htail hrest]

theorem members_eq_of_shape : ∀ {members others : List (String × ElementValue σ)},
    (members.map fun member => (member.1, member.2.map blank))
        = (others.map fun member => (member.1, member.2.map blank)) →
      memberSites members = memberSites others → members = others
  | [], [], _, _ => rfl
  | (name, value) :: members, (name', other) :: others, hshape, hsites => by
    obtain ⟨hhead, htail⟩ := List.cons.inj hshape
    obtain ⟨hname, hvalue⟩ : name = name' ∧ value.map blank = other.map blank := Prod.mk.inj hhead
    obtain ⟨hfirst, hrest⟩ := List.append_inj hsites (length_sites_of_shape hvalue)
    rw [hname, eq_of_shape hvalue hfirst, members_eq_of_shape htail hrest]

end

theorem container : Container (sites (σ := σ)) (map blank) :=
  .of_map (sites_map blank) eq_of_shape

end ElementValue

namespace AnnotationUse

theorem container : Container (sites (σ := σ)) (map blank) := by
  refine .of_map (sites_map blank) fun {use other} hshape hsites => ?_
  obtain ⟨type, members⟩ := use
  obtain ⟨type', others⟩ := other
  rw [map_eq, map_eq] at hshape
  obtain ⟨rfl, hmembers⟩ := AnnotationUse.mk.inj hshape
  exact congrArg (AnnotationUse.mk type) (ElementValue.members_eq_of_shape hmembers hsites)

end AnnotationUse

namespace Annotations

theorem container : Container (sites (σ := σ)) (map blank) := by
  refine .of_map (sites_map blank) fun {annotations others} hshape hsites => ?_
  rw [map_eq, map_eq] at hshape
  obtain ⟨hvisible, hinvisible⟩ := Annotations.mk.inj hshape
  obtain ⟨hfirst, hrest⟩ := List.append_inj hsites (AnnotationUse.container.list.length_eq hvisible)
  cases annotations
  cases others
  exact congrArg₂ Annotations.mk (AnnotationUse.container.list.eq hvisible hfirst)
    (AnnotationUse.container.list.eq hinvisible hrest)

end Annotations

namespace Loadable

theorem container : Container (sites (σ := σ)) (map blank) := by
  refine .of_map (sites_map blank) fun {constant other} hshape hsites => ?_
  cases constant with
  | string site =>
    cases other with
    | string found => rw [List.singleton_inj.mp hsites]
    | _ => cases hshape
  | _ => cases other <;> cases hshape; rfl

end Loadable

namespace Instruction

theorem container : Container (sites (σ := σ)) (map blank) := by
  refine .of_map (sites_map blank) fun {instruction other} hshape hsites => ?_
  cases instruction with
  | load offset opcode constant =>
    cases other with
    | load =>
      obtain ⟨rfl, rfl, hconstant⟩ := load.inj hshape
      exact congrArg (load offset opcode) (Loadable.container.eq hconstant hsites)
    | _ => cases hshape
  | invokeDynamic offset name descriptor bootstrap arguments =>
    cases other with
    | invokeDynamic =>
      rw [map_invokeDynamic, map_invokeDynamic] at hshape
      obtain ⟨rfl, rfl, rfl, rfl, harguments⟩ := invokeDynamic.inj hshape
      exact congrArg (invokeDynamic offset name descriptor bootstrap)
        (Loadable.container.list.eq harguments hsites)
    | _ => cases hshape
  | other => cases other <;> cases hshape; rfl

end Instruction

namespace Field

theorem container : Container (sites (σ := σ)) (map blank) := by
  refine .of_map (sites_map blank) fun {field other} hshape hsites => ?_
  obtain ⟨haccess, hname, hdescriptor, hconstant, hannotations⟩ := Field.mk.inj hshape
  obtain ⟨hfirst, hrest⟩ := List.append_inj hsites (Loadable.container.option.length_eq hconstant)
  have hconstant := Loadable.container.option.eq hconstant hfirst
  have hannotations := Annotations.container.eq hannotations hrest
  cases field
  cases other
  rw [Field.mk.injEq]
  exact ⟨haccess, hname, hdescriptor, hconstant, hannotations⟩

end Field

namespace Method

theorem container : Container (sites (σ := σ)) (map blank) := by
  refine .of_map (sites_map blank) fun {method other} hshape hsites => ?_
  have parameters := (AnnotationUse.container (σ := σ)).list.list
  obtain ⟨haccess, hname, hdescriptor, hinstructions, hannotations, hvisible, hinvisible, hdefault⟩ :=
    Method.mk.inj hshape
  obtain ⟨hcode, hsites⟩ := List.append_inj hsites (Instruction.container.list.length_eq hinstructions)
  obtain ⟨hown, hsites⟩ := List.append_inj hsites (Annotations.container.length_eq hannotations)
  obtain ⟨hseen, hsites⟩ := List.append_inj hsites (parameters.length_eq hvisible)
  obtain ⟨hunseen, hsites⟩ := List.append_inj hsites (parameters.length_eq hinvisible)
  have hinstructions := Instruction.container.list.eq hinstructions hcode
  have hannotations := Annotations.container.eq hannotations hown
  have hvisible := parameters.eq hvisible hseen
  have hinvisible := parameters.eq hinvisible hunseen
  have hdefault := ElementValue.container.option.eq hdefault hsites
  cases method
  cases other
  rw [Method.mk.injEq]
  exact ⟨haccess, hname, hdescriptor, hinstructions, hannotations, hvisible, hinvisible, hdefault⟩

end Method

namespace Declaration

theorem container : Container (sites (σ := σ)) (map blank) := by
  refine .of_map (sites_map blank) fun {declaration other} hshape hsites => ?_
  rw [sites_eq, sites_eq] at hsites
  rw [map_eq, map_eq] at hshape
  obtain ⟨hminor, hmajor, haccess, hname, hsuperclass, hinterfaces, hfields, hmethods, hannotations⟩ :=
    Declaration.mk.inj hshape
  obtain ⟨hown, hsites⟩ := List.append_inj hsites (Annotations.container.length_eq hannotations)
  obtain ⟨hcode, hsites⟩ := List.append_inj hsites (Method.container.list.length_eq hmethods)
  have hannotations := Annotations.container.eq hannotations hown
  have hmethods := Method.container.list.eq hmethods hcode
  have hfields := Field.container.list.eq hfields hsites
  cases declaration
  cases other
  rw [Declaration.mk.injEq]
  exact ⟨hminor, hmajor, haccess, hname, hsuperclass, hinterfaces, hfields, hmethods, hannotations⟩

end Declaration

end Retoken
