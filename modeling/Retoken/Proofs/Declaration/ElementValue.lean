import Retoken.ClassFile.Sites

/-!
# The contents of an annotation value

An annotation value is a container: it has a shape, and a list of sites standing in it. Looking at the sites one after the other is a fold over that list, and `map` puts new sites into the same shape. The laws are those of any container: `sites_map`, `map_map`, `map_id`, and `map_congr`, by which a function matters only at the sites that are there. Values nest through lists, so each law comes with its counterparts for the items of an array and for the members of a nested annotation.
-/

namespace Retoken

variable {σ τ υ β : Type}

namespace ElementValue

mutual

def sites : ElementValue σ → List σ
  | string site => [site]
  | array values => itemSites values
  | nested _ members => memberSites members
  | nonText | number .. | enumConstant .. | classRef _ => []

def itemSites : List (ElementValue σ) → List σ
  | [] => []
  | value :: values => sites value ++ itemSites values

def memberSites : List (String × ElementValue σ) → List σ
  | [] => []
  | (_, value) :: members => sites value ++ memberSites members

end

theorem itemSites_eq (values : List (ElementValue σ)) : itemSites values = values.flatMap sites := by
  induction values with
  | nil => rfl
  | cons value values ih => rw [itemSites, ih, List.flatMap_cons]

theorem memberSites_eq (members : List (String × ElementValue σ)) :
    memberSites members = members.flatMap fun member => member.2.sites := by
  induction members with
  | nil => rfl
  | cons member members ih => rw [memberSites, ih, List.flatMap_cons]

mutual

theorem foldl_eq (f : β → σ → β) (init : β) :
    ∀ value : ElementValue σ, foldl f init value = value.sites.foldl f init
  | string _ => rfl
  | array values => by rw [foldl, sites, foldlItems_eq f init values]
  | nested _ members => by rw [foldl, sites, foldlMembers_eq f init members]
  | nonText => rfl
  | number .. => rfl
  | enumConstant .. => rfl
  | classRef _ => rfl

theorem foldlItems_eq (f : β → σ → β) (init : β) :
    ∀ values : List (ElementValue σ), foldlItems f init values = (itemSites values).foldl f init
  | [] => rfl
  | value :: values => by
    rw [foldlItems, itemSites, List.foldl_append, foldl_eq f init value, foldlItems_eq f _ values]

theorem foldlMembers_eq (f : β → σ → β) (init : β) :
    ∀ members : List (String × ElementValue σ),
      foldlMembers f init members = (memberSites members).foldl f init
  | [] => rfl
  | (_, value) :: members => by
    rw [foldlMembers, memberSites, List.foldl_append, foldl_eq f init value,
      foldlMembers_eq f _ members]

end

theorem traverseItems_pure (f : σ → τ) (rebuilt : List (ElementValue τ))
    (values : List (ElementValue σ)) :
    Id.run (traverseItems (fun site => pure (f site)) rebuilt values)
      = rebuilt.reverse ++ values.map (map f) := by
  induction values generalizing rebuilt with
  | nil => simp [traverseItems]
  | cons value values ih =>
    rw [traverseItems, List.map_cons]
    refine (ih (value.map f :: rebuilt)).trans ?_
    rw [List.reverse_cons, List.append_assoc, List.singleton_append]

theorem traverseMembers_pure (f : σ → τ) (rebuilt : List (String × ElementValue τ))
    (members : List (String × ElementValue σ)) :
    Id.run (traverseMembers (fun site => pure (f site)) rebuilt members)
      = rebuilt.reverse ++ members.map fun member => (member.1, member.2.map f) := by
  induction members generalizing rebuilt with
  | nil => simp [traverseMembers]
  | cons member members ih =>
    rw [traverseMembers, List.map_cons]
    refine (ih ((member.1, member.2.map f) :: rebuilt)).trans ?_
    rw [List.reverse_cons, List.append_assoc, List.singleton_append]

theorem map_array (f : σ → τ) (values : List (ElementValue σ)) :
    (array values).map f = array (values.map (map f)) :=
  congrArg array (traverseItems_pure f [] values)

theorem map_nested (f : σ → τ) (type : String) (members : List (String × ElementValue σ)) :
    (nested type members).map f
      = nested type (members.map fun member => (member.1, member.2.map f)) :=
  congrArg (nested type) (traverseMembers_pure f [] members)

mutual

theorem sites_map (f : σ → τ) : ∀ value : ElementValue σ, (value.map f).sites = value.sites.map f
  | string _ => rfl
  | array values => by rw [map_array, sites, sites, itemSites_map f values]
  | nested _ members => by rw [map_nested, sites, sites, memberSites_map f members]
  | nonText => rfl
  | number .. => rfl
  | enumConstant .. => rfl
  | classRef _ => rfl

theorem itemSites_map (f : σ → τ) :
    ∀ values : List (ElementValue σ), itemSites (values.map (map f)) = (itemSites values).map f
  | [] => rfl
  | value :: values => by
    rw [List.map_cons, itemSites, itemSites, List.map_append, sites_map f value,
      itemSites_map f values]

theorem memberSites_map (f : σ → τ) :
    ∀ members : List (String × ElementValue σ),
      memberSites (members.map fun member => (member.1, member.2.map f)) = (memberSites members).map f
  | [] => rfl
  | (_, value) :: members => by
    rw [List.map_cons, memberSites, memberSites, List.map_append, sites_map f value,
      memberSites_map f members]

end

mutual

theorem map_map (g : τ → υ) (f : σ → τ) :
    ∀ value : ElementValue σ, (value.map f).map g = value.map (g ∘ f)
  | string _ => rfl
  | array values => by rw [map_array, map_array, map_array, mapItems_map g f values]
  | nested _ members => by rw [map_nested, map_nested, map_nested, mapMembers_map g f members]
  | nonText => rfl
  | number .. => rfl
  | enumConstant .. => rfl
  | classRef _ => rfl

theorem mapItems_map (g : τ → υ) (f : σ → τ) :
    ∀ values : List (ElementValue σ), (values.map (map f)).map (map g) = values.map (map (g ∘ f))
  | [] => rfl
  | value :: values => by
    rw [List.map_cons, List.map_cons, List.map_cons, map_map g f value, mapItems_map g f values]

theorem mapMembers_map (g : τ → υ) (f : σ → τ) :
    ∀ members : List (String × ElementValue σ),
      (members.map fun member => (member.1, member.2.map f)).map
          (fun member => (member.1, member.2.map g))
        = members.map fun member => (member.1, member.2.map (g ∘ f))
  | [] => rfl
  | (_, value) :: members => by
    rw [List.map_cons, List.map_cons, List.map_cons, map_map g f value, mapMembers_map g f members]

end

mutual

theorem map_id : ∀ value : ElementValue σ, value.map id = value
  | string _ => rfl
  | array values => by rw [map_array, mapItems_id values]
  | nested _ members => by rw [map_nested, mapMembers_id members]
  | nonText => rfl
  | number .. => rfl
  | enumConstant .. => rfl
  | classRef _ => rfl

theorem mapItems_id : ∀ values : List (ElementValue σ), values.map (map id) = values
  | [] => rfl
  | value :: values => by rw [List.map_cons, map_id value, mapItems_id values]

theorem mapMembers_id : ∀ members : List (String × ElementValue σ),
    members.map (fun member => (member.1, member.2.map id)) = members
  | [] => rfl
  | (_, value) :: members => by rw [List.map_cons, map_id value, mapMembers_id members]

end

mutual

theorem map_congr {f g : σ → τ} : ∀ {value : ElementValue σ},
    (∀ site ∈ value.sites, f site = g site) → value.map f = value.map g
  | string site, hagree => congrArg string (hagree site (List.mem_singleton.mpr rfl))
  | array _, hagree => by rw [map_array, map_array, mapItems_congr hagree]
  | nested _ _, hagree => by rw [map_nested, map_nested, mapMembers_congr hagree]
  | nonText, _ => rfl
  | number .., _ => rfl
  | enumConstant .., _ => rfl
  | classRef _, _ => rfl

theorem mapItems_congr {f g : σ → τ} : ∀ {values : List (ElementValue σ)},
    (∀ site ∈ itemSites values, f site = g site) → values.map (map f) = values.map (map g)
  | [], _ => rfl
  | value :: values, hagree => by
    rw [itemSites] at hagree
    rw [List.map_cons, List.map_cons,
      map_congr fun site hsite => hagree site (List.mem_append_left _ hsite),
      mapItems_congr fun site hsite => hagree site (List.mem_append_right _ hsite)]

theorem mapMembers_congr {f g : σ → τ} : ∀ {members : List (String × ElementValue σ)},
    (∀ site ∈ memberSites members, f site = g site) →
      members.map (fun member => (member.1, member.2.map f))
        = members.map fun member => (member.1, member.2.map g)
  | [], _ => rfl
  | (_, value) :: members, hagree => by
    rw [memberSites] at hagree
    rw [List.map_cons, List.map_cons,
      map_congr fun site hsite => hagree site (List.mem_append_left _ hsite),
      mapMembers_congr fun site hsite => hagree site (List.mem_append_right _ hsite)]

end

end ElementValue

end Retoken
