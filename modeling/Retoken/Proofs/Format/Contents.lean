import Retoken.Proofs.Format.Attributes

/-!
# What attributes hold

Each kind of attribute that means something has contents of one form. The sites that are read from it are those for the slots that the contents list, one list for each annotation or parameter.
-/

namespace Retoken

open BigEndian Reader

variable {pool : ConstantPool} {start stop : Cursor} {attr : Attribute}

def Shown (pool : ConstantPool) (position : Nat) (content : AttributeContent) (sites : List (List StringSite)) : Prop :=
  sites = (content.slots position).map (·.filterMap pool.siteAt?)

structure Attribute.Holds (pool : ConstantPool) (attr : Attribute) (kind : AttributeKind)
    (sites : List (List StringSite)) (content : AttributeContent) : Prop where
  bytes : content.toBytes = attr.body.rest
  kind : content.kind = kind
  wellFormed : content.WellFormed
  shown : Shown pool attr.body.position content sites

namespace AttributeContent

theorem code?_eq_none {position : Nat} {content : AttributeContent} (hkind : content.kind ≠ .code) :
    content.code? position = none := by
  cases content with
  | code => exact absurd rfl hkind
  | _ => rfl

theorem entries_eq_nil {position : Nat} {content : AttributeContent} (hkind : content.kind ≠ .bootstrapMethods) :
    content.entries pool position = [] := by
  cases content with
  | bootstrapMethods => exact absurd rfl hkind
  | _ => rfl

end AttributeContent

namespace Attribute

theorem Holds.adds {σ γ : Type} {found : σ → String → γ} {related : Nat → AttributeContent → γ → Prop}
    {state state' : σ}
    {kindOf : String → AttributeKind} {kind : AttributeKind} {sites : List (List StringSite)}
    {content : AttributeContent}
    {name : String} (hholds : attr.Holds pool kind sites content) (hname : attr.name = name)
    (hkind : kindOf name = kind) (hrelated : related attr.body.position content (found state' name))
    (hothers : ∀ other, other ≠ name → found state' other = found state other) :
    Adds kindOf found related state attr state' content := by
  subst hname
  exact ⟨hholds.bytes, hholds.kind.trans hkind.symm, hholds.wellFormed, hrelated, hothers⟩

theorem holds_other (pool : ConstantPool) (attr : Attribute) : attr.Holds pool .other [] (.other attr.body.rest) :=
  ⟨rfl, rfl, trivial, rfl⟩

theorem exists_constant {constant : Loadable StringSite}
    (hparse : attr.parse (Field.readConstant pool) = .ok constant) :
    ∃ content, attr.Holds pool .constantValue [constant.sites] content := by
  have hreader : Undoes (Field.readConstant pool) bytes16 fun position index constant =>
      constant.sites = (pool.siteAt? ⟨.wideString, position, index⟩).toList := by
    intro start stop constant hread
    obtain ⟨index, hindex, hconstant⟩ := Field.readConstant_eq_ok.mp hread
    exact ⟨index, u16_eq_ok.mp hindex, Loadable.sites_ofSlot rfl hconstant⟩
  obtain ⟨index, hbytes, hsites⟩ := parse_undoes hreader hparse
  refine ⟨.constantValue index, hbytes, rfl, trivial, ?_⟩
  rw [Shown, AttributeContent.slots, List.map_singleton, filterMap_singleton, hsites]

theorem exists_annotations {uses : List (AnnotationUse StringSite)}
    (hparse : attr.parse (AnnotationUse.readAll pool) = .ok uses) :
    ∃ content, attr.Holds pool .annotations (uses.map (·.sites)) content := by
  obtain ⟨layouts, hbytes, hcount, hrow⟩ := parse_undoes AnnotationUse.readAll_undoes hparse
  refine ⟨.annotations layouts, hbytes, rfl, ⟨hcount, hrow.forall_layouts fun _ _ _ hdescribes => hdescribes.1⟩, ?_⟩
  rw [Shown, AttributeContent.slots, inRow_map]
  exact hrow.map_eq fun _ _ _ hdescribes => hdescribes.2

theorem exists_parameterAnnotations {uses : List (List (AnnotationUse StringSite))}
    (hparse : attr.parse (AnnotationUse.readPerParameter pool) = .ok uses) :
    ∃ content, attr.Holds pool .parameterAnnotations (uses.map (·.flatMap (·.sites))) content := by
  obtain ⟨layouts, hbytes, hcount, hrow⟩ := parse_undoes AnnotationUse.readPerParameter_undoes hparse
  refine ⟨.parameterAnnotations layouts, hbytes, rfl, ⟨hcount, hrow.forall_layouts ?_⟩, ?_⟩
  · rintro _ _ _ ⟨hcount, hrow⟩
    exact ⟨hcount, hrow.forall_layouts fun _ _ _ hdescribes => hdescribes.1⟩
  · rw [Shown, AttributeContent.slots, inRow_map]
    refine hrow.map_eq ?_
    rintro _ _ _ ⟨-, hrow⟩
    simp only [inRow_filterMap]
    exact hrow.flatMap_eq fun _ _ _ hdescribes => hdescribes.2

theorem exists_annotationDefault {value : ElementValue StringSite}
    (hparse : attr.parse (ElementValue.read pool 0) = .ok value) :
    ∃ content, attr.Holds pool .annotationDefault [value.sites] content := by
  obtain ⟨layout, hbytes, hwellFormed, hsites⟩ := parse_undoes (ElementValue.read_undoes 0) hparse
  refine ⟨.annotationDefault layout, hbytes, rfl, hwellFormed, ?_⟩
  rw [Shown, AttributeContent.slots, List.map_singleton, hsites]

section Found

variable {σ γ γ' : Type} {found : σ → String → γ} {related : Nat → AttributeContent → γ → Prop} {state state' : σ}
  {position : Nat} {layouts : List AttributeLayout}

theorem FoundLast.part {related' : Nat → AttributeContent → γ' → Prop}
    (hlast : FoundLast pool found related state position layouts state')
    (f : γ → γ') (hrelated : ∀ position content a, related position content a → related' position content (f a)) :
    FoundLast pool (fun state name => f (found state name)) related' state position layouts state' := by
  intro name
  have hname := hlast name
  cases hbody : AttributeLayout.last? pool name position layouts with
  | none =>
    rw [hbody] at hname
    exact congrArg f hname
  | some body =>
    rw [hbody] at hname
    exact hrelated _ _ _ hname

/-- What is computed from the last attribute, if nothing was there before. -/
theorem FoundLast.eq_inLast {found : σ → String → List γ} {contents : Nat → AttributeContent → List γ}
    (hlast : FoundLast pool found (fun position content a =>
      a = contents position content) state position layouts state')
    {name : String} (hnone : found state name = []) :
    found state' name = AttributeLayout.inLast pool name contents position layouts := by
  have hname := hlast name
  rw [AttributeLayout.inLast]
  cases hbody : AttributeLayout.last? pool name position layouts with
  | none =>
    rw [hbody] at hname
    exact hname.trans hnone
  | some body =>
    rw [hbody] at hname
    exact hname

/-- The sites found under a name, if nothing was there before. -/
theorem FoundLast.flatten_eq {found : σ → String → List (List StringSite)}
    (hlast : FoundLast pool found (Shown pool) state position layouts state') {name : String}
    (hnone : found state name = []) :
    found state' name
      = (AttributeLayout.inLast pool name AttributeContent.slots position layouts).map (·.filterMap pool.siteAt?) := by
  refine (FoundLast.eq_inLast hlast hnone).trans ?_
  rw [AttributeLayout.inLast, AttributeLayout.inLast]
  cases AttributeLayout.last? pool name position layouts <;> rfl

end Found

end Attribute

theorem ConstantPool.filterMap_marked (pool : ConstantPool) (mark : Option Place) (slots : List Slot) :
    (slots.map (mark, ·)).filterMap pool.markedSiteAt? = (slots.filterMap pool.siteAt?).map (mark, ·) := by
  rw [List.filterMap_map, List.map_filterMap]
  rfl

theorem BootstrapMethod.read_undoes : Undoes (read pool) BootstrapLayout.toBytes fun position layout method =>
    layout.arguments.length ≤ maxCount ∧ Instruction.entryOf method = layout.entry pool position := by
  have hargument : Undoes (BootstrapArgument.read pool) bytes16 fun position index argument =>
      argument.slot = ⟨.wideString, position, index⟩ := by
    intro start stop argument hread
    obtain ⟨hindex, hposition, -⟩ := BootstrapArgument.read_eq_ok.mp hread
    refine ⟨argument.index, u16_eq_ok.mp hindex, ?_⟩
    rw [← hposition]
    rfl
  intro start stop method hread
  obtain ⟨middle, hhandle, harguments⟩ := read_eq_ok.mp hread
  obtain ⟨index, hindex, hlook⟩ := indexed_spells hhandle
  obtain ⟨layouts, hspells, hcount, hrow⟩ := hargument.counted _ _ _ harguments
  rw [hindex.2] at hrow
  refine ⟨⟨index, layouts⟩, hindex.append hspells, hcount, ?_⟩
  rw [Instruction.entryOf, BootstrapLayout.entry, hlook]
  exact congrArg (Prod.mk (some method.handle)) (hrow.map_eq fun _ _ _ hslot => hslot)

theorem Attribute.exists_bootstrapMethods {methods : List BootstrapMethod}
    (hparse : attr.parse (BootstrapMethod.readAll pool) = .ok methods) :
    ∃ content, attr.Holds pool .bootstrapMethods [] content
      ∧ methods.map Instruction.entryOf = content.entries pool attr.body.position := by
  obtain ⟨layouts, hbytes, hcount, hrow⟩ := parse_undoes BootstrapMethod.read_undoes.counted hparse
  refine ⟨.bootstrapMethods layouts,
    ⟨hbytes, rfl, ⟨hcount, hrow.forall_layouts fun _ _ _ hmethod => hmethod.1⟩, rfl⟩, ?_⟩
  exact hrow.map_eq fun _ _ _ hmethod => hmethod.2

end Retoken
