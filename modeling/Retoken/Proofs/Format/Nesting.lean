import Retoken.Proofs.Format.Annotations

/-!
# How deep annotations nest

`ElementLayout.Typed` says that a layout names constants of the kinds that its tags require, and `ElementLayout.value` is what it then stands for. `ElementLayout.Shallow` says that no value in it lies too deep. Depth is counted here from the outside in, and from the layout alone; the reader counts the levels that are left.
-/

namespace Retoken

open BigEndian

variable {pool : ConstantPool} {depth : Nat}

/-! ### What layouts stand for -/

namespace Constant

def numberTags : Constant → List Char
  | integer _ => ['B', 'C', 'I', 'S', 'Z']
  | float _ => ['F']
  | long _ => ['J']
  | double _ => ['D']
  | _ => []

def number? : Constant → Option Number
  | integer value => some (.integer value)
  | float bits => some (.float bits)
  | long value => some (.long value)
  | double bits => some (.double bits)
  | _ => none

end Constant

namespace ConstantPool

def numberAt (pool : ConstantPool) (index : UInt16) : Number :=
  ((pool.get? index).bind Constant.number?).getD (.integer 0)

def Legible (pool : ConstantPool) (index : UInt16) : Prop :=
  ∃ text, pool.textAt? index = some text

end ConstantPool

namespace ElementLayout

/-- Each index names a constant of the kind that is required there. Only the text of a string value need not be readable. -/
inductive Typed (pool : ConstantPool) : ElementLayout → Prop where
  | number {tag : Char} {index : UInt16} {constant : Constant} (hget : pool.get? index = some constant)
      (htag : tag ∈ constant.numberTags) : Typed pool (.number tag index)
  | string {text : UInt16} {bytes : List UInt8} (hget : pool.get? text = some (.utf8 bytes)) : Typed pool (.string text)
  | enumConstant {type name : UInt16} (htype : pool.Legible type) (hname : pool.Legible name) :
      Typed pool (.enumConstant type name)
  | classRef {descriptor : UInt16} (hdescriptor : pool.Legible descriptor) : Typed pool (.classRef descriptor)
  | array {items : List ElementLayout} (hitems : ∀ item ∈ items, Typed pool item) : Typed pool (.array items)
  | nested {type : UInt16} {members : List (UInt16 × ElementLayout)} (htype : pool.Legible type)
      (hnames : ∀ member ∈ members, pool.Legible member.1) (hmembers : ∀ member ∈ members, Typed pool member.2) :
      Typed pool (.nested type members)

mutual

def value (pool : ConstantPool) (position : Nat) : ElementLayout → ElementValue StringSite
  | number tag index => .number tag (pool.numberAt index)
  | string text =>
    match pool.textAt? text with
    | some stored => .string (.unedited stored ⟨.utf8, position + 1, text⟩)
    | none => .nonText
  | enumConstant type name => .enumConstant (pool.nameAt type) (pool.nameAt name)
  | classRef descriptor => .classRef (pool.nameAt descriptor)
  | array items => .array (itemValues pool (position + 3) items)
  | nested type members => .nested (pool.nameAt type) (memberValues pool (position + 5) members)

def itemValues (pool : ConstantPool) (position : Nat) : List ElementLayout → List (ElementValue StringSite)
  | [] => []
  | item :: items => value pool position item :: itemValues pool (position + item.toBytes.length) items

def memberValues (pool : ConstantPool) (position : Nat) :
    List (UInt16 × ElementLayout) → List (String × ElementValue StringSite)
  | [] => []
  | (name, layout) :: members =>
    (pool.nameAt name, value pool (position + 2) layout)
      :: memberValues pool (position + 2 + layout.toBytes.length) members

end

/-- A value lies at a depth in a layout that is at a depth itself. -/
inductive Lies (inner : ElementLayout) (innerDepth : Nat) : Nat → ElementLayout → Prop where
  | here : Lies inner innerDepth innerDepth inner
  | item {depth : Nat} {items : List ElementLayout} {item : ElementLayout} (hitem : item ∈ items)
      (hlies : Lies inner innerDepth (depth + 1) item) : Lies inner innerDepth depth (.array items)
  | member {depth : Nat} {type : UInt16} {members : List (UInt16 × ElementLayout)} {member : UInt16 × ElementLayout}
      (hmember : member ∈ members) (hlies : Lies inner innerDepth (depth + 2) member.2) :
      Lies inner innerDepth depth (.nested type members)

def Shallow (depth : Nat) (layout : ElementLayout) : Prop :=
  ∀ (inner : ElementLayout) (innerDepth : Nat), Lies inner innerDepth depth layout → innerDepth ≤ ElementValue.maxDepth

end ElementLayout

namespace AnnotationLayout

structure Typed (pool : ConstantPool) (layout : AnnotationLayout) : Prop where
  type : pool.Legible layout.type
  names : ∀ member ∈ layout.members, pool.Legible member.1
  members : ∀ member ∈ layout.members, member.2.Typed pool

def use (pool : ConstantPool) (position : Nat) (layout : AnnotationLayout) : AnnotationUse StringSite :=
  ⟨pool.nameAt layout.type, ElementLayout.memberValues pool (position + 4) layout.members⟩

def Shallow (layout : AnnotationLayout) : Prop :=
  ∀ member ∈ layout.members, member.2.Shallow 1

end AnnotationLayout

/-! ### Depths -/

namespace ElementLayout

theorem Shallow.le {layout : ElementLayout} (hshallow : layout.Shallow depth) : depth ≤ ElementValue.maxDepth :=
  hshallow layout depth .here

theorem shallow_array (hdepth : depth ≤ ElementValue.maxDepth) {items : List ElementLayout} :
    (array items).Shallow depth ↔ ∀ item ∈ items, item.Shallow (depth + 1) := by
  constructor
  · intro hshallow item hitem inner innerDepth hlies
    exact hshallow inner innerDepth (.item hitem hlies)
  · intro hshallow inner innerDepth hlies
    cases hlies with
    | here => exact hdepth
    | item hitem hlies => exact hshallow _ hitem inner innerDepth hlies

theorem shallow_nested (hdepth : depth ≤ ElementValue.maxDepth) {type : UInt16}
    {members : List (UInt16 × ElementLayout)} :
    (nested type members).Shallow depth ↔ ∀ member ∈ members, member.2.Shallow (depth + 2) := by
  constructor
  · intro hshallow member hmember inner innerDepth hlies
    exact hshallow inner innerDepth (.member hmember hlies)
  · intro hshallow inner innerDepth hlies
    cases hlies with
    | here => exact hdepth
    | member hmember hlies => exact hshallow _ hmember inner innerDepth hlies

theorem Shallow.leaf (hdepth : depth ≤ ElementValue.maxDepth) {layout : ElementLayout}
    (harray : ∀ items, layout ≠ .array items) (hnested : ∀ type members, layout ≠ .nested type members) :
    layout.Shallow depth := by
  intro inner innerDepth hlies
  cases hlies with
  | here => exact hdepth
  | item => exact absurd rfl (harray _)
  | member => exact absurd rfl (hnested _ _)

end ElementLayout

namespace ElementLayout

/-! ### Values of layouts -/

theorem itemValues_eq (position : Nat) (items : List ElementLayout) :
    itemValues pool position items
      = inRow toBytes (fun position item => [item.value pool position]) position items := by
  induction items generalizing position with
  | nil => rfl
  | cons item items ih => rw [itemValues, ih, inRow, List.singleton_append]

def memberValue (pool : ConstantPool) (position : Nat) (member : UInt16 × ElementLayout) :
    String × ElementValue StringSite :=
  (pool.nameAt member.1, member.2.value pool (position + 2))

theorem memberValues_eq (position : Nat) (members : List (UInt16 × ElementLayout)) :
    memberValues pool position members
      = inRow memberToBytes (fun position member => [memberValue pool position member]) position members := by
  induction members generalizing position with
  | nil => rfl
  | cons member members ih =>
    rw [memberValues, ih, inRow, memberToBytes, List.length_append, length_bytes16, Nat.add_assoc,
      List.singleton_append, memberValue]

/-! ### Sites of values -/

mutual

theorem sites_value (position : Nat) :
    ∀ layout : ElementLayout, (layout.value pool position).sites = (layout.slots position).filterMap pool.siteAt?
  | number .. | enumConstant .. | classRef _ => rfl
  | string text => by
    rw [value, slots, filterMap_singleton, ConstantPool.siteAt?, ConstantPool.shownText?_utf8]
    cases pool.textAt? text <;> rfl
  | array items => by rw [value, ElementValue.sites, slots, sites_itemValues]
  | nested type members => by rw [value, ElementValue.sites, slots, sites_memberValues]

theorem sites_itemValues (position : Nat) : ∀ items : List ElementLayout,
    ElementValue.itemSites (itemValues pool position items) = (itemsSlots position items).filterMap pool.siteAt?
  | [] => rfl
  | item :: items => by
    rw [itemValues, ElementValue.itemSites, itemsSlots, List.filterMap_append, sites_value, sites_itemValues]

theorem sites_memberValues (position : Nat) : ∀ members : List (UInt16 × ElementLayout),
    ElementValue.memberSites (memberValues pool position members)
      = (membersSlots position members).filterMap pool.siteAt?
  | [] => rfl
  | (name, layout) :: members => by
    rw [memberValues, ElementValue.memberSites, membersSlots, List.filterMap_append, sites_value, sites_memberValues]

end

/-- Whether a slot is the operand of a string value within some bytes that begin at a position. -/
def SpellsString (position : Nat) (bytes : List UInt8) (slot : Slot) : Prop :=
  slot.kind = .utf8 ∧ ∃ before after, bytes = before ++ (tagByte 's' :: (bytes16 slot.index ++ after))
    ∧ slot.position = position + before.length + 1

theorem SpellsString.append_right {position : Nat} {bytes : List UInt8} {slot : Slot}
    (hspells : SpellsString position bytes slot)
    (rest : List UInt8) : SpellsString position (bytes ++ rest) slot := by
  obtain ⟨hkind, before, after, rfl, hposition⟩ := hspells
  exact ⟨hkind, before, after ++ rest, by simp, hposition⟩

theorem SpellsString.append_left {position : Nat} {bytes : List UInt8} {slot : Slot} (front : List UInt8)
    (hspells : SpellsString (position + front.length) bytes slot) : SpellsString position (front ++ bytes) slot := by
  obtain ⟨hkind, before, after, rfl, hposition⟩ := hspells
  refine ⟨hkind, front ++ before, after, by simp, ?_⟩
  rw [hposition, List.length_append, Nat.add_assoc position]

mutual

theorem slots_spelled (position : Nat) :
    ∀ (layout : ElementLayout), ∀ slot ∈ layout.slots position, SpellsString position layout.toBytes slot
  | number .. | enumConstant .. | classRef _ => nofun
  | string text => by
    intro slot hslot
    obtain rfl := List.mem_singleton.mp hslot
    exact ⟨rfl, [], [], by rw [toBytes]; simp, rfl⟩
  | array items => by
    intro slot hslot
    rw [toBytes]
    exact (itemsSlots_spelled (position + 3) items slot hslot).append_left (tagByte '[' :: countBytes items)
  | nested type members => by
    intro slot hslot
    rw [toBytes]
    exact (membersSlots_spelled (position + 5) members slot hslot).append_left
      (tagByte '@' :: bytes16 type ++ countBytes members)

theorem itemsSlots_spelled (position : Nat) :
    ∀ (items : List ElementLayout), ∀ slot ∈ itemsSlots position items, SpellsString position (itemsToBytes items) slot
  | [] => nofun
  | item :: items => by
    intro slot hslot
    rw [itemsToBytes]
    rcases List.mem_append.mp hslot with hfirst | hlater
    · exact (slots_spelled position item slot hfirst).append_right _
    · exact (itemsSlots_spelled _ items slot hlater).append_left _

theorem membersSlots_spelled (position : Nat) :
    ∀ (members : List (UInt16 × ElementLayout)), ∀ slot ∈ membersSlots position members,
      SpellsString position (membersToBytes members) slot
  | [] => nofun
  | (name, layout) :: members => by
    intro slot hslot
    rw [membersToBytes]
    rcases List.mem_append.mp hslot with hfirst | hlater
    · exact ((slots_spelled (position + 2) layout slot hfirst).append_left (bytes16 name)).append_right _
    · refine SpellsString.append_left _ ?_
      rw [List.length_append, length_bytes16, ← Nat.add_assoc]
      exact membersSlots_spelled _ members slot hlater

end

theorem SpellsString.of_site {position : Nat} {bytes : List UInt8} {slots : List Slot} {site : StringSite}
    (hslots : ∀ slot ∈ slots, SpellsString position bytes slot) (hsite : site ∈ slots.filterMap pool.siteAt?) :
    SpellsString position bytes site.slot ∧ pool.textAt? site.slot.index = some site.stored := by
  obtain ⟨slot, hslot, hmade⟩ := List.mem_filterMap.mp hsite
  have hspells := hslots slot hslot
  obtain ⟨text, htext, rfl⟩ := Option.map_eq_some_iff.mp hmade
  rw [hspells.1, ConstantPool.shownText?_utf8] at htext
  exact ⟨hspells, htext⟩

/-- The sites of a value are at the operands of the string values in it. -/
theorem site_spelled {layout : ElementLayout} {position : Nat} {site : StringSite}
    (hsite : site ∈ (layout.value pool position).sites) :
    SpellsString position layout.toBytes site.slot ∧ pool.textAt? site.slot.index = some site.stored := by
  rw [sites_value] at hsite
  exact SpellsString.of_site (slots_spelled position layout) hsite

end ElementLayout

theorem AnnotationLayout.site_spelled {layout : AnnotationLayout} {position : Nat} {site : StringSite}
    (hsite : site ∈ (layout.use pool position).sites) :
    ElementLayout.SpellsString position layout.toBytes site.slot ∧ pool.textAt? site.slot.index = some site.stored := by
  have hsites : (layout.use pool position).sites = (layout.slots position).filterMap pool.siteAt? :=
    ElementLayout.sites_memberValues (position + 4) layout.members
  rw [hsites] at hsite
  exact ElementLayout.SpellsString.of_site
    (fun slot hslot => (ElementLayout.membersSlots_spelled _ _ slot hslot).append_left _) hsite

end Retoken
