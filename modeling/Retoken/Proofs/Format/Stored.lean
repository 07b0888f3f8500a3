import Retoken.Proofs.Format.Nesting

/-!
# Operands stand where locations say

The positions of locations are counted from the sizes of the layouts in front, and here they are compared with the bytes: at the position of each location stands the operand with its index. The proof goes from the whole file down to its parts, each of which is known to stand somewhere in the file. Only the short load instruction names its constant by one byte.
-/

namespace Retoken

open BigEndian

def StandsAt (file : List UInt8) (position : Nat) (bytes : List UInt8) : Prop :=
  bytes <+: file.drop position

namespace StandsAt

variable {file first second bytes : List UInt8} {position n : Nat} {byte : UInt8}

theorem whole (bytes : List UInt8) : StandsAt bytes 0 bytes :=
  List.prefix_rfl

theorem left (hstands : StandsAt file position (first ++ second)) : StandsAt file position first :=
  (List.prefix_append first second).trans hstands

theorem right (hstands : StandsAt file position (first ++ second)) (hlength : first.length = n) :
    StandsAt file (position + n) second := by
  obtain ⟨rest, hrest⟩ := hstands
  refine ⟨rest, ?_⟩
  rw [← List.drop_drop, ← hrest, List.append_assoc, ← hlength, List.drop_left]

theorem head (hstands : StandsAt file position (byte :: bytes)) : file[position]? = some byte := by
  obtain ⟨rest, hrest⟩ := hstands
  rw [← List.head?_drop, ← hrest]
  rfl

theorem tail (hstands : StandsAt file position (byte :: bytes)) : StandsAt file (position + 1) bytes := by
  have happended : StandsAt file position ([byte] ++ bytes) := hstands
  exact happended.right rfl

theorem counted {β : Type} {toBytes : β → List UInt8} {layouts : List β}
    (hstands : StandsAt file position (countedToBytes toBytes layouts)) :
    StandsAt file (position + 2) (layouts.flatMap toBytes) :=
  right hstands (length_bytes16 _)

end StandsAt

variable {file : List UInt8} {position start : Nat} {pool : ConstantPool}

/-- What holds of the contents of each layout where it stands holds of the contents of all. -/
theorem forall_inRow {β γ : Type} {toBytes : β → List UInt8} {contents : Nat → β → List γ} {layouts : List β}
    {property : γ → Prop} (hstands : StandsAt file position (layouts.flatMap toBytes))
    (hcontents : ∀ layout ∈ layouts, ∀ position, StandsAt file position (toBytes layout) →
      ∀ content ∈ contents position layout, property content) :
    ∀ content ∈ inRow toBytes contents position layouts, property content := by
  induction layouts generalizing position with
  | nil => exact fun _ hmem => absurd hmem List.not_mem_nil
  | cons layout layouts ih =>
    rw [List.flatMap_cons] at hstands
    intro content hmem
    rcases List.mem_append.mp hmem with hhere | hlater
    · exact hcontents layout List.mem_cons_self position hstands.left content hhere
    · exact ih (hstands.right rfl) (fun other hother => hcontents other (List.mem_cons_of_mem _ hother)) content hlater

def Slot.operand (slot : Slot) : List UInt8 :=
  match slot.kind with
  | .narrowString => [UInt8.ofNat slot.index.toNat]
  | .wideString | .utf8 => bytes16 slot.index

def Slot.WideIn (file : List UInt8) (slot : Slot) : Prop :=
  StandsAt file slot.position slot.operand ∧ slot.kind ≠ .narrowString

/-- The index of a location is written in the file where its slot says. With one byte it is the operand of a short load instruction. -/
structure LocationStored (file : List UInt8) (location : Option Place × Slot) : Prop where
  operand : StandsAt file location.2.position location.2.operand
  narrow : location.2.kind = .narrowString → location.2.index.toNat ≤ 0xFF
    ∧ file[location.2.position - 1]? = some Bytecode.narrowLoad
    ∧ ∃ method offset, location.1 = some (.load method offset)

theorem LocationStored.of_wide {place? : Option Place} {slot : Slot} (hwide : slot.WideIn file) :
    LocationStored file (place?, slot) :=
  ⟨hwide.1, fun hnarrow => absurd hnarrow hwide.2⟩

theorem ElementLayout.SpellsString.wideIn {bytes : List UInt8} {slot : Slot}
    (hspells : SpellsString position bytes slot) (hstands : StandsAt file position bytes) : slot.WideIn file := by
  obtain ⟨hkind, before, after, rfl, hposition⟩ := hspells
  have htagged := hstands.right rfl
  refine ⟨?_, by rw [hkind]; nofun⟩
  rw [hposition, Slot.operand, hkind]
  exact htagged.tail.left

theorem AnnotationLayout.slots_wide (use : AnnotationLayout) (hstands : StandsAt file position use.toBytes) :
    ∀ slot ∈ use.slots position, slot.WideIn file := by
  intro slot hslot
  have hspells := ElementLayout.membersSlots_spelled (position + 4) use.members slot hslot
  exact hspells.wideIn (hstands.right (by rw [List.length_append, length_bytes16,
    ElementLayout.countBytes, length_bytes16]))

namespace AttributeContent

theorem slots_wide (content : AttributeContent) (hstands : StandsAt file position content.toBytes) :
    ∀ slots ∈ content.slots position, ∀ slot ∈ slots, slot.WideIn file := by
  cases content with
  | constantValue index =>
    intro slots hslots slot hslot
    obtain rfl := List.mem_singleton.mp hslots
    obtain rfl := List.mem_singleton.mp hslot
    exact ⟨hstands, nofun⟩
  | annotations uses =>
    refine forall_inRow hstands.counted fun use _ position hstands slots hslots => ?_
    obtain rfl := List.mem_singleton.mp hslots
    exact use.slots_wide hstands
  | parameterAnnotations parameters =>
    refine forall_inRow hstands.tail fun uses _ position hstands slots hslots => ?_
    obtain rfl := List.mem_singleton.mp hslots
    exact forall_inRow hstands.counted fun use _ position hstands => use.slots_wide hstands
  | annotationDefault value =>
    intro slots hslots slot hslot
    obtain rfl := List.mem_singleton.mp hslots
    exact (ElementLayout.slots_spelled position value slot hslot).wideIn hstands
  | code | bootstrapMethods | other => nofun

theorem entries_wide (content : AttributeContent) (hstands : StandsAt file position content.toBytes) :
    ∀ entry ∈ content.entries pool position, ∀ slot ∈ entry.2, slot.WideIn file := by
  cases content with
  | bootstrapMethods methods =>
    refine forall_inRow hstands.counted fun method _ position hstands entry hentry => ?_
    obtain rfl := List.mem_singleton.mp hentry
    refine forall_inRow (hstands.right (length_bytes16 _)).counted fun index _ position hstands slot hslot => ?_
    obtain rfl := List.mem_singleton.mp hslot
    exact ⟨hstands, nofun⟩
  | _ => nofun

end AttributeContent

namespace AttributeLayout

variable {name : String} {attributes : List AttributeLayout}

theorem last?_stands {body : Nat} {content : AttributeContent}
    (hlast : last? pool name position attributes = some (body, content))
    (hstands : StandsAt file position (attributes.flatMap toBytes)) :
    StandsAt file body content.toBytes ∧ ∃ attr ∈ attributes, attr.content = content := by
  induction attributes generalizing position with
  | nil => cases hlast
  | cons attr attributes ih =>
    rw [List.flatMap_cons] at hstands
    rw [last?] at hlast
    cases hlater : last? pool name (position + attr.toBytes.length) attributes with
    | some later =>
      rw [hlater] at hlast
      cases hlast
      obtain ⟨hbody, other, hother, hcontent⟩ := ih hlater (hstands.right rfl)
      exact ⟨hbody, other, List.mem_cons_of_mem _ hother, hcontent⟩
    | none =>
      rw [hlater] at hlast
      simp only [Option.none_or] at hlast
      split at hlast
      case isTrue =>
        cases hlast
        have hbody : StandsAt file (position + 2 + 4) attr.content.toBytes :=
          (hstands.left.right (length_bytes16 _)).right rfl
        exact ⟨hbody, attr, List.mem_cons_self, rfl⟩
      case isFalse => cases hlast

theorem forall_inLast {γ : Type} {contents : Nat → AttributeContent → List γ} {property : γ → Prop}
    (hstands : StandsAt file position (attributes.flatMap toBytes))
    (hcontents : ∀ attr ∈ attributes, ∀ body, StandsAt file body attr.content.toBytes →
      ∀ content ∈ contents body attr.content, property content) :
    ∀ content ∈ inLast pool name contents position attributes, property content := by
  intro content hmem
  rw [inLast] at hmem
  cases hlast : last? pool name position attributes with
  | none =>
    rw [hlast] at hmem
    cases hmem
  | some found =>
    rw [hlast] at hmem
    obtain ⟨hbody, attr, hattr, hcontent⟩ := last?_stands hlast hstands
    rw [← hcontent] at hbody
    refine hcontents attr hattr found.1 hbody content ?_
    rw [hcontent]
    exact hmem

end AttributeLayout

def EntriesWide (file : List UInt8) (entries : List BootstrapEntry) : Prop :=
  ∀ entry ∈ entries, ∀ slot ∈ entry.2, slot.WideIn file

variable {entries : List BootstrapEntry}

theorem InstructionLayout.locations_stored {layout : InstructionLayout} {method : MethodLabel} {offset : Nat}
    (hentries : EntriesWide file entries) (hformed : layout.WellFormed offset)
    (hstands : StandsAt file position layout.toBytes) :
    ∀ location ∈ layout.locations pool entries method start position, LocationStored file location := by
  cases layout with
  | load opcode index =>
    intro location hlocation
    obtain rfl := List.mem_singleton.mp hlocation
    by_cases hnarrow : opcode = Bytecode.narrowLoad
    · simp only [if_pos hnarrow]
      rw [toBytes, if_pos hnarrow] at hstands
      have hopcode := hstands.head
      rw [hnarrow] at hopcode
      have hindex : index.toNat ≤ 0xFF := by
        rcases hformed with ⟨-, hindex⟩ | hwide | hwide
        · exact hindex
        all_goals
          rw [hnarrow] at hwide
          cases hwide
      exact ⟨hstands.tail, fun _ => ⟨hindex, hopcode, _, _, rfl⟩⟩
    · simp only [if_neg hnarrow]
      rw [toBytes, if_neg hnarrow] at hstands
      exact .of_wide ⟨hstands.tail, nofun⟩
  | invokeDynamic index =>
    intro location hlocation
    rw [locations] at hlocation
    split at hlocation
    case h_1 bootstrap _ _ =>
      cases hentry : entries[bootstrap.toNat]? with
      | none =>
        rw [hentry] at hlocation
        cases hlocation
      | some entry =>
        rw [hentry] at hlocation
        obtain ⟨i, hi, rfl⟩ := List.mem_mapIdx.mp hlocation
        exact .of_wide (hentries entry (List.mem_of_getElem? hentry) _ (List.getElem_mem hi))
    case h_2 => cases hlocation
  | other => nofun

theorem exists_wellFormed_of_allInRow {layouts : List InstructionLayout} {offset : Nat}
    (hall : AllInRow InstructionLayout.toBytes InstructionLayout.WellFormed offset layouts) :
    ∀ layout ∈ layouts, ∃ offset, layout.WellFormed offset := by
  induction layouts generalizing offset with
  | nil => exact fun _ hmem => absurd hmem List.not_mem_nil
  | cons layout layouts ih => exact List.forall_mem_cons.mpr ⟨⟨offset, hall.1⟩, ih hall.2⟩

namespace MemberLayout

variable {member : MemberLayout} {kindOf : String → AttributeKind}

theorem attributes_stand (hstands : StandsAt file position member.toBytes) :
    StandsAt file (position + 8) (member.attributes.flatMap AttributeLayout.toBytes) :=
  (((hstands.right (length_bytes16 _)).right (length_bytes16 _)).right (length_bytes16 _)).counted

theorem slots_wide (hstands : StandsAt file position member.toBytes) (name : String) :
    ∀ slots ∈ member.slots pool position name, ∀ slot ∈ slots, slot.WideIn file :=
  AttributeLayout.forall_inLast (attributes_stand hstands) fun attr _ _ hbody => attr.content.slots_wide hbody

theorem flatten_stored (hstands : StandsAt file position member.toBytes) (name : String) {place? : Option Place}
    {slot : Slot} (hslot : slot ∈ (member.slots pool position name).flatten) : LocationStored file (place?, slot) := by
  obtain ⟨slots, hslots, hslot⟩ := List.mem_flatten.mp hslot
  exact .of_wide (slots_wide hstands name slots hslots slot hslot)

theorem fieldLocations_stored (hstands : StandsAt file position member.toBytes) :
    ∀ location ∈ member.fieldLocations pool position, LocationStored file location := by
  intro location hlocation
  rcases List.mem_append.mp hlocation with hconstant | hannotation
  · obtain ⟨slot, hslot, rfl⟩ := List.mem_map.mp hconstant
    exact flatten_stored hstands _ hslot
  · obtain ⟨slot, hslot, rfl⟩ := List.mem_map.mp hannotation
    rcases List.mem_append.mp hslot with hvisible | hinvisible
    · exact flatten_stored hstands _ hvisible
    · exact flatten_stored hstands _ hinvisible

theorem codeLocations_stored (hentries : EntriesWide file entries) (hformed : member.WellFormed pool kindOf)
    (hstands : StandsAt file position member.toBytes) :
    ∀ location ∈ member.codeLocations pool position entries, LocationStored file location := by
  refine AttributeLayout.forall_inLast (attributes_stand hstands) fun attr hattr body hbody => ?_
  have hcontent := (hformed.attributes attr hattr).content
  cases hcase : attr.content with
  | code limits instructions rest =>
    rw [hcase] at hcontent hbody
    obtain ⟨hlimits, -, hall⟩ := hcontent
    have harray : StandsAt file (body + 4 + 4) (instructions.flatMap InstructionLayout.toBytes) :=
      ((hbody.right hlimits).right (length_bytes32 _)).left
    refine forall_inRow harray fun layout hlayout position hstands => ?_
    obtain ⟨offset, hinstruction⟩ := exists_wellFormed_of_allInRow hall layout hlayout
    exact InstructionLayout.locations_stored hentries hinstruction hstands
  | _ => nofun

theorem parameterLocations_stored (hstands : StandsAt file position member.toBytes) (name : String) :
    ∀ location ∈ member.parameterLocations pool position name, LocationStored file location := by
  intro location hlocation
  obtain ⟨marked, hmarked, hlocation⟩ := List.mem_flatten.mp hlocation
  obtain ⟨i, hi, rfl⟩ := List.mem_mapIdx.mp hmarked
  obtain ⟨slot, hslot, rfl⟩ := List.mem_map.mp hlocation
  exact .of_wide (slots_wide hstands name _ (List.getElem_mem hi) slot hslot)

theorem methodLocations_stored (hentries : EntriesWide file entries) (hformed : member.WellFormed pool kindOf)
    (hstands : StandsAt file position member.toBytes) :
    ∀ location ∈ member.methodLocations pool position entries, LocationStored file location := by
  intro location hlocation
  rcases List.mem_append.mp hlocation with hcode | hlocation
  · exact codeLocations_stored hentries hformed hstands location hcode
  rcases List.mem_append.mp hlocation with hannotation | hlocation
  · obtain ⟨slot, hslot, rfl⟩ := List.mem_map.mp hannotation
    rcases List.mem_append.mp hslot with hvisible | hinvisible
    · exact flatten_stored hstands _ hvisible
    · exact flatten_stored hstands _ hinvisible
  rcases List.mem_append.mp hlocation with hvisible | hlocation
  · exact parameterLocations_stored hstands _ location hvisible
  rcases List.mem_append.mp hlocation with hinvisible | hdefault
  · exact parameterLocations_stored hstands _ location hinvisible
  · obtain ⟨slot, hslot, rfl⟩ := List.mem_map.mp hdefault
    exact flatten_stored hstands _ hslot

end MemberLayout

namespace ClassLayout

variable (layout : ClassLayout)

theorem attributes_stand :
    StandsAt layout.toBytes layout.attributesStart (layout.attributes.flatMap AttributeLayout.toBytes) := by
  have hfields := (StandsAt.whole layout.toBytes).right rfl
  have hattributes := ((hfields.right rfl).right rfl).counted
  rwa [Nat.zero_add] at hattributes

theorem entries_wide : EntriesWide layout.toBytes layout.entries :=
  AttributeLayout.forall_inLast layout.attributes_stand fun attr _ _ hbody => attr.content.entries_wide hbody

theorem flatten_stored (name : String) {place? : Option Place} {slot : Slot}
    (hslot : slot ∈ (layout.slots name).flatten) :
    LocationStored layout.toBytes (place?, slot) := by
  obtain ⟨slots, hslots, hslot⟩ := List.mem_flatten.mp hslot
  have hwide : ∀ slots ∈ layout.slots name, ∀ slot ∈ slots, slot.WideIn layout.toBytes :=
    AttributeLayout.forall_inLast layout.attributes_stand fun attr _ _ hbody => attr.content.slots_wide hbody
  exact .of_wide (hwide slots hslots slot hslot)

theorem locations_stored (hformed : layout.WellFormed) :
    ∀ location ∈ layout.locations, LocationStored layout.toBytes location := by
  intro location hlocation
  have hrest := (StandsAt.whole layout.toBytes).right rfl
  have hfields : StandsAt layout.toBytes layout.fieldsStart (layout.fields.flatMap MemberLayout.toBytes) := by
    have hcounted := hrest.left.counted
    rwa [Nat.zero_add] at hcounted
  have hmethods : StandsAt layout.toBytes layout.methodsStart (layout.methods.flatMap MemberLayout.toBytes) := by
    have hcounted := (hrest.right rfl).left.counted
    rwa [Nat.zero_add] at hcounted
  rcases List.mem_append.mp hlocation with hannotation | hmember
  · obtain ⟨slot, hslot, rfl⟩ := List.mem_map.mp hannotation
    rcases List.mem_append.mp hslot with hvisible | hinvisible
    · exact layout.flatten_stored _ hvisible
    · exact layout.flatten_stored _ hinvisible
  · rcases List.mem_append.mp hmember with hmethod | hfield
    · refine forall_inRow hmethods (fun method hmethod position hstands => ?_) location hmethod
      exact MemberLayout.methodLocations_stored layout.entries_wide (hformed.methods method hmethod) hstands
    · refine forall_inRow hfields (fun field _ position hstands => ?_) location hfield
      exact MemberLayout.fieldLocations_stored hstands

end ClassLayout

end Retoken
