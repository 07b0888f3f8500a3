import Retoken.Proofs.Declaration.Located
import Retoken.Proofs.Format.Layout
import Retoken.Proofs.Relocation.Completion

/-!
# Code and its layout

A code array that is read is made of instructions that are as long as their opcodes say. The texts that its instructions name are at the slots that the layout lists: one for each load instruction, and for each dynamic call those of the arguments of its bootstrap method.
-/

namespace Retoken

open BigEndian Reader

variable {pool : ConstantPool} {start stop : Cursor} {offset : Nat}

namespace InstructionLayout

open Bytecode

def located (origin position : Nat) : InstructionLayout → Located
  | load opcode index => ⟨position - origin, .load opcode index (position + 1)⟩
  | invokeDynamic index => ⟨position - origin, .invokeDynamic index⟩
  | other opcode _ => ⟨position - origin, .other opcode⟩

theorem toBytes_ne_nil (layout : InstructionLayout) : layout.toBytes ≠ [] := by
  cases layout <;> exact List.cons_ne_nil _ _

end InstructionLayout

namespace Bytecode

theorem skip_iff {n : Nat} :
    skip n start = .ok ((), stop) ↔ ∃ skipped, start.Spells skipped stop ∧ skipped.length = n := by
  rw [skip_eq_ok]
  constructor
  · rintro ⟨skipped, hrest, rfl, hposition⟩
    exact ⟨skipped, ⟨hrest, hposition⟩, rfl⟩
  · rintro ⟨skipped, ⟨hrest, hposition⟩, rfl⟩
    exact ⟨skipped, hrest, rfl, hposition⟩

theorem skipTableSwitch_iff : skipTableSwitch offset start = .ok ((), stop)
    ↔ ∃ operands, start.Spells operands stop ∧ InstructionLayout.TableSwitch offset operands := by
  simp only [skipTableSwitch_eq_ok, skip_iff, u32_eq_ok]
  constructor
  · rintro ⟨_, _, low, _, high, _, ⟨padding, hpadding, hpaddingLength⟩,
      ⟨fallback, hfallback, hfallbackLength⟩, hlow, hhigh, hbounds, table, htable, htableLength⟩
    refine ⟨_, hpadding.append (hfallback.append (Cursor.Spells.append hlow (Cursor.Spells.append hhigh htable))), ?_⟩
    exact ⟨padding, fallback, low, high, table, rfl, hpaddingLength, hfallbackLength, hbounds, htableLength⟩
  · rintro ⟨_, hspells, padding, fallback, low, high, table, rfl, hpaddingLength, hfallbackLength,
      hbounds, htableLength⟩
    obtain ⟨afterPadding, hpadding, hspells⟩ := Cursor.Spells.append_iff.mp hspells
    obtain ⟨afterDefault, hfallback, hspells⟩ := Cursor.Spells.append_iff.mp hspells
    obtain ⟨afterLow, hlow, hspells⟩ := Cursor.Spells.append_iff.mp hspells
    obtain ⟨afterHigh, hhigh, htable⟩ := Cursor.Spells.append_iff.mp hspells
    exact ⟨afterPadding, afterDefault, low, afterLow, high, afterHigh, ⟨padding, hpadding, hpaddingLength⟩,
      ⟨fallback, hfallback, hfallbackLength⟩, hlow, hhigh, hbounds, table, htable, htableLength⟩

theorem skipLookupSwitch_iff : skipLookupSwitch offset start = .ok ((), stop)
    ↔ ∃ operands, start.Spells operands stop ∧ InstructionLayout.LookupSwitch offset operands := by
  simp only [skipLookupSwitch_eq_ok, skip_iff, u32_eq_ok]
  constructor
  · rintro ⟨_, _, pairs, _, ⟨padding, hpadding, hpaddingLength⟩, ⟨fallback, hfallback, hfallbackLength⟩, hpairs, hcount,
      table, htable, htableLength⟩
    refine ⟨_, hpadding.append (hfallback.append (Cursor.Spells.append hpairs htable)), ?_⟩
    exact ⟨padding, fallback, pairs, table, rfl, hpaddingLength, hfallbackLength, hcount, htableLength⟩
  · rintro ⟨_, hspells, padding, fallback, pairs, table, rfl, hpaddingLength, hfallbackLength, hcount, htableLength⟩
    obtain ⟨afterPadding, hpadding, hspells⟩ := Cursor.Spells.append_iff.mp hspells
    obtain ⟨afterDefault, hfallback, hspells⟩ := Cursor.Spells.append_iff.mp hspells
    obtain ⟨afterPairs, hpairs, htable⟩ := Cursor.Spells.append_iff.mp hspells
    exact ⟨afterPadding, afterDefault, pairs, afterPairs, ⟨padding, hpadding, hpaddingLength⟩,
      ⟨fallback, hfallback, hfallbackLength⟩, hpairs, hcount, table, htable, htableLength⟩

theorem skipWide_iff : skipWide offset start = .ok ((), stop)
    ↔ ∃ operands, start.Spells operands stop ∧ ∃ modified rest, operands = modified :: rest
      ∧ wideOperandLength? modified.toNat = some rest.length := by
  simp only [skipWide_eq_ok, skip_iff, Cursor.Spells.u8_iff]
  constructor
  · rintro ⟨modified, _, _, hmodified, hlength, rest, hrest, rfl⟩
    exact ⟨_, hmodified.append hrest, modified, rest, rfl, hlength⟩
  · rintro ⟨_, hspells, modified, rest, rfl, hlength⟩
    obtain ⟨afterModified, hmodified, hrest⟩ := Cursor.Spells.cons_iff.mp hspells
    exact ⟨modified, afterModified, rest.length, hmodified, hlength, rest, hrest, rfl⟩

theorem readOperands_spells {opcode : UInt8} {located : Located} {origin position : Nat}
    (hposition : start.position = position + 1)
    (hread : readOperands (position - origin) opcode start = .ok (located, stop)) :
    ∃ (layout : InstructionLayout) (operands : List UInt8), layout.toBytes = opcode :: operands
      ∧ start.Spells operands stop ∧ located = layout.located origin position
      ∧ layout.WellFormed (position - origin) := by
  obtain ⟨operation, hoperands, rfl⟩ := exists_operandsRead hread
  cases hoperands with
  | @narrowLoad byte hindex =>
    have hnarrow : byte.toUInt16.toNat = byte.toNat := UInt8.toNat_toUInt16 byte
    refine ⟨.load narrowLoad byte.toUInt16, [byte], ?_, Cursor.Spells.u8_iff.mp hindex, ?_, .inl ⟨rfl, ?_⟩⟩
    · rw [InstructionLayout.toBytes, if_pos rfl, hnarrow, UInt8.ofNat_toNat]
    · rw [InstructionLayout.located, hposition]
    · have hlt := byte.toNat_lt
      omega
  | @wideLoad opcode index hopcode hindex =>
    have hwide : opcode ≠ narrowLoad := by
      rcases hopcode with rfl | rfl <;> decide
    refine ⟨.load opcode index, bytes16 index, ?_, u16_eq_ok.mp hindex, ?_, .inr ?_⟩
    · rw [InstructionLayout.toBytes, if_neg hwide]
    · rw [InstructionLayout.located, hposition]
    · exact hopcode.imp (congrArg UInt8.toNat) (congrArg UInt8.toNat)
  | @invokeDynamic index _ hindex hpadding =>
    exact ⟨.invokeDynamic index, _, rfl,
      Cursor.Spells.append (u16_eq_ok.mp hindex) (u16_eq_ok.mp hpadding), rfl, trivial⟩
  | tableSwitch hskip =>
    obtain ⟨operands, hspells, hformed⟩ := skipTableSwitch_iff.mp hskip
    exact ⟨.other 0xAA operands, operands, rfl, hspells, rfl, hformed⟩
  | lookupSwitch hskip =>
    obtain ⟨operands, hspells, hformed⟩ := skipLookupSwitch_iff.mp hskip
    exact ⟨.other 0xAB operands, operands, rfl, hspells, rfl, hformed⟩
  | wide hskip =>
    obtain ⟨operands, hspells, hformed⟩ := skipWide_iff.mp hskip
    exact ⟨.other 0xC4 operands, operands, rfl, hspells, rfl, hformed⟩
  | @fixed opcode _ hlength hskip =>
    obtain ⟨operands, hspells, rfl⟩ := skip_iff.mp hskip
    refine ⟨.other opcode operands, operands, rfl, hspells, rfl, ?_⟩
    rw [InstructionLayout.WellFormed]
    generalize opcode.toNat = kind at hlength
    split
    case h_4 => exact hlength
    all_goals contradiction

/-- One instruction of a code array that begins at `origin`. -/
theorem readOne_undoes (origin : Nat) : Undoes (readOne origin) InstructionLayout.toBytes fun position layout located =>
    located = layout.located origin position ∧ layout.WellFormed (position - origin) := by
  intro start stop located hread
  rw [readOne, run_bind run_position] at hread
  obtain ⟨opcode, afterOpcode, hopcode, hread⟩ := bind_eq_ok.mp hread
  have hopcodeSpelled := Cursor.Spells.u8_iff.mp hopcode
  obtain ⟨layout, operands, hbytes, hspells, hrelated⟩ := readOperands_spells hopcodeSpelled.2 hread
  refine ⟨layout, ?_, hrelated⟩
  rw [hbytes]
  exact hopcodeSpelled.append hspells

/-- The code is read up to its end. -/
theorem read_undoes {code : Cursor} {located : List Located} (hread : read code = .ok located) :
    ∃ layouts, code.rest = layouts.flatMap InstructionLayout.toBytes
      ∧ Row InstructionLayout.toBytes (fun position layout located =>
        located = layout.located code.position position ∧ layout.WellFormed (position - code.position))
        code.position layouts located := by
  rw [read, except_bind_eq_ok] at hread
  obtain ⟨⟨items, stop⟩, huntil, hpure⟩ := hread
  obtain rfl : items = located := Except.ok.inj hpure
  exact (readOne_undoes code.position).untilEnd InstructionLayout.toBytes_ne_nil huntil

end Bytecode

theorem Loadable.sites_ofSlot {slot : Slot} {constant : Loadable StringSite} (hkind : slot.kind.namesString = true)
    (hread : ofSlot pool slot = .ok constant) : constant.sites = (pool.siteAt? slot).toList := by
  obtain ⟨found, hfound, -⟩ := except_bind_eq_ok.mp hread
  have hget := ConstantPool.get_eq_ok.mp hfound
  have hother : (∀ text, found ≠ .string text) → pool.siteAt? slot = none := by
    intro hother
    rw [ConstantPool.siteAt?, ConstantPool.shownText?, if_pos hkind, hget]
    cases found with
    | string text => exact absurd rfl (hother text)
    | _ => rfl
  rw [ofSlot_eq slot hget] at hread
  cases found with
  | string text =>
    obtain ⟨bytes, hbytes, rfl⟩ := except_map_eq_ok.mp hread
    have hsite : pool.siteAt? slot = StringSite.ofBytes? bytes slot := by
      rw [ConstantPool.siteAt?, ConstantPool.shownText?, if_pos hkind, hget]
      simp only [ConstantPool.textAt?, ConstantPool.utf8Bytes_eq_ok.mp hbytes]
      rfl
    rw [hsite]
    cases StringSite.ofBytes? bytes slot <;> rfl
  | classInfo | methodType | methodHandle | dynamic =>
    obtain ⟨_, -, rfl⟩ := except_map_eq_ok.mp hread
    rw [hother (by rintro _ ⟨⟩)]
    rfl
  | integer | float | long | double =>
    cases hread
    rw [hother (by rintro _ ⟨⟩)]
    rfl
  | utf8 | member | nameAndType | invokeDynamic | moduleInfo | packageInfo => cases hread

namespace Instruction

def entryOf (method : BootstrapMethod) : BootstrapEntry :=
  (some method.handle, method.arguments.map (·.slot))

variable {methods : List BootstrapMethod}

theorem sites_arguments {slots : List BootstrapArgument} {arguments : List (Loadable StringSite)}
    (mark : Nat → Option Place)
    (harguments : slots.mapM (fun argument => Loadable.ofSlot pool argument.slot) = .ok arguments) :
    (arguments.mapIdx fun i argument => argument.map (mark i, ·)).flatMap (·.sites)
      = ((slots.map (·.slot)).mapIdx fun i slot => (mark i, slot)).filterMap pool.markedSiteAt? := by
  induction slots generalizing arguments mark with
  | nil =>
    cases harguments
    rfl
  | cons argument slots ih =>
    obtain ⟨constant, rest, hconstant, hrest, rfl⟩ := mapM_cons_eq_ok.mp harguments
    have hsites := Loadable.sites_ofSlot rfl hconstant
    rw [List.mapIdx_cons, List.flatMap_cons, Loadable.sites_map, hsites,
      ih (fun i => mark (i + 1)) hrest, List.map_cons,
      List.mapIdx_cons, List.filterMap_cons, ConstantPool.markedSiteAt?]
    cases pool.siteAt? argument.slot <;> rfl

theorem sites_ofLocated {layout : InstructionLayout} {instruction : Instruction StringSite} (label : MethodLabel)
    {origin position : Nat} (hread : ofLocated pool methods (layout.located origin position) = .ok instruction) :
    (instruction.located label).sites
      = (layout.locations pool (methods.map entryOf) label origin position).filterMap pool.markedSiteAt? := by
  cases layout with
  | load opcode index =>
    obtain ⟨constant, hconstant, rfl⟩ := ofLocated_load_eq_ok.mp hread
    have hsites := Loadable.sites_ofSlot (Bytecode.loadSlot_namesString _ _ _) hconstant
    rw [InstructionLayout.locations, filterMap_singleton, ConstantPool.markedSiteAt?]
    refine (constant.sites_map _).trans ?_
    rw [hsites, Bytecode.loadSlot]
    cases pool.siteAt? ⟨if opcode = Bytecode.narrowLoad then .narrowString else .wideString,
      position + 1, index⟩ <;> rfl
  | invokeDynamic index =>
    obtain ⟨bootstrap, pairIndex, method, name, descriptor, arguments, hget, hmethod, -, harguments, rfl⟩ :=
      ofLocated_invokeDynamic_eq_ok.mp hread
    have hentry : (methods.map entryOf)[bootstrap.toNat]? = some (entryOf method) := by
      rw [List.getElem?_map, hmethod, Option.map_some]
    simp only [InstructionLayout.locations, hget, hentry, Option.map_some, Option.getD_some]
    exact sites_arguments _ harguments
  | other opcode operands =>
    cases hread
    rfl

theorem sites_instructions {layouts : List InstructionLayout} {located : List Bytecode.Located}
    {instructions : List (Instruction StringSite)} (label : MethodLabel) {origin position : Nat}
    {property : Nat → InstructionLayout → Prop}
    (hrow : Row InstructionLayout.toBytes (fun position layout located =>
      located = layout.located origin position ∧ property position layout) position layouts located)
    (hread : located.mapM (ofLocated pool methods) = .ok instructions) :
    instructions.flatMap (fun instruction => (instruction.located label).sites)
      = (inRow InstructionLayout.toBytes (InstructionLayout.locations pool (methods.map entryOf) label origin)
          position layouts).filterMap pool.markedSiteAt? := by
  rw [inRow_filterMap]
  refine (hrow.mapM hread).flatMap_eq ?_
  rintro position layout instruction ⟨_, ⟨rfl, -⟩, hinstruction⟩
  exact sites_ofLocated label hinstruction

end Instruction

end Retoken
