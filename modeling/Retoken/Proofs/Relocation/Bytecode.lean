import Retoken.Proofs.Relocation.Stages

/-!
# Method code in a relocated file

Code is made of the same instructions at the same offsets as before. Only a load instruction may name another index, the one that its slot holds now. The padding of a switch is counted from the start of the code, which moves together with the instruction, so tables are found where they were.
-/

namespace Retoken

open Reader

namespace Bytecode

variable {pool : ConstantPool} {start stop : Cursor} {offset : Nat}

def loadSlot (opcode : UInt8) (index : UInt16) (position : Nat) : Slot :=
  ⟨if opcode = narrowLoad then .narrowString else .wideString, position, index⟩

def Located.slots (located : Located) : List Slot :=
  match located.operation with
  | .load opcode index position => [loadSlot opcode index position]
  | .invokeDynamic _ | .other _ => []

theorem loadSlot_namesString (opcode : UInt8) (index : UInt16) (position : Nat) :
    (loadSlot opcode index position).kind.namesString = true := by
  rw [loadSlot]
  split <;> rfl

end Bytecode

def Relocation.located (relocation : Relocation) (located : Bytecode.Located) : Bytecode.Located :=
  match located.operation with
  | .load opcode index position =>
    ⟨located.offset, .load opcode (relocation.index (Bytecode.loadSlot opcode index position))
      (position + relocation.shift)⟩
  | .invokeDynamic _ | .other _ => located

namespace Bytecode

variable {pool : ConstantPool} {start stop : Cursor} {offset : Nat}

theorem skipTableSwitch_carried (hread : skipTableSwitch offset start = .ok ((), stop)) :
    Carried pool start stop [] fun relocation =>
      skipTableSwitch offset (relocation.cursor start) = .ok ((), relocation.cursor stop) := by
  obtain ⟨afterPadding, afterDefault, low, afterLow, high, afterHigh, hpadding, hdefault, hlow,
      hhigh, hbounds, htable⟩ :=
    skipTableSwitch_eq_ok.mp hread
  refine ((skip_carried hpadding).and ((skip_carried hdefault).and ((u32_carried hlow).and
    ((u32_carried hhigh).and (skip_carried htable))))).imp fun relocation _ hrun => ?_
  obtain ⟨hpaddingRun, hdefaultRun, hlowRun, hhighRun, htableRun⟩ := hrun
  exact skipTableSwitch_eq_ok.mpr
    ⟨_, _, low, _, high, _, hpaddingRun, hdefaultRun, hlowRun, hhighRun, hbounds, htableRun⟩

theorem skipLookupSwitch_carried (hread : skipLookupSwitch offset start = .ok ((), stop)) :
    Carried pool start stop [] fun relocation =>
      skipLookupSwitch offset (relocation.cursor start) = .ok ((), relocation.cursor stop) := by
  obtain ⟨afterPadding, afterDefault, pairs, afterPairs, hpadding, hdefault, hpairs, hcount, htable⟩ :=
    skipLookupSwitch_eq_ok.mp hread
  refine ((skip_carried hpadding).and ((skip_carried hdefault).and ((u32_carried hpairs).and
    (skip_carried htable)))).imp fun relocation _ hrun => ?_
  obtain ⟨hpaddingRun, hdefaultRun, hpairsRun, htableRun⟩ := hrun
  exact skipLookupSwitch_eq_ok.mpr ⟨_, _, pairs, _, hpaddingRun, hdefaultRun, hpairsRun, hcount, htableRun⟩

theorem skipWide_carried (hread : skipWide offset start = .ok ((), stop)) :
    Carried pool start stop [] fun relocation =>
      skipWide offset (relocation.cursor start) = .ok ((), relocation.cursor stop) := by
  obtain ⟨modified, afterModified, length, hmodified, hlength, hoperands⟩ := skipWide_eq_ok.mp hread
  refine ((u8_carried hmodified).and (skip_carried hoperands)).imp fun relocation _ hrun => ?_
  obtain ⟨hmodifiedRun, hoperandsRun⟩ := hrun
  exact skipWide_eq_ok.mpr ⟨modified, _, length, hmodifiedRun, hlength, hoperandsRun⟩

theorem readOperands_carried {opcode : UInt8} {located : Located}
    (hread : readOperands offset opcode start = .ok (located, stop)) :
    Carried pool start stop located.slots fun relocation =>
      readOperands offset opcode (relocation.cursor start)
        = .ok (relocation.located located, relocation.cursor stop) := by
  obtain ⟨operation, hoperands, rfl⟩ := exists_operandsRead hread
  cases hoperands with
  | @narrowLoad byte hindex =>
    refine (slot8_carried (loadSlot narrowLoad byte.toUInt16 start.position) hindex rfl rfl rfl).imp
      fun relocation _ hrun => ?_
    obtain ⟨byte', hindexRun, hmoved⟩ := hrun
    rw [OperandsRead.run (.narrowLoad hindexRun), hmoved]
    rfl
  | @wideLoad opcode index hopcode hindex =>
    have hkind : (loadSlot opcode index start.position).kind ≠ .narrowString := by
      rcases hopcode with rfl | rfl <;> exact nofun
    exact (slot16_carried (loadSlot opcode index start.position) hindex hkind rfl rfl).imp fun relocation _ hindexRun =>
      OperandsRead.run (.wideLoad hopcode hindexRun)
  | invokeDynamic hindex hpadding =>
    exact ((u16_carried hindex).and (u16_carried hpadding)).imp fun relocation _ hrun =>
      OperandsRead.run (.invokeDynamic hrun.1 hrun.2)
  | tableSwitch hskip =>
    exact (skipTableSwitch_carried hskip).imp fun relocation _ hrun => OperandsRead.run (.tableSwitch hrun)
  | lookupSwitch hskip =>
    exact (skipLookupSwitch_carried hskip).imp fun relocation _ hrun => OperandsRead.run (.lookupSwitch hrun)
  | wide hskip =>
    exact (skipWide_carried hskip).imp fun relocation _ hrun => OperandsRead.run (.wide hrun)
  | fixed hlength hskip =>
    exact (skip_carried hskip).imp fun relocation _ hrun => OperandsRead.run (.fixed hlength hrun)

theorem readOne_carried {origin : Nat} {located : Located}
    (hread : readOne origin start = .ok (located, stop)) :
    Carried pool start stop located.slots fun relocation =>
      readOne (origin + relocation.shift) (relocation.cursor start)
        = .ok (relocation.located located, relocation.cursor stop) := by
  rw [readOne, run_bind run_position] at hread
  obtain ⟨opcode, afterOpcode, hopcode, hread⟩ := bind_eq_ok.mp hread
  refine ((u8_carried hopcode).and (readOperands_carried hread)).imp fun relocation _ hrun => ?_
  obtain ⟨hopcodeRun, hoperandsRun⟩ := hrun
  have hoffset : (relocation.cursor start).position - (origin + relocation.shift)
      = start.position - origin :=
    Nat.add_sub_add_right start.position relocation.shift origin
  rw [readOne, run_bind run_position, hoffset, run_bind hopcodeRun, hoperandsRun]

/-- The code is read up to its end, so all of its bytes are accounted for. -/
theorem read_held {code : Cursor} {located : List Located} (hread : read code = .ok located) :
    Held pool code.position code.finish (located.flatMap Located.slots) fun relocation =>
      read (relocation.cursor code) = .ok (located.map relocation.located) := by
  rw [read, except_bind_eq_ok] at hread
  obtain ⟨⟨items, stop⟩, huntil, hpure⟩ := hread
  obtain rfl : items = located := Except.ok.inj hpure
  obtain ⟨hreaches, hheld⟩ := untilEndAfter_carried
    (fun relocation => readOne (code.position + relocation.shift))
    (fun relocation => relocation.located) readOne_carried huntil
  refine (hheld.widen (Nat.le_refl _) hreaches.le_finish).imp fun relocation _ hrun => ?_
  rw [read, except_bind_eq_ok]
  refine ⟨(items.map relocation.located, relocation.cursor stop), ?_, rfl⟩
  rw [untilEnd, Relocation.length_rest_cursor]
  exact hrun

end Bytecode

end Retoken
