import Retoken.ClassFile.Cursor

/-!
# Method code

The code of a method is a row of instructions without gaps. Only the instructions that name a constant matter here, but the length of every other one has to be known to find them. The two switch instructions are padded so that their tables begin at a multiple of four from the start of the code.
-/

namespace Retoken.Bytecode

inductive Operation where
  /-- Loads the constant at `index`, which is written at `position` in the file. -/
  | load (opcode : UInt8) (index : UInt16) (position : Nat)
  | invokeDynamic (index : UInt16)
  | other (opcode : UInt8)
deriving DecidableEq, Repr

/-- An operation and its offset from the start of the code. -/
structure Located where
  offset : Nat
  operation : Operation
deriving DecidableEq, Repr

/-- The short load instruction, whose constant is named by one byte. -/
def narrowLoad : UInt8 := 0x12

/-- How many bytes follow an opcode that always has as many. -/
def operandLength? (opcode : Nat) : Option Nat :=
  if opcode ≤ 0x0F then some 0
  else if opcode = 0x10 then some 1
  else if opcode = 0x11 then some 2
  else if opcode ≤ 0x14 then none
  else if opcode ≤ 0x19 then some 1
  else if opcode ≤ 0x35 then some 0
  else if opcode ≤ 0x3A then some 1
  else if opcode ≤ 0x83 then some 0
  else if opcode = 0x84 then some 2
  else if opcode ≤ 0x98 then some 0
  else if opcode ≤ 0xA8 then some 2
  else if opcode = 0xA9 then some 1
  else if opcode ≤ 0xAB then none
  else if opcode ≤ 0xB1 then some 0
  else if opcode ≤ 0xB8 then some 2
  else if opcode = 0xB9 then some 4
  else if opcode = 0xBA then none
  else if opcode = 0xBB then some 2
  else if opcode = 0xBC then some 1
  else if opcode = 0xBD then some 2
  else if opcode ≤ 0xBF then some 0
  else if opcode ≤ 0xC1 then some 2
  else if opcode ≤ 0xC3 then some 0
  else if opcode = 0xC4 then none
  else if opcode = 0xC5 then some 3
  else if opcode ≤ 0xC7 then some 2
  else if opcode ≤ 0xC9 then some 4
  else none

/-- How many bytes follow the two opcodes of an instruction with wide operands. -/
def wideOperandLength? (opcode : Nat) : Option Nat :=
  if opcode = 0x84 then some 4
  else if (0x15 ≤ opcode ∧ opcode ≤ 0x19) ∨ (0x36 ≤ opcode ∧ opcode ≤ 0x3A) ∨ opcode = 0xA9 then
    some 2
  else none

/-- The padding after the opcode of a switch at `offset`. -/
def switchPadding (offset : Nat) : Nat :=
  (4 - (offset + 1) % 4) % 4

/-- The operands of a switch over a range of values. -/
def skipTableSwitch (offset : Nat) : Reader Unit := do
  Reader.skip (switchPadding offset)
  Reader.skip 4
  let low := (← Reader.u32).toInt32.toInt
  let high := (← Reader.u32).toInt32.toInt
  if high < low then Reader.fail (.switchBoundsReversed offset)
  Reader.skip ((high - low + 1).toNat * 4)

/-- The operands of a switch over listed values. -/
def skipLookupSwitch (offset : Nat) : Reader Unit := do
  Reader.skip (switchPadding offset)
  Reader.skip 4
  let pairs := (← Reader.u32).toInt32.toInt
  if pairs < 0 then Reader.fail (.negativePairCount offset)
  Reader.skip (pairs.toNat * 8)

def skipWide (offset : Nat) : Reader Unit := do
  let modified ← Reader.u8
  match wideOperandLength? modified.toNat with
  | some length => Reader.skip length
  | none => Reader.fail (.wideModifies modified offset)

/-- What follows an opcode. -/
def readOperands (offset : Nat) (opcode : UInt8) : Reader Located := do
  match opcode.toNat with
  | 0x12 =>
    let position ← Reader.position
    return ⟨offset, .load opcode (← Reader.u8).toUInt16 position⟩
  | 0x13 | 0x14 =>
    let position ← Reader.position
    return ⟨offset, .load opcode (← Reader.u16) position⟩
  | 0xBA =>
    let index ← Reader.u16
    if (← Reader.u16) != 0 then Reader.fail (.nonzeroPadding offset)
    return ⟨offset, .invokeDynamic index⟩
  | 0xAA =>
    skipTableSwitch offset
    return ⟨offset, .other opcode⟩
  | 0xAB =>
    skipLookupSwitch offset
    return ⟨offset, .other opcode⟩
  | 0xC4 =>
    skipWide offset
    return ⟨offset, .other opcode⟩
  | fixed =>
    match operandLength? fixed with
    | some length =>
      Reader.skip length
      return ⟨offset, .other opcode⟩
    | none => Reader.fail (.unknownOpcode opcode offset)

/-- One instruction of a code array that begins at `start`. -/
def readOne (start : Nat) : Reader Located := do
  let offset := (← Reader.position) - start
  readOperands offset (← Reader.u8)

/-- All instructions of a code array. -/
def read (code : Cursor) : Except ClassError (List Located) := do
  return (← Reader.untilEnd (readOne code.position) code).1

end Retoken.Bytecode
