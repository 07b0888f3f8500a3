import Retoken.ClassFile.ConstantPool
import Retoken.ClassFile.Cursor

/-!
# Reading a constant pool

A pool is read slot by slot. References may point forward, so they are checked only once all slots are there.
-/

namespace Retoken

/-- One constant. The slot it will take is needed only to report a tag that names no kind of constant. -/
def Constant.read (slot : Nat) : Reader Constant := do
  let tag ← Reader.u8
  match tag.toNat with
  | 1 => return .utf8 (← Reader.take (← Reader.u16).toNat)
  | 3 => return .integer (← Reader.u32).toInt32
  | 4 => return .float (← Reader.u32)
  | 5 => return .long (← Reader.u64).toInt64
  | 6 => return .double (← Reader.u64)
  | 7 => return .classInfo (← Reader.u16)
  | 8 => return .string (← Reader.u16)
  | 9 => return .member .field (← Reader.u16) (← Reader.u16)
  | 10 => return .member .method (← Reader.u16) (← Reader.u16)
  | 11 => return .member .interfaceMethod (← Reader.u16) (← Reader.u16)
  | 12 => return .nameAndType (← Reader.u16) (← Reader.u16)
  | 15 => return .methodHandle (← Reader.u8) (← Reader.u16)
  | 16 => return .methodType (← Reader.u16)
  | 17 => return .dynamic (← Reader.u16) (← Reader.u16)
  | 18 => return .invokeDynamic (← Reader.u16) (← Reader.u16)
  | 19 => return .moduleInfo (← Reader.u16)
  | 20 => return .packageInfo (← Reader.u16)
  | _ => Reader.fail (.unknownConstantTag tag slot)

namespace ConstantPool

/-- Fills the given number of slots after those already filled. -/
def readSlots (slots : Array (Option Constant)) : Nat → Reader (Array (Option Constant))
  | 0 => return slots
  | missing + 1 => do
    let constant ← Constant.read slots.size
    if constant.isWide then
      match missing with
      | 0 => Reader.fail (.wideConstantOverrun slots.size)
      | missing + 1 => readSlots ((slots.push (some constant)).push none) missing
    else readSlots (slots.push (some constant)) missing

/-- The slot count, the constants, and the check that their references hold. -/
def read : Reader ConstantPool := do
  match (← Reader.u16).toNat with
  | 0 => Reader.fail .emptyPool
  | count + 1 =>
    let pool : ConstantPool := ⟨← readSlots #[none] count⟩
    match pool.firstBroken? with
    | some slot => Reader.fail (.brokenReference slot)
    | none => return pool

end ConstantPool

end Retoken
