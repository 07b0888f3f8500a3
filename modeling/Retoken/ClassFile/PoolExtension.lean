import Retoken.ClassFile.ConstantPool

/-!
# Extending a pool

New texts are put behind the constants of a pool, so that no existing index changes its meaning. A text that the pool or the extension already holds is used again; a string constant is used again only if the extension holds it, since those of the pool may be made to name other texts.
-/

namespace Retoken

/-- A pool and the constants put behind it. -/
structure PoolExtension where
  base : ConstantPool
  added : Array Constant := #[]

/-- A step that may extend the pool. -/
abbrev Extending (α : Type) := StateT PoolExtension (Except ClassError) α

namespace PoolExtension

/-- The greatest number of slots whose count fits two bytes. -/
def maxSlots : Nat := 65535

/-- The longest text whose length fits two bytes. -/
def maxTextSize : Nat := 65535

def slotCount (extension : PoolExtension) : Nat :=
  extension.base.slots.size + extension.added.size

/-- The pool with everything that was added. -/
def pool (extension : PoolExtension) : ConstantPool :=
  ⟨extension.base.slots ++ extension.added.map some⟩

/-- Puts a constant into the next slot. -/
def allocate (constant : Constant) : Extending UInt16 := do
  let extension ← get
  if maxSlots ≤ extension.slotCount then throw .poolOverflow
  set { extension with added := extension.added.push constant }
  return UInt16.ofNat extension.slotCount

/-- The slot of an added constant, which is added now if it is not there yet. -/
def intern (constant : Constant) : Extending UInt16 := do
  let extension ← get
  match extension.added.findIdx? (· == constant) with
  | some i => return UInt16.ofNat (extension.base.slots.size + i)
  | none => allocate constant

/-- A text constant with the given text. -/
def utf8 (text : String) : Extending UInt16 := do
  let bytes := Text.ModifiedUtf8.ofString text
  if maxTextSize < bytes.length then throw (.stringTooLong bytes.length)
  match (← get).base.findUtf8? bytes with
  | some i => return UInt16.ofNat i
  | none => intern (.utf8 bytes)

/-- An added string constant that names the given text constant. -/
def stringNaming (text : UInt16) : Extending UInt16 :=
  intern (.string text)

/-- An added string constant with the given text. -/
def string (text : String) : Extending UInt16 := do
  stringNaming (← utf8 text)

/-- Makes the string constant at an index of the pool name another text constant. -/
def repoint (index text : UInt16) : Extending Unit :=
  modify fun extension =>
    { extension with
      base := ⟨extension.base.slots.setIfInBounds index.toNat (some (.string text))⟩ }

end PoolExtension

end Retoken
