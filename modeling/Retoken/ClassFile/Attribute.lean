import Retoken.ClassFile.Cursor
import Retoken.ClassFile.ConstantPool

/-!
# Attributes

An attribute is a name, a length and as many bytes. Which attributes mean something depends on what they are attached to; the bytes of all others are stepped over.
-/

namespace Retoken

structure Attribute where
  name : String
  body : Cursor

namespace Attribute

def read (pool : ConstantPool) : Reader Attribute := do
  let name ← pool.text (← Reader.u16)
  let length ← Reader.u32
  return ⟨name, ← Reader.slice length.toNat⟩

/-- All attributes of one declaration. -/
def readAll (pool : ConstantPool) : Reader (List Attribute) :=
  Reader.counted (read pool)

/-- Reads all attributes of one declaration, then takes them into account one by one. -/
def collect {α : Type} (pool : ConstantPool) (add : α → Attribute → Except ClassError α) (start : α) :
    Reader α := do
  let attributes ← readAll pool
  (attributes.foldlM add start : Except ClassError α)

/-- Reads the body, which has to be used up. -/
def parse {α : Type} (attr : Attribute) (reader : Reader α) : Except ClassError α := do
  let (value, stop) ← reader attr.body
  if stop.rest.isEmpty then return value
  else
    let start := attr.body.position
    .error (.malformed (.attributeSize attr.name start attr.body.rest.length
      (stop.position - start)))

end Attribute

end Retoken
