import Retoken.ClassFile.Cursor
import Retoken.ClassFile.Loading

/-!
# Reading annotations

Annotation values nest, through arrays and through annotations that are values themselves. The depth of a value is 1 for a member of an annotation on a declaration and 0 for the default of an annotation method; an array adds 1 for its items, a nested annotation adds 2 for its members. A value deeper than `ElementValue.maxDepth` is refused, so reading is a recursion on the levels that are left.
-/

namespace Retoken

open Reader

namespace ElementValue

def maxDepth : Nat := 256

/-- The number that a value with the given tag takes from a constant, if the two agree. -/
def number? (tag : Char) : Constant → Option Number
  | .integer value => if tag ∈ ['B', 'C', 'I', 'S', 'Z'] then some (.integer value) else none
  | .float bits => if tag = 'F' then some (.float bits) else none
  | .long value => if tag = 'J' then some (.long value) else none
  | .double bits => if tag = 'D' then some (.double bits) else none
  | _ => none

def readNumber (pool : ConstantPool) (tag : UInt8) : Reader (ElementValue StringSite) := do
  let index ← u16
  match number? (Char.ofNat tag.toNat) (← pool.get index) with
  | some value => return .number (Char.ofNat tag.toNat) value
  | none => fail (.elementMismatch tag index)

def readString (pool : ConstantPool) : Reader (ElementValue StringSite) := do
  let position ← Reader.position
  let index ← u16
  match StringSite.ofBytes? (← pool.utf8Bytes index) ⟨.utf8, position, index⟩ with
  | some site => return .string site
  | none => return .nonText

/-- A member of an annotation: its name and its value. -/
def readMember (pool : ConstantPool) (value : Reader (ElementValue StringSite)) :
    Reader (String × ElementValue StringSite) := do
  let name ← pool.text (← u16)
  return (name, ← value)

/-- One value, given how to read the items of an array and the member values of an annotation. -/
def readWith (pool : ConstantPool) (item memberValue : Reader (ElementValue StringSite)) :
    Reader (ElementValue StringSite) := do
  let tag ← u8
  match Char.ofNat tag.toNat with
  | 'B' | 'C' | 'D' | 'F' | 'I' | 'J' | 'S' | 'Z' => readNumber pool tag
  | 's' => readString pool
  | 'e' =>
    let type ← pool.text (← u16)
    return .enumConstant type (← pool.text (← u16))
  | 'c' => return .classRef (← pool.text (← u16))
  | '@' =>
    let type ← pool.text (← u16)
    return .nested type (← counted (readMember pool memberValue))
  | '[' => return .array (← counted item)
  | _ => throw (.unsupportedElement tag)

/-- One value with the given number of levels left, its own included. -/
def readLevels (pool : ConstantPool) : Nat → Reader (ElementValue StringSite)
  | 0 => fail (.elementTooDeep maxDepth)
  | 1 => readWith pool (fail (.elementTooDeep maxDepth)) (fail (.elementTooDeep maxDepth))
  | levels + 2 => readWith pool (readLevels pool (levels + 1)) (readLevels pool levels)

/-- One value at the given depth. -/
def read (pool : ConstantPool) (depth : Nat) : Reader (ElementValue StringSite) :=
  readLevels pool (maxDepth + 1 - depth)

end ElementValue

namespace AnnotationUse

/-- An annotation on a declaration. -/
def read (pool : ConstantPool) : Reader (AnnotationUse StringSite) := do
  let type ← pool.text (← u16)
  return ⟨type, ← counted (ElementValue.readMember pool (ElementValue.read pool 1))⟩

/-- The annotations on one declaration. -/
def readAll (pool : ConstantPool) : Reader (List (AnnotationUse StringSite)) :=
  counted (read pool)

/-- The annotations on each parameter of a method. -/
def readPerParameter (pool : ConstantPool) : Reader (List (List (AnnotationUse StringSite))) := do
  times (readAll pool) (← u8).toNat

end AnnotationUse

end Retoken
