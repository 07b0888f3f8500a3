import Retoken.ClassFile.Declaration
import Retoken.ClassFile.StringSite

/-!
# From pool indices to loadable constants

A load instruction, a field constant and a bootstrap argument each name a constant by index. Here the index is followed through the pool, and a string with readable text becomes a site.
-/

namespace Retoken

/-- The site for the text in these bytes, unless they are no Unicode text. -/
def StringSite.ofBytes? (bytes : List UInt8) (slot : Slot) : Option StringSite :=
  (Text.ModifiedUtf8.toString? bytes).map (StringSite.unedited · slot)

/-- The loadable constant that a slot names. -/
def Loadable.ofSlot (pool : ConstantPool) (slot : Slot) : Except ClassError (Loadable StringSite) := do
  match ← pool.get slot.index with
  | .string text =>
    match StringSite.ofBytes? (← pool.utf8Bytes text) slot with
    | some site => return .string site
    | none => return .nonText
  | .integer value => return .number (.integer value)
  | .float bits => return .number (.float bits)
  | .long value => return .number (.long value)
  | .double bits => return .number (.double bits)
  | .classInfo name => return .classRef (← pool.text name)
  | .methodType descriptor => return .methodType (← pool.text descriptor)
  | .methodHandle .. => return .methodHandle (← pool.methodHandle slot.index)
  | .dynamic _ nameAndType =>
    let (name, descriptor) ← pool.nameAndType nameAndType
    return .dynamic name descriptor
  | .utf8 _ | .member .. | .nameAndType .. | .invokeDynamic .. | .moduleInfo _ | .packageInfo _ =>
    .error (.malformed (.notLoadable slot.index slot.position))

end Retoken
