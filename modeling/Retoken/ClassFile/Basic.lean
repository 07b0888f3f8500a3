import Retoken.ClassFile.ConstantPool.Layout
import Retoken.ClassFile.Member

/-!
# Class files

A class file is read into its declaration, and keeps with it what is needed to write it again with other texts: its bytes, its pool, and every bootstrap argument that names a string constant, whether or not an instruction leads to it.
-/

namespace Retoken

open Reader

structure ClassFile where
  bytes : List UInt8
  pool : ConstantPool
  /-- Where bootstrap arguments name string constants. -/
  bootstrapStrings : List Slot
  declaration : Declaration StringSite

namespace ClassFile

def magic : UInt32 := 0xCAFEBABE

/-- The attributes of the class itself. -/
structure ClassAttributes where
  annotations : Annotations StringSite := {}
  bootstrapMethods : List BootstrapMethod := []

def ClassAttributes.add (pool : ConstantPool) (attributes : ClassAttributes) (attr : Attribute) :
    Except ClassError ClassAttributes := do
  match attr.name with
  | "RuntimeVisibleAnnotations" =>
    let visible ← attr.parse (AnnotationUse.readAll pool)
    return { attributes with annotations := { attributes.annotations with visible } }
  | "RuntimeInvisibleAnnotations" =>
    let invisible ← attr.parse (AnnotationUse.readAll pool)
    return { attributes with annotations := { attributes.annotations with invisible } }
  | "BootstrapMethods" =>
    return { attributes with bootstrapMethods := ← attr.parse (BootstrapMethod.readAll pool) }
  | _ => return attributes

/-- The name of the superclass; index 0 stands for none. -/
def readSuperclass (pool : ConstantPool) : Reader (Option String) := do
  let index ← u16
  if index = 0 then return none else return some (← pool.className index)

def isString (pool : ConstantPool) (index : UInt16) : Bool :=
  match pool.get? index with
  | some (.string _) => true
  | _ => false

/-- The arguments that name string constants. -/
def stringSlots (pool : ConstantPool) (bootstrapMethods : List BootstrapMethod) : List Slot :=
  (bootstrapMethods.flatMap (·.arguments)).filterMap fun argument =>
    if isString pool argument.index then some argument.slot else none

/-- What stands behind the pool, up to the end of the file. -/
def readDeclaration (pool : ConstantPool) (minor major : UInt16) :
    Reader (List Slot × Declaration StringSite) := do
  let access ← u16
  let name ← pool.className (← u16)
  let superclass? ← readSuperclass pool
  let interfaces ← counted (do pool.className (← u16))
  let fields ← counted (Field.read pool)
  let pending ← counted (PendingMethod.read pool)
  let attributes ← Attribute.collect pool (ClassAttributes.add pool) {}
  let rest := (← get).rest
  if !rest.isEmpty then fail (.trailingBytes rest.length)
  let methods ← pending.mapM fun method => method.complete pool attributes.bootstrapMethods
  let declaration :=
    { minor, major, access, name, superclass?, interfaces, fields, methods,
      annotations := attributes.annotations }
  return (stringSlots pool attributes.bootstrapMethods, declaration)

/-- The whole file but for the bytes to keep. -/
def read : Reader (ConstantPool × List Slot × Declaration StringSite) := do
  let found ← u32
  if found != magic then throw (.badMagic found)
  let minor ← u16
  let major ← u16
  let pool ← ConstantPool.read
  return (pool, ← readDeclaration pool minor major)

def ofBytes (bytes : List UInt8) : Except ClassError ClassFile := do
  let ((pool, bootstrapStrings, declaration), _) ← read ⟨0, bytes⟩
  return { bytes, pool, bootstrapStrings, declaration }

end ClassFile

end Retoken
