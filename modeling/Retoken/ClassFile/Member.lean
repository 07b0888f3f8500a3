import Retoken.ClassFile.Annotations
import Retoken.ClassFile.Attribute
import Retoken.ClassFile.Bytecode

/-!
# Reading fields and methods

A member is its flags, its name and descriptor, and its attributes. The instructions of a method name bootstrap methods, which the file lists only after all members, so a method is read in two steps: first everything but the instructions, with the code set aside, then the instructions once the bootstrap methods are known.
-/

namespace Retoken

open Reader

/-- An argument of a bootstrap method: a constant, and where its index is written. -/
structure BootstrapArgument where
  position : Nat
  index : UInt16
deriving DecidableEq, Repr

namespace BootstrapArgument

def slot (argument : BootstrapArgument) : Slot :=
  ⟨.wideString, argument.position, argument.index⟩

def read (pool : ConstantPool) : Reader BootstrapArgument := do
  let position ← Reader.position
  let index ← u16
  let _ ← pool.get index
  return ⟨position, index⟩

end BootstrapArgument

structure BootstrapMethod where
  handle : MethodHandle
  arguments : List BootstrapArgument
deriving DecidableEq, Repr

namespace BootstrapMethod

def read (pool : ConstantPool) : Reader BootstrapMethod := do
  let handle ← pool.methodHandle (← u16)
  return ⟨handle, ← counted (BootstrapArgument.read pool)⟩

def readAll (pool : ConstantPool) : Reader (List BootstrapMethod) :=
  counted (read pool)

end BootstrapMethod

namespace Field

/-- The constant value of a field. -/
def readConstant (pool : ConstantPool) : Reader (Loadable StringSite) := do
  let position ← Reader.position
  let index ← u16
  Loadable.ofSlot pool ⟨.wideString, position, index⟩

/-- Takes one attribute into account. -/
def addAttribute (pool : ConstantPool) (field : Field StringSite) (attr : Attribute) :
    Except ClassError (Field StringSite) := do
  match attr.name with
  | "ConstantValue" =>
    return { field with constant? := some (← attr.parse (readConstant pool)) }
  | "RuntimeVisibleAnnotations" =>
    let visible ← attr.parse (AnnotationUse.readAll pool)
    return { field with annotations := { field.annotations with visible } }
  | "RuntimeInvisibleAnnotations" =>
    let invisible ← attr.parse (AnnotationUse.readAll pool)
    return { field with annotations := { field.annotations with invisible } }
  | _ => return field

def read (pool : ConstantPool) : Reader (Field StringSite) := do
  let access ← u16
  let name ← pool.text (← u16)
  let descriptor ← pool.text (← u16)
  Attribute.collect pool (addAttribute pool) { access, name, descriptor }

end Field

/-- A method whose instructions are still to be read. -/
structure PendingMethod where
  method : Method StringSite
  code? : Option Cursor := none

namespace PendingMethod

/-- The code array within the body of a code attribute. What follows the array is of no interest. -/
def readCode : Reader Cursor := do
  skip 4
  slice (← u32).toNat

def addAttribute (pool : ConstantPool) (pending : PendingMethod) (attr : Attribute) :
    Except ClassError PendingMethod := do
  let method := pending.method
  match attr.name with
  | "Code" =>
    if pending.code?.isSome then
      .error (.malformed (.repeatedCode method.name method.descriptor))
    else return { pending with code? := some (← readCode attr.body).1 }
  | "RuntimeVisibleAnnotations" =>
    let visible ← attr.parse (AnnotationUse.readAll pool)
    return { pending with method := { method with annotations := { method.annotations with visible } } }
  | "RuntimeInvisibleAnnotations" =>
    let invisible ← attr.parse (AnnotationUse.readAll pool)
    return { pending with method := { method with annotations := { method.annotations with invisible } } }
  | "RuntimeVisibleParameterAnnotations" =>
    let visibleOnParameters ← attr.parse (AnnotationUse.readPerParameter pool)
    return { pending with method := { method with visibleOnParameters } }
  | "RuntimeInvisibleParameterAnnotations" =>
    let invisibleOnParameters ← attr.parse (AnnotationUse.readPerParameter pool)
    return { pending with method := { method with invisibleOnParameters } }
  | "AnnotationDefault" =>
    let value ← attr.parse (ElementValue.read pool 0)
    return { pending with method := { method with annotationDefault? := some value } }
  | _ => return pending

def read (pool : ConstantPool) : Reader PendingMethod := do
  let access ← u16
  let name ← pool.text (← u16)
  let descriptor ← pool.text (← u16)
  Attribute.collect pool (addAttribute pool) { method := { access, name, descriptor } }

end PendingMethod

namespace Instruction

/-- Follows the constant that an instruction names, and the bootstrap method behind a dynamic call. -/
def ofLocated (pool : ConstantPool) (bootstrapMethods : List BootstrapMethod)
    (located : Bytecode.Located) : Except ClassError (Instruction StringSite) := do
  let offset := located.offset
  match located.operation with
  | .load opcode index position =>
    let kind := if opcode = Bytecode.narrowLoad then .narrowString else .wideString
    return .load offset opcode (← Loadable.ofSlot pool ⟨kind, position, index⟩)
  | .invokeDynamic index =>
    match ← pool.get index with
    | .invokeDynamic bootstrap nameAndType =>
      match bootstrapMethods[bootstrap.toNat]? with
      | some method =>
        let (name, descriptor) ← pool.nameAndType nameAndType
        let arguments ← method.arguments.mapM fun argument => Loadable.ofSlot pool argument.slot
        return .invokeDynamic offset name descriptor method.handle arguments
      | none => .error (.malformed (.missingBootstrapMethod offset bootstrap))
    | _ => .error (.malformed (.notInvokeDynamic offset))
  | .other opcode => return .other offset opcode

end Instruction

namespace PendingMethod

/-- Completes the method with its instructions. -/
def complete (pool : ConstantPool) (bootstrapMethods : List BootstrapMethod)
    (pending : PendingMethod) : Except ClassError (Method StringSite) := do
  match pending.code? with
  | none => return pending.method
  | some code =>
    let located ← Bytecode.read code
    return { pending.method with
      instructions := ← located.mapM (Instruction.ofLocated pool bootstrapMethods) }

end PendingMethod

end Retoken
