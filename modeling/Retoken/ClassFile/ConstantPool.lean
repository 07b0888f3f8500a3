import Retoken.Binary.BigEndian
import Retoken.ClassFile.Error
import Retoken.Text.ModifiedUtf8

/-!
# The constant pool

The table of constants that the rest of a class file refers to by two-byte index. Slot 0 is never used, and an eight-byte constant takes two slots of which the second is not used either.

The pool also says how its constants are written, so `ConstantPool.toBytes` is the layout that reading a pool has to undo.
-/

namespace Retoken

inductive MemberKind where
  | field
  | method
  | interfaceMethod
deriving DecidableEq, Repr

/-- A constant. Floating-point values are kept as their bits, names and other references as pool indices. -/
inductive Constant where
  | utf8 (bytes : List UInt8)
  | integer (value : Int32)
  | float (bits : UInt32)
  | long (value : Int64)
  | double (bits : UInt64)
  | classInfo (name : UInt16)
  | string (text : UInt16)
  | member (kind : MemberKind) (owner nameAndType : UInt16)
  | nameAndType (name descriptor : UInt16)
  | methodHandle (kind : UInt8) (reference : UInt16)
  | methodType (descriptor : UInt16)
  | dynamic (bootstrap nameAndType : UInt16)
  | invokeDynamic (bootstrap nameAndType : UInt16)
  | moduleInfo (name : UInt16)
  | packageInfo (name : UInt16)
deriving DecidableEq, Repr

namespace Constant

open BigEndian

/-- Whether the constant takes two slots. -/
def isWide : Constant → Bool
  | long _ | double _ => true
  | _ => false

def tag : Constant → UInt8
  | utf8 _ => 1
  | integer _ => 3
  | float _ => 4
  | long _ => 5
  | double _ => 6
  | classInfo _ => 7
  | string _ => 8
  | member .field .. => 9
  | member .method .. => 10
  | member .interfaceMethod .. => 11
  | nameAndType .. => 12
  | methodHandle .. => 15
  | methodType _ => 16
  | dynamic .. => 17
  | invokeDynamic .. => 18
  | moduleInfo _ => 19
  | packageInfo _ => 20

def payload : Constant → List UInt8
  | utf8 bytes => bytes16 (UInt16.ofNat bytes.length) ++ bytes
  | integer value => bytes32 value.toUInt32
  | float bits => bytes32 bits
  | long value => bytes64 value.toUInt64
  | double bits => bytes64 bits
  | classInfo index | string index | methodType index | moduleInfo index | packageInfo index =>
    bytes16 index
  | member _ first second | nameAndType first second | dynamic first second
  | invokeDynamic first second => bytes16 first ++ bytes16 second
  | methodHandle kind reference => kind :: bytes16 reference

def toBytes (constant : Constant) : List UInt8 :=
  constant.tag :: constant.payload

end Constant

/-- A method handle with its member spelled out. -/
structure MethodHandle where
  kind : UInt8
  owner : String
  name : String
  descriptor : String
deriving DecidableEq, Repr

/-- The slots from index 0 on. A slot without a constant is not usable. -/
structure ConstantPool where
  slots : Array (Option Constant)
deriving DecidableEq

namespace ConstantPool

def get? (pool : ConstantPool) (index : UInt16) : Option Constant :=
  pool.slots[index.toNat]?.join

/-- The entries in the order of their indices, as they are written. -/
def entriesToBytes (slots : List (Option Constant)) : List UInt8 :=
  slots.flatMap fun
    | some constant => constant.toBytes
    | none => []

/-- The number of slots in two bytes, and the entries. -/
def toBytes (pool : ConstantPool) : List UInt8 :=
  BigEndian.bytes16 (UInt16.ofNat pool.slots.size) ++ entriesToBytes pool.slots.toList

/-- How many bytes lie between the slot count and the entry at `index`. -/
def entryOffset (pool : ConstantPool) (index : Nat) : Nat :=
  (entriesToBytes (pool.slots.toList.take index)).length

/-! ### References -/

def isUtf8 (pool : ConstantPool) (index : UInt16) : Bool :=
  match pool.get? index with
  | some (.utf8 _) => true
  | _ => false

def isClass (pool : ConstantPool) (index : UInt16) : Bool :=
  match pool.get? index with
  | some (.classInfo _) => true
  | _ => false

def isNameAndType (pool : ConstantPool) (index : UInt16) : Bool :=
  match pool.get? index with
  | some (.nameAndType ..) => true
  | _ => false

def isMember (pool : ConstantPool) (index : UInt16) : Bool :=
  match pool.get? index with
  | some (.member ..) => true
  | _ => false

/-- Whether every index in the constant leads to a constant of the kind it needs there. -/
def refersWell (pool : ConstantPool) : Constant → Bool
  | .classInfo index | .string index | .methodType index | .moduleInfo index | .packageInfo index =>
    pool.isUtf8 index
  | .nameAndType name descriptor => pool.isUtf8 name && pool.isUtf8 descriptor
  | .member _ owner nameAndType => pool.isClass owner && pool.isNameAndType nameAndType
  | .methodHandle kind reference => 1 ≤ kind && kind ≤ 9 && pool.isMember reference
  | .dynamic _ nameAndType | .invokeDynamic _ nameAndType => pool.isNameAndType nameAndType
  | .utf8 _ | .integer _ | .float _ | .long _ | .double _ => true

/-- The first slot whose constant refers to something that is missing or of another kind. -/
def firstBroken? (pool : ConstantPool) : Option Nat :=
  pool.slots.findIdx? fun slot => slot.any fun constant => !pool.refersWell constant

/-! ### Look-ups -/

def get (pool : ConstantPool) (index : UInt16) : Except ClassError Constant :=
  match pool.get? index with
  | some constant => .ok constant
  | none => .error (.malformed (.unusableIndex index))

def wrongKind {α : Type} (required : ConstantKind) (index : UInt16) : Except ClassError α :=
  .error (.malformed (.wrongKind required index))

/-- The payload of a text constant. -/
def utf8Bytes (pool : ConstantPool) (index : UInt16) : Except ClassError (List UInt8) := do
  match ← pool.get index with
  | .utf8 bytes => return bytes
  | _ => wrongKind .utf8 index

/-- A text constant that is a name or a descriptor. -/
def text (pool : ConstantPool) (index : UInt16) : Except ClassError String := do
  match Text.ModifiedUtf8.toString? (← pool.utf8Bytes index) with
  | some text => return text
  | none => .error (.malformed (.undecodableText index))

def className (pool : ConstantPool) (index : UInt16) : Except ClassError String := do
  match ← pool.get index with
  | .classInfo name => pool.text name
  | _ => wrongKind .classInfo index

def nameAndType (pool : ConstantPool) (index : UInt16) : Except ClassError (String × String) := do
  match ← pool.get index with
  | .nameAndType name descriptor => return (← pool.text name, ← pool.text descriptor)
  | _ => wrongKind .nameAndType index

/-- Owner, name and descriptor of a field or method. -/
def member (pool : ConstantPool) (index : UInt16) : Except ClassError (String × String × String) := do
  match ← pool.get index with
  | .member _ owner nameAndType =>
    return (← pool.className owner, ← pool.nameAndType nameAndType)
  | _ => wrongKind .member index

def methodHandle (pool : ConstantPool) (index : UInt16) : Except ClassError MethodHandle := do
  match ← pool.get index with
  | .methodHandle kind reference =>
    let (owner, name, descriptor) ← pool.member reference
    return { kind, owner, name, descriptor }
  | _ => wrongKind .methodHandle index

/-- The first text constant that holds exactly these bytes. -/
def findUtf8? (pool : ConstantPool) (bytes : List UInt8) : Option Nat :=
  pool.slots.findIdx? (· == some (.utf8 bytes))

end ConstantPool

end Retoken
