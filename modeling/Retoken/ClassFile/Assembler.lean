import Retoken.ClassFile.Basic
import Retoken.ClassFile.ElementLayout

/-!
# Assembling class files

A class file is put together from members, annotations and attributes. Constants are added to the pool as they are needed; a text or string constant that is already there is used again, every other constant is added each time. Texts enter the pool as plain UTF-8.
-/

namespace Retoken

open BigEndian

structure AssembledMember where
  name : UInt16
  descriptor : UInt16
  constant? : Option UInt16 := none
  code? : Option (List UInt8) := none
  /-- Annotations as they are written. -/
  visible : Array (List UInt8) := #[]
  invisible : Array (List UInt8) := #[]
  visibleOnParameters : Array (Array (List UInt8)) := #[]
  annotationDefault? : Option (List UInt8) := none

/-- A class file in the making. -/
structure Assembly where
  slots : Array (Option Constant) := #[none]
  thisClass : UInt16 := 0
  superClass : UInt16 := 0
  fields : Array AssembledMember := #[]
  methods : Array AssembledMember := #[]
  visible : Array (List UInt8) := #[]
  invisible : Array (List UInt8) := #[]
  bootstrapMethods : Array (UInt16 × List UInt16) := #[]
  /-- Further attributes of the class, by name. -/
  attributes : Array (String × List UInt8) := #[]

abbrev Assembler (α : Type) := StateM Assembly α

namespace Assembler

/-! ### Constants -/

def addConstant (constant : Constant) : Assembler UInt16 := do
  let assembly ← get
  let slots := assembly.slots.push (some constant)
  set { assembly with slots := if constant.isWide then slots.push none else slots }
  return UInt16.ofNat assembly.slots.size

/-- The index of the constant, which is added if it is not there yet. -/
def intern (constant : Constant) : Assembler UInt16 := do
  match (← get).slots.findIdx? (· == some constant) with
  | some index => return UInt16.ofNat index
  | none => addConstant constant

def utf8Raw (bytes : List UInt8) : Assembler UInt16 :=
  intern (.utf8 bytes)

def utf8 (text : String) : Assembler UInt16 :=
  utf8Raw text.toUTF8.toList

def stringRaw (bytes : List UInt8) : Assembler UInt16 := do
  intern (.string (← utf8Raw bytes))

def string (text : String) : Assembler UInt16 :=
  stringRaw text.toUTF8.toList

def classRef (name : String) : Assembler UInt16 := do
  addConstant (.classInfo (← utf8 name))

def nameAndType (name descriptor : String) : Assembler UInt16 := do
  addConstant (.nameAndType (← utf8 name) (← utf8 descriptor))

def methodRef (owner name descriptor : String) : Assembler UInt16 := do
  addConstant (.member .method (← classRef owner) (← nameAndType name descriptor))

/-- The kind of a handle on a static method. -/
def invokeStatic : UInt8 := 6

def methodHandle (owner name descriptor : String) : Assembler UInt16 := do
  addConstant (.methodHandle invokeStatic (← methodRef owner name descriptor))

def invokeDynamic (bootstrap : UInt16) (name descriptor : String) : Assembler UInt16 := do
  addConstant (.invokeDynamic bootstrap (← nameAndType name descriptor))

def number (value : Number) : Assembler UInt16 :=
  addConstant <| match value with
    | .integer value => .integer value
    | .float bits => .float bits
    | .long value => .long value
    | .double bits => .double bits

/-- Adds a bootstrap method and gives its number. -/
def bootstrap (owner name descriptor : String) (arguments : List UInt16) : Assembler UInt16 := do
  let handle ← methodHandle owner name descriptor
  let assembly ← get
  set { assembly with bootstrapMethods := assembly.bootstrapMethods.push (handle, arguments) }
  return UInt16.ofNat assembly.bootstrapMethods.size

/-! ### Annotations -/

/-- Bytes that are no Unicode text: half of a surrogate pair. -/
def nonText : List UInt8 := [0xED, 0xA0, 0x80]

mutual

def element : ElementValue String → Assembler ElementLayout
  | .string text => return .string (← utf8 text)
  | .nonText => return .string (← utf8Raw nonText)
  | .number tag value => return .number tag (← number value)
  | .enumConstant type name => return .enumConstant (← utf8 type) (← utf8 name)
  | .classRef descriptor => return .classRef (← utf8 descriptor)
  | .array values => return .array (← elements values)
  | .nested type values => return .nested (← utf8 type) (← members values)

def elements : List (ElementValue String) → Assembler (List ElementLayout)
  | [] => return []
  | value :: values => return (← element value) :: (← elements values)

def members : List (String × ElementValue String) → Assembler (List (UInt16 × ElementLayout))
  | [] => return []
  | (name, value) :: rest => return (← utf8 name, ← element value) :: (← members rest)

end

def annotationUse (use : AnnotationUse String) : Assembler AnnotationLayout :=
  return ⟨← utf8 use.type, ← members use.members⟩

/-! ### Members and attributes -/

def field (name descriptor : String) (constant? : Option UInt16) : Assembler Nat := do
  let member : AssembledMember := { name := ← utf8 name, descriptor := ← utf8 descriptor, constant? }
  modifyGet fun assembly =>
    (assembly.fields.size, { assembly with fields := assembly.fields.push member })

def method (name descriptor : String) (code : List UInt8) : Assembler Nat := do
  let member : AssembledMember :=
    { name := ← utf8 name, descriptor := ← utf8 descriptor, code? := some code }
  modifyGet fun assembly =>
    (assembly.methods.size, { assembly with methods := assembly.methods.push member })

/-- Attaches an annotation to the class. -/
def annotateClass (visible : Bool) (use : List UInt8) : Assembler Unit :=
  modify fun assembly =>
    if visible then { assembly with visible := assembly.visible.push use }
    else { assembly with invisible := assembly.invisible.push use }

def annotateMember (visible : Bool) (use : List UInt8) (member : AssembledMember) : AssembledMember :=
  if visible then { member with visible := member.visible.push use }
  else { member with invisible := member.invisible.push use }

def annotateField (field : Nat) (visible : Bool) (use : List UInt8) : Assembler Unit :=
  modify fun assembly =>
    { assembly with fields := assembly.fields.modify field (annotateMember visible use) }

def annotateMethod (method : Nat) (visible : Bool) (use : List UInt8) : Assembler Unit :=
  modify fun assembly =>
    { assembly with methods := assembly.methods.modify method (annotateMember visible use) }

/-- Attaches a visible annotation to a parameter. The parameters before it are listed as well. -/
def annotateParameter (method parameter : Nat) (use : List UInt8) : Assembler Unit :=
  modify fun assembly =>
    { assembly with methods := assembly.methods.modify method fun member =>
        let listed := member.visibleOnParameters
        let all := listed ++ Array.replicate (parameter + 1 - listed.size) #[]
        { member with visibleOnParameters := all.modify parameter (·.push use) } }

def setAnnotationDefault (method : Nat) (value : ElementValue String) : Assembler Unit := do
  let layout ← element value
  modify fun assembly =>
    { assembly with methods := assembly.methods.modify method fun member =>
        { member with annotationDefault? := some layout.toBytes } }

def addAttribute (name : String) (body : List UInt8) : Assembler Unit := do
  let _ ← utf8 name
  modify fun assembly => { assembly with attributes := assembly.attributes.push (name, body) }

/-! ### Code -/

/-- The instruction that loads a constant, short if the index fits one byte. -/
def loadCode (index : UInt16) : List UInt8 :=
  if index.toNat ≤ 0xFF then [0x12, UInt8.ofNat index.toNat] else 0x13 :: bytes16 index

def invokeDynamicCode (index : UInt16) : List UInt8 :=
  0xBA :: bytes16 index ++ [0, 0]

/-! ### The finished file -/

/-- A two-byte count and the items. -/
def countedBytes (items : List (List UInt8)) : List UInt8 :=
  bytes16 (UInt16.ofNat items.length) ++ items.flatten

def attributeBytes (name : String) (body : List UInt8) : Assembler (List UInt8) := do
  return bytes16 (← utf8 name) ++ bytes32 (UInt32.ofNat body.length) ++ body

/-- The body of a code attribute, without exception handlers and attributes of its own. -/
def codeBody (code : List UInt8) : List UInt8 :=
  [0, 8, 0, 8] ++ bytes32 (UInt32.ofNat code.length) ++ code ++ [0, 0, 0, 0]

def parametersBody (parameters : Array (Array (List UInt8))) : List UInt8 :=
  UInt8.ofNat parameters.size :: parameters.toList.flatMap fun uses => countedBytes uses.toList

def memberFlags : UInt16 := 0x0019

def memberBytes (member : AssembledMember) : Assembler (List UInt8) := do
  let bodies : List (Option (String × List UInt8)) :=
    [member.constant?.map fun index => ("ConstantValue", bytes16 index),
      member.code?.map fun code => ("Code", codeBody code),
      if member.visible.isEmpty then none
        else some ("RuntimeVisibleAnnotations", countedBytes member.visible.toList),
      if member.invisible.isEmpty then none
        else some ("RuntimeInvisibleAnnotations", countedBytes member.invisible.toList),
      if member.visibleOnParameters.isEmpty then none
        else some ("RuntimeVisibleParameterAnnotations", parametersBody member.visibleOnParameters),
      member.annotationDefault?.map fun value => ("AnnotationDefault", value)]
  let attributes ← (bodies.filterMap id).mapM fun (name, body) => attributeBytes name body
  return bytes16 memberFlags ++ bytes16 member.name ++ bytes16 member.descriptor
    ++ countedBytes attributes

def bootstrapBody (methods : Array (UInt16 × List UInt16)) : List UInt8 :=
  countedBytes <| methods.toList.map fun (handle, arguments) =>
    bytes16 handle ++ countedBytes (arguments.map bytes16)

def classAttributes : Assembler (List (List UInt8)) := do
  let assembly ← get
  let bodies : List (Option (String × List UInt8)) :=
    [if assembly.visible.isEmpty then none
        else some ("RuntimeVisibleAnnotations", countedBytes assembly.visible.toList),
      if assembly.invisible.isEmpty then none
        else some ("RuntimeInvisibleAnnotations", countedBytes assembly.invisible.toList),
      if assembly.bootstrapMethods.isEmpty then none
        else some ("BootstrapMethods", bootstrapBody assembly.bootstrapMethods)]
  (bodies.filterMap id ++ assembly.attributes.toList).mapM fun (name, body) =>
    attributeBytes name body

def majorVersion : UInt16 := 61

def classFlags : UInt16 := 0x0021

/-- The bytes of the class file. -/
def finish : Assembler (List UInt8) := do
  let fields ← (← get).fields.toList.mapM memberBytes
  let methods ← (← get).methods.toList.mapM memberBytes
  let attributes ← classAttributes
  let assembly ← get
  return bytes32 ClassFile.magic ++ bytes16 0 ++ bytes16 majorVersion
    ++ (ConstantPool.mk assembly.slots).toBytes
    ++ bytes16 classFlags ++ bytes16 assembly.thisClass ++ bytes16 assembly.superClass ++ bytes16 0
    ++ countedBytes fields ++ countedBytes methods ++ countedBytes attributes

/-- Begins a class with the given name. -/
def begin (name : String) : Assembler Unit := do
  let thisClass ← classRef name
  let superClass ← classRef "java/lang/Object"
  modify fun assembly => { assembly with thisClass, superClass }

end Assembler

end Retoken
