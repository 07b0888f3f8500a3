import Mathlib.Algebra.Group.Nat.Defs
import Retoken.ClassFile.Basic
import Retoken.ClassFile.Place
import Retoken.Proofs.ConstantPool.Lookups
import Retoken.Proofs.Format.Rows

/-!
# The class file format

A class file as it is written, down to every annotation value and every instruction, with indices in place of what they name. Nothing here reads a file: `ClassLayout.toBytes` says which bytes are meant, and `ClassLayout.WellFormed` rules out layouts whose counts do not fit or whose attributes do not have the contents that their names promise.

`ClassLayout.locations` lists where texts are named: in load instructions, in the arguments of the bootstrap methods that dynamic calls go through, in constants of fields, and in the string values of annotations at any depth. Of several attributes with one name on one declaration only the last one is taken into account.
-/

namespace Retoken

open BigEndian

/-! ### Annotations -/

namespace ElementLayout

def numberTags : List Char :=
  ['B', 'C', 'D', 'F', 'I', 'J', 'S', 'Z']

inductive WellFormed : ElementLayout → Prop where
  | number {tag : Char} {index : UInt16} (htag : tag ∈ numberTags) : WellFormed (.number tag index)
  | string {text : UInt16} : WellFormed (.string text)
  | enumConstant {type name : UInt16} : WellFormed (.enumConstant type name)
  | classRef {descriptor : UInt16} : WellFormed (.classRef descriptor)
  | array {items : List ElementLayout} (hcount : items.length ≤ maxCount) (hitems : ∀ item ∈ items, WellFormed item) :
      WellFormed (.array items)
  | nested {type : UInt16} {members : List (UInt16 × ElementLayout)} (hcount : members.length ≤ maxCount)
      (hmembers : ∀ member ∈ members, WellFormed member.2) : WellFormed (.nested type members)

mutual

/-- The string values in a value that begins at a position. -/
def slots (position : Nat) : ElementLayout → List Slot
  | number .. | enumConstant .. | classRef _ => []
  | string text => [⟨.utf8, position + 1, text⟩]
  | array items => itemsSlots (position + 3) items
  | nested _ members => membersSlots (position + 5) members

def itemsSlots (position : Nat) : List ElementLayout → List Slot
  | [] => []
  | item :: items => slots position item ++ itemsSlots (position + item.toBytes.length) items

def membersSlots (position : Nat) : List (UInt16 × ElementLayout) → List Slot
  | [] => []
  | (_, value) :: members =>
    slots (position + 2) value ++ membersSlots (position + 2 + value.toBytes.length) members

end

end ElementLayout

namespace AnnotationLayout

structure WellFormed (use : AnnotationLayout) : Prop where
  count : use.members.length ≤ maxCount
  members : ∀ member ∈ use.members, member.2.WellFormed

def slots (position : Nat) (use : AnnotationLayout) : List Slot :=
  ElementLayout.membersSlots (position + 4) use.members

end AnnotationLayout

/-! ### Code -/

inductive InstructionLayout where
  | load (opcode : UInt8) (index : UInt16)
  | invokeDynamic (index : UInt16)
  | other (opcode : UInt8) (operands : List UInt8)

/-- What a dynamic call finds at the number of a bootstrap method: the handle, and the slots of the arguments. -/
abbrev BootstrapEntry := Option MethodHandle × List Slot

namespace InstructionLayout

open Bytecode

def toBytes : InstructionLayout → List UInt8
  | load opcode index => opcode :: if opcode = narrowLoad then [UInt8.ofNat index.toNat] else bytes16 index
  | invokeDynamic index => 0xBA :: (bytes16 index ++ bytes16 0)
  | other opcode operands => opcode :: operands

def TableSwitch (offset : Nat) (operands : List UInt8) : Prop :=
  ∃ (padding fallback : List UInt8) (low high : UInt32) (table : List UInt8),
    operands = padding ++ (fallback ++ (bytes32 low ++ (bytes32 high ++ table)))
      ∧ padding.length = switchPadding offset ∧ fallback.length = 4 ∧ low.toInt32.toInt ≤ high.toInt32.toInt
      ∧ table.length = (high.toInt32.toInt - low.toInt32.toInt + 1).toNat * 4

def LookupSwitch (offset : Nat) (operands : List UInt8) : Prop :=
  ∃ (padding fallback : List UInt8) (pairs : UInt32) (table : List UInt8),
    operands = padding ++ (fallback ++ (bytes32 pairs ++ table))
      ∧ padding.length = switchPadding offset ∧ fallback.length = 4 ∧ 0 ≤ pairs.toInt32.toInt
      ∧ table.length = pairs.toInt32.toInt.toNat * 8

/-- Whether the operands are as many as the instruction has at this offset from the start of the code. -/
def WellFormed (offset : Nat) : InstructionLayout → Prop
  | load opcode index => opcode.toNat = 0x12 ∧ index.toNat ≤ 0xFF ∨ opcode.toNat = 0x13 ∨ opcode.toNat = 0x14
  | invokeDynamic _ => True
  | other opcode operands => match opcode.toNat with
    | 0xAA => TableSwitch offset operands
    | 0xAB => LookupSwitch offset operands
    | 0xC4 => ∃ modified rest, operands = modified :: rest ∧ wideOperandLength? modified.toNat = some rest.length
    | fixed => operandLength? fixed = some operands.length

def callLocations (method : MethodLabel) (offset : Nat) (entry : BootstrapEntry) : List (Option Place × Slot) :=
  entry.2.mapIdx fun i slot =>
    (if entry.1.any (·.isStringConcat) then some (.concatArgument method offset i) else none, slot)

/-- Where an instruction of a code array that begins at `start` names texts. -/
def locations (pool : ConstantPool) (entries : List BootstrapEntry) (method : MethodLabel) (start position : Nat) :
    InstructionLayout → List (Option Place × Slot)
  | load opcode index =>
    [(some (.load method (position - start)),
      ⟨if opcode = narrowLoad then .narrowString else .wideString, position + 1, index⟩)]
  | invokeDynamic index =>
    match pool.get? index with
    | some (.invokeDynamic bootstrap _) =>
      (entries[bootstrap.toNat]?.map (callLocations method (position - start))).getD []
    | _ => []
  | other .. => []

end InstructionLayout

/-! ### Attributes -/

structure BootstrapLayout where
  handle : UInt16
  arguments : List UInt16

namespace BootstrapLayout

def toBytes (method : BootstrapLayout) : List UInt8 :=
  bytes16 method.handle ++ countedToBytes bytes16 method.arguments

def entry (pool : ConstantPool) (position : Nat) (method : BootstrapLayout) : BootstrapEntry :=
  ((pool.methodHandle method.handle).toOption,
    inRow bytes16 (fun position index => [⟨.wideString, position, index⟩]) (position + 4) method.arguments)

end BootstrapLayout

inductive AttributeContent where
  | constantValue (index : UInt16)
  | annotations (uses : List AnnotationLayout)
  | parameterAnnotations (parameters : List (List AnnotationLayout))
  | annotationDefault (value : ElementLayout)
  /-- A code array between the limits of the stack and what is of no interest. -/
  | code (limits : List UInt8) (instructions : List InstructionLayout) (rest : List UInt8)
  | bootstrapMethods (methods : List BootstrapLayout)
  | other (body : List UInt8)

inductive AttributeKind where
  | constantValue | annotations | parameterAnnotations | annotationDefault | code | bootstrapMethods | other
deriving DecidableEq

namespace AttributeKind

def ofField : String → AttributeKind
  | "ConstantValue" => constantValue
  | "RuntimeVisibleAnnotations" | "RuntimeInvisibleAnnotations" => annotations
  | _ => other

def ofMethod : String → AttributeKind
  | "Code" => code
  | "RuntimeVisibleAnnotations" | "RuntimeInvisibleAnnotations" => annotations
  | "RuntimeVisibleParameterAnnotations" | "RuntimeInvisibleParameterAnnotations" => parameterAnnotations
  | "AnnotationDefault" => annotationDefault
  | _ => other

def ofClass : String → AttributeKind
  | "RuntimeVisibleAnnotations" | "RuntimeInvisibleAnnotations" => annotations
  | "BootstrapMethods" => bootstrapMethods
  | _ => other

end AttributeKind

namespace AttributeContent

def toBytes : AttributeContent → List UInt8
  | constantValue index => bytes16 index
  | annotations uses => countedToBytes AnnotationLayout.toBytes uses
  | parameterAnnotations parameters =>
    UInt8.ofNat parameters.length :: parameters.flatMap (countedToBytes AnnotationLayout.toBytes)
  | annotationDefault value => value.toBytes
  | code limits instructions rest =>
    let array := instructions.flatMap InstructionLayout.toBytes
    limits ++ (bytes32 (UInt32.ofNat array.length) ++ (array ++ rest))
  | bootstrapMethods methods => countedToBytes BootstrapLayout.toBytes methods
  | other body => body

def kind : AttributeContent → AttributeKind
  | constantValue _ => .constantValue
  | annotations _ => .annotations
  | parameterAnnotations _ => .parameterAnnotations
  | annotationDefault _ => .annotationDefault
  | code .. => .code
  | bootstrapMethods _ => .bootstrapMethods
  | other _ => .other

def WellFormed : AttributeContent → Prop
  | constantValue _ | other _ => True
  | annotations uses => uses.length ≤ maxCount ∧ ∀ use ∈ uses, use.WellFormed
  | parameterAnnotations parameters => parameters.length ≤ 255
    ∧ ∀ uses ∈ parameters, uses.length ≤ maxCount ∧ ∀ use ∈ uses, use.WellFormed
  | annotationDefault value => value.WellFormed
  | code limits instructions _ => limits.length = 4
    ∧ (instructions.flatMap InstructionLayout.toBytes).length < 2 ^ 32
    ∧ AllInRow InstructionLayout.toBytes InstructionLayout.WellFormed 0 instructions
  | bootstrapMethods methods => methods.length ≤ maxCount ∧ ∀ method ∈ methods, method.arguments.length ≤ maxCount

/-- The texts named in a content that begins at a position, apart by the annotation, or by the parameter for annotations on parameters. -/
def slots (position : Nat) : AttributeContent → List (List Slot)
  | constantValue index => [[⟨.wideString, position, index⟩]]
  | annotations uses => inRow AnnotationLayout.toBytes (fun position use => [use.slots position]) (position + 2) uses
  | parameterAnnotations parameters =>
    inRow (countedToBytes AnnotationLayout.toBytes)
      (fun position uses => [inRow AnnotationLayout.toBytes AnnotationLayout.slots (position + 2) uses]) (position + 1)
      parameters
  | annotationDefault value => [value.slots position]
  | code .. | bootstrapMethods _ | other _ => []

/-- Where the code array begins, and what is in it. -/
def code? (position : Nat) : AttributeContent → Option (Nat × List InstructionLayout)
  | code _ instructions _ => some (position + 8, instructions)
  | _ => none

def entries (pool : ConstantPool) (position : Nat) : AttributeContent → List BootstrapEntry
  | bootstrapMethods methods =>
    inRow BootstrapLayout.toBytes (fun position method => [method.entry pool position]) (position + 2) methods
  | _ => []

end AttributeContent

structure AttributeLayout where
  name : UInt16
  content : AttributeContent

def ConstantPool.nameAt (pool : ConstantPool) (index : UInt16) : String :=
  (pool.textAt? index).getD ""

namespace AttributeLayout

def toBytes (attr : AttributeLayout) : List UInt8 :=
  let body := attr.content.toBytes
  bytes16 attr.name ++ (bytes32 (UInt32.ofNat body.length) ++ body)

structure WellFormed (pool : ConstantPool) (kindOf : String → AttributeKind) (attr : AttributeLayout) : Prop where
  kind : attr.content.kind = kindOf (pool.nameAt attr.name)
  content : attr.content.WellFormed
  length : attr.content.toBytes.length < 2 ^ 32

/-- The last attribute with a name: where its body begins, and its content. -/
def last? (pool : ConstantPool) (name : String) : Nat → List AttributeLayout → Option (Nat × AttributeContent)
  | _, [] => none
  | position, attr :: attributes =>
    (last? pool name (position + attr.toBytes.length) attributes).or
      (if pool.nameAt attr.name = name then some (position + 6, attr.content) else none)

def inLast {γ : Type} (pool : ConstantPool) (name : String) (contents : Nat → AttributeContent → List γ)
    (position : Nat) (attributes : List AttributeLayout) : List γ :=
  ((last? pool name position attributes).map fun body => contents body.1 body.2).getD []

end AttributeLayout

/-! ### Members -/

structure MemberLayout where
  access : UInt16
  name : UInt16
  descriptor : UInt16
  attributes : List AttributeLayout

namespace MemberLayout

open AttributeContent AttributeLayout

def toBytes (member : MemberLayout) : List UInt8 :=
  bytes16 member.access ++ (bytes16 member.name ++ (bytes16 member.descriptor
    ++ countedToBytes AttributeLayout.toBytes member.attributes))

structure WellFormed (pool : ConstantPool) (kindOf : String → AttributeKind) (member : MemberLayout) : Prop where
  count : member.attributes.length ≤ maxCount
  attributes : ∀ attr ∈ member.attributes, attr.WellFormed pool kindOf

variable (pool : ConstantPool) (position : Nat) (member : MemberLayout)

def slots (name : String) : List (List Slot) :=
  inLast pool name AttributeContent.slots (position + 8) member.attributes

def fieldLocations : List (Option Place × Slot) :=
  let name := pool.nameAt member.name
  let constant := (member.slots pool position "ConstantValue").flatten
  let visible := (member.slots pool position "RuntimeVisibleAnnotations").flatten
  let invisible := (member.slots pool position "RuntimeInvisibleAnnotations").flatten
  constant.map (some (.fieldConstant name), ·) ++ (visible ++ invisible).map (some (.onField name), ·)

def label : MethodLabel :=
  ⟨pool.nameAt member.name, pool.nameAt member.descriptor⟩

def codeLocations (entries : List BootstrapEntry) : List (Option Place × Slot) :=
  inLast pool "Code" (fun position content => ((content.code? position).map fun code =>
      inRow InstructionLayout.toBytes (InstructionLayout.locations pool entries (member.label pool) code.1)
        code.1 code.2).getD [])
    (position + 8) member.attributes

def parameterLocations (name : String) : List (Option Place × Slot) :=
  ((member.slots pool position name).mapIdx fun i slots =>
    slots.map (some (.onParameter (member.label pool) i), ·)).flatten

def methodLocations (entries : List BootstrapEntry) : List (Option Place × Slot) :=
  let visible := (member.slots pool position "RuntimeVisibleAnnotations").flatten
  let invisible := (member.slots pool position "RuntimeInvisibleAnnotations").flatten
  let value := (member.slots pool position "AnnotationDefault").flatten
  member.codeLocations pool position entries
    ++ ((visible ++ invisible).map (some (.onMethod (member.label pool)), ·)
      ++ (member.parameterLocations pool position "RuntimeVisibleParameterAnnotations"
        ++ (member.parameterLocations pool position "RuntimeInvisibleParameterAnnotations"
          ++ value.map (some (.annotationDefault (member.label pool)), ·))))

end MemberLayout

/-! ### Whole files -/

structure ClassLayout where
  minor : UInt16
  major : UInt16
  pool : ConstantPool
  access : UInt16
  name : UInt16
  superclass : UInt16
  interfaces : List UInt16
  fields : List MemberLayout
  methods : List MemberLayout
  attributes : List AttributeLayout

namespace ClassLayout

open AttributeLayout

variable (layout : ClassLayout)

def header : List UInt8 :=
  bytes32 ClassFile.magic ++ (bytes16 layout.minor ++ bytes16 layout.major)

def head : List UInt8 :=
  layout.header ++ (layout.pool.toBytes ++ (bytes16 layout.access ++ (bytes16 layout.name ++ (bytes16 layout.superclass
    ++ countedToBytes bytes16 layout.interfaces))))

def toBytes : List UInt8 :=
  layout.head ++ (countedToBytes MemberLayout.toBytes layout.fields
    ++ (countedToBytes MemberLayout.toBytes layout.methods ++ countedToBytes AttributeLayout.toBytes layout.attributes))

structure WellFormed : Prop where
  pool : layout.pool.Readable
  interfaceCount : layout.interfaces.length ≤ maxCount
  fieldCount : layout.fields.length ≤ maxCount
  fields : ∀ field ∈ layout.fields, field.WellFormed layout.pool .ofField
  methodCount : layout.methods.length ≤ maxCount
  methods : ∀ method ∈ layout.methods, method.WellFormed layout.pool .ofMethod
  attributeCount : layout.attributes.length ≤ maxCount
  attributes : ∀ attr ∈ layout.attributes, attr.WellFormed layout.pool .ofClass

/-! ### Where the parts begin -/

def fieldsStart : Nat :=
  layout.head.length + 2

def methodsStart : Nat :=
  layout.head.length + (countedToBytes MemberLayout.toBytes layout.fields).length + 2

def attributesStart : Nat :=
  layout.head.length + (countedToBytes MemberLayout.toBytes layout.fields).length
    + (countedToBytes MemberLayout.toBytes layout.methods).length + 2

/-! ### Locations -/

def slots (name : String) : List (List Slot) :=
  inLast layout.pool name AttributeContent.slots layout.attributesStart layout.attributes

/-- The bootstrap methods that dynamic calls go through. -/
def entries : List BootstrapEntry :=
  inLast layout.pool "BootstrapMethods" (AttributeContent.entries layout.pool) layout.attributesStart layout.attributes

/-- Where the file names texts: at each slot, with its place if it is open. -/
def locations : List (Option Place × Slot) :=
  let visible := (layout.slots "RuntimeVisibleAnnotations").flatten
  let invisible := (layout.slots "RuntimeInvisibleAnnotations").flatten
  (visible ++ invisible).map (some .onClass, ·)
    ++ (inRow MemberLayout.toBytes (fun position method => method.methodLocations layout.pool position layout.entries)
        layout.methodsStart layout.methods
      ++ inRow MemberLayout.toBytes (fun position field => field.fieldLocations layout.pool position)
        layout.fieldsStart layout.fields)

end ClassLayout

/-! ### Sites -/

namespace ConstantPool

variable (pool : ConstantPool)

/-- The site for a slot, if a string is named there whose text is readable. -/
def siteAt? (slot : Slot) : Option StringSite :=
  (pool.shownText? slot.kind slot.index).map (StringSite.unedited · slot)

def markedSiteAt? (location : Option Place × Slot) : Option (Option Place × StringSite) :=
  (pool.siteAt? location.2).map (location.1, ·)

end ConstantPool

end Retoken
