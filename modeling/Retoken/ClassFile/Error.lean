import Retoken.Text.Hex
import Retoken.Text.Quoted

/-!
# What can be wrong with a class file

A file may end too early, contradict the format, use an annotation value of a kind the format does not define, or fail to hold the text that was put into it. Each error is named by its cause; the wording is given once, in `ClassError.message`.
-/

namespace Retoken

/-- The kinds of constant that another constant, a member or an instruction may require. -/
inductive ConstantKind where
  | utf8
  | classInfo
  | string
  | nameAndType
  | member
  | methodHandle
deriving DecidableEq, Repr

def ConstantKind.name : ConstantKind → String
  | utf8 => "Utf8"
  | classInfo => "Class"
  | string => "String"
  | nameAndType => "NameAndType"
  | member => "Fieldref/Methodref"
  | methodHandle => "MethodHandle"

/-- The ways in which the bytes of a complete file contradict the format. -/
inductive Malformation where
  | emptyPool
  | unknownConstantTag (tag : UInt8) (index : Nat)
  | wideConstantOverrun (index : Nat)
  | brokenReference (index : Nat)
  | unusableIndex (index : UInt16)
  | wrongKind (required : ConstantKind) (index : UInt16)
  | undecodableText (index : UInt16)
  | notLoadable (index : UInt16) (position : Nat)
  | unknownOpcode (opcode : UInt8) (offset : Nat)
  | wideModifies (opcode : UInt8) (offset : Nat)
  | switchBoundsReversed (offset : Nat)
  | negativePairCount (offset : Nat)
  | nonzeroPadding (offset : Nat)
  | notInvokeDynamic (offset : Nat)
  | missingBootstrapMethod (offset : Nat) (bootstrap : UInt16)
  | elementMismatch (tag : UInt8) (index : UInt16)
  | elementTooDeep (limit : Nat)
  | attributeSize (name : String) (start declared held : Nat)
  | repeatedCode (method descriptor : String)
  | trailingBytes (count : Nat)
deriving DecidableEq, Repr

inductive ClassError where
  | truncated (offset needed : Nat)
  | badMagic (magic : UInt32)
  | malformed (cause : Malformation)
  | unsupportedElement (tag : UInt8)
  | poolOverflow
  | stringTooLong (size : Nat)
  | narrowIndexOverflow (position : Nat) (index : UInt16)
  | conflictingSlot (position : Nat)
deriving DecidableEq, Repr

namespace Malformation

def message : Malformation → String
  | emptyPool => "constant_pool_count is zero"
  | unknownConstantTag tag index => s!"unknown constant pool tag {tag.toNat} at index {index}"
  | wideConstantOverrun index => s!"8-byte constant at index {index} overruns the pool"
  | brokenReference index => s!"constant {index} has a dangling or mistyped reference"
  | unusableIndex index => s!"constant pool index {index.toNat} is not usable"
  | wrongKind required index => s!"constant {index.toNat} is not a {required.name} entry"
  | undecodableText index => s!"constant {index.toNat} is not valid modified UTF-8"
  | notLoadable index position =>
    s!"constant {index.toNat} referenced at offset {position} is not loadable"
  | unknownOpcode opcode offset =>
    s!"unknown opcode 0x{Text.upperHex 2 opcode.toNat} at offset {offset}"
  | wideModifies opcode offset =>
    s!"wide at offset {offset} modifies opcode 0x{Text.upperHex 2 opcode.toNat}"
  | switchBoundsReversed offset => s!"tableswitch at offset {offset} has high < low"
  | negativePairCount offset => s!"lookupswitch at offset {offset} has negative npairs"
  | nonzeroPadding offset => s!"invokedynamic at offset {offset} has non-zero padding"
  | notInvokeDynamic offset =>
    s!"invokedynamic at offset {offset} does not name an InvokeDynamic constant"
  | missingBootstrapMethod offset bootstrap =>
    s!"invokedynamic at offset {offset} uses missing bootstrap method {bootstrap.toNat}"
  | elementMismatch tag index =>
    s!"annotation value tag {Text.quotedChar (Char.ofNat tag.toNat)} does not match constant {index.toNat}"
  | elementTooDeep limit => s!"annotation values nested deeper than {limit} levels"
  | attributeSize name start declared held =>
    s!"{name} attribute at offset {start} declares {declared} bytes but holds {held}"
  | repeatedCode method descriptor => s!"method {method}{descriptor} has more than one Code attribute"
  | trailingBytes count => s!"{count} trailing bytes after class attributes"

end Malformation

namespace ClassError

def message : ClassError → String
  | truncated offset needed => s!"truncated class file: needed {needed} bytes at offset {offset}"
  | badMagic magic => s!"bad magic number 0x{Text.upperHex 8 magic.toNat}"
  | malformed cause => "malformed class file: " ++ cause.message
  | unsupportedElement tag =>
    s!"unsupported annotation element value tag {Text.quotedChar (Char.ofNat tag.toNat)}"
  | poolOverflow => "constant pool would exceed 65535 entries"
  | stringTooLong size => s!"string constant is {size} bytes long once encoded (limit 65535)"
  | narrowIndexOverflow position index =>
    s!"ldc operand at offset {position} would need constant index {index.toNat}"
  | conflictingSlot position =>
    s!"shared bootstrap argument at offset {position} has conflicting values"

/-- The category under which reports list the error. -/
def category : ClassError → String
  | truncated .. | badMagic .. | malformed .. => "malformed-class"
  | unsupportedElement .. => "unsupported-annotation-value"
  | poolOverflow | stringTooLong .. | narrowIndexOverflow .. | conflictingSlot .. => "encode-failed"

end ClassError

end Retoken
