/-!
# String sites

A string site is one place of a class file that refers to a text constant by its index. The site remembers where that index is written, so that it can be made to name another constant later.
-/

namespace Retoken

/-- How a site refers to its text. -/
inductive SlotKind where
  /-- One byte, naming a string constant: the operand of the short load instruction. -/
  | narrowString
  /-- Two bytes, naming a string constant: wide load operands, field constants and bootstrap arguments. -/
  | wideString
  /-- Two bytes, naming a text constant directly: string values of annotations. -/
  | utf8
deriving DecidableEq, Repr

namespace SlotKind

/-- How many bytes the index takes. -/
def width : SlotKind → Nat
  | narrowString => 1
  | wideString | utf8 => 2

def namesString : SlotKind → Bool
  | narrowString | wideString => true
  | utf8 => false

end SlotKind

/-- The index of a constant, and where in the file it is written. -/
structure Slot where
  kind : SlotKind
  position : Nat
  index : UInt16
deriving DecidableEq, Repr

structure StringSite where
  /-- The text found in the file. -/
  stored : String
  /-- The text wanted in its place. -/
  text : String
  slot : Slot
deriving DecidableEq, Repr

namespace StringSite

def unedited (text : String) (slot : Slot) : StringSite :=
  { stored := text, text, slot }

def isModified (site : StringSite) : Bool :=
  site.text != site.stored

/-- The text that the site wants if it is not the one it has. -/
def wanted? (site : StringSite) : Option String :=
  if site.isModified then some site.text else none

end StringSite

end Retoken
