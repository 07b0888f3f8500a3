import Retoken.Binary.BigEndian

/-!
# How annotation values are written

An annotation value with pool indices in place of what they name, and its bytes. This is the layout that reading an annotation has to undo.
-/

namespace Retoken

open BigEndian

inductive ElementLayout where
  | number (tag : Char) (index : UInt16)
  | string (text : UInt16)
  | enumConstant (type name : UInt16)
  | classRef (descriptor : UInt16)
  | array (items : List ElementLayout)
  | nested (type : UInt16) (members : List (UInt16 × ElementLayout))

namespace ElementLayout

def tagByte (tag : Char) : UInt8 :=
  UInt8.ofNat tag.toNat

/-- A two-byte count. -/
def countBytes {α : Type} (counted : List α) : List UInt8 :=
  bytes16 (UInt16.ofNat counted.length)

mutual

def toBytes : ElementLayout → List UInt8
  | number tag index => tagByte tag :: bytes16 index
  | string text => tagByte 's' :: bytes16 text
  | enumConstant type name => tagByte 'e' :: bytes16 type ++ bytes16 name
  | classRef descriptor => tagByte 'c' :: bytes16 descriptor
  | array items => tagByte '[' :: countBytes items ++ itemsToBytes items
  | nested type members => tagByte '@' :: bytes16 type ++ countBytes members ++ membersToBytes members

def itemsToBytes : List ElementLayout → List UInt8
  | [] => []
  | item :: items => toBytes item ++ itemsToBytes items

def membersToBytes : List (UInt16 × ElementLayout) → List UInt8
  | [] => []
  | (name, value) :: members => bytes16 name ++ toBytes value ++ membersToBytes members

end

end ElementLayout

/-- An annotation on a declaration, with pool indices. -/
structure AnnotationLayout where
  type : UInt16
  members : List (UInt16 × ElementLayout)

/-- An annotation is written like a nested one, but without a tag. -/
def AnnotationLayout.toBytes (layout : AnnotationLayout) : List UInt8 :=
  bytes16 layout.type ++ ElementLayout.countBytes layout.members
    ++ ElementLayout.membersToBytes layout.members

end Retoken
