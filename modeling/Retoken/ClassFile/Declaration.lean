import Retoken.ClassFile.ConstantPool

/-!
# Class declarations

What a class file declares, as far as it can carry text: names, constants, instructions and annotations. Everything is parametrised by what stands at a string site. A freshly read class has a `StringSite` there; with plain texts in their place, two declarations are equal exactly when the files say the same.
-/

namespace Retoken

inductive Number where
  | integer (value : Int32)
  | float (bits : UInt32)
  | long (value : Int64)
  | double (bits : UInt64)
deriving DecidableEq, Repr

/-- A constant that can be loaded, stored in a field or passed to a bootstrap method. -/
inductive Loadable (σ : Type) where
  | string (site : σ)
  /-- A string whose bytes are no Unicode text, such as a surrogate that stands alone. -/
  | nonText
  | number (value : Number)
  | classRef (name : String)
  | methodType (descriptor : String)
  | methodHandle (handle : MethodHandle)
  | dynamic (name descriptor : String)
deriving DecidableEq, Repr

inductive Instruction (σ : Type) where
  | load (offset : Nat) (opcode : UInt8) (constant : Loadable σ)
  | invokeDynamic (offset : Nat) (name descriptor : String) (bootstrap : MethodHandle)
      (arguments : List (Loadable σ))
  | other (offset : Nat) (opcode : UInt8)
deriving DecidableEq, Repr

inductive ElementValue (σ : Type) where
  | string (site : σ)
  | nonText
  | number (tag : Char) (value : Number)
  | enumConstant (type name : String)
  | classRef (descriptor : String)
  | array (values : List (ElementValue σ))
  | nested (type : String) (members : List (String × ElementValue σ))

/-- An annotation as it stands on a declaration: its type, and the values given to its members. -/
structure AnnotationUse (σ : Type) where
  type : String
  members : List (String × ElementValue σ)

/-- The annotations on one declaration, apart by whether they can be seen at run time. -/
structure Annotations (σ : Type) where
  visible : List (AnnotationUse σ) := []
  invisible : List (AnnotationUse σ) := []

structure Field (σ : Type) where
  access : UInt16
  name : String
  descriptor : String
  constant? : Option (Loadable σ) := none
  annotations : Annotations σ := {}

structure Method (σ : Type) where
  access : UInt16
  name : String
  descriptor : String
  instructions : List (Instruction σ) := []
  annotations : Annotations σ := {}
  /-- One list of annotations for each parameter. -/
  visibleOnParameters : List (List (AnnotationUse σ)) := []
  invisibleOnParameters : List (List (AnnotationUse σ)) := []
  annotationDefault? : Option (ElementValue σ) := none

structure Declaration (σ : Type) where
  minor : UInt16
  major : UInt16
  access : UInt16
  name : String
  superclass? : Option String
  interfaces : List String
  fields : List (Field σ)
  methods : List (Method σ)
  annotations : Annotations σ

namespace Loadable

variable {σ : Type}

def site? : Loadable σ → Option σ
  | string site => some site
  | _ => none

end Loadable

end Retoken
