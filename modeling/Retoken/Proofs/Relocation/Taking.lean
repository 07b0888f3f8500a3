import Retoken.Proofs.Relocation.Stages

/-!
# What attributes are taken for

Each attribute is taken into account by its name: the body is read into one part of what is collected, in place of what stood there, or it is not looked at. The three kinds of owners are taken apart here, so that what is proved about collecting is a case for each part.
-/

namespace Retoken

open Reader

variable {pool : ConstantPool} {attr : Attribute}

namespace Field

variable {field field' : Field StringSite}

/-- What a field becomes by an attribute with a name. -/
inductive Takes (pool : ConstantPool) (attr : Attribute) (field : Field StringSite) :
    String → Field StringSite → Prop where
  | constant {constant : Loadable StringSite} (hparse : attr.parse (readConstant pool) = .ok constant) :
      Takes pool attr field "ConstantValue" { field with constant? := some constant }
  | visible {visible : List (AnnotationUse StringSite)}
      (hparse : attr.parse (AnnotationUse.readAll pool) = .ok visible) :
      Takes pool attr field "RuntimeVisibleAnnotations" { field with annotations := { field.annotations with visible } }
  | invisible {invisible : List (AnnotationUse StringSite)}
      (hparse : attr.parse (AnnotationUse.readAll pool) = .ok invisible) :
      Takes pool attr field "RuntimeInvisibleAnnotations" { field with annotations :=
        { field.annotations with invisible } }
  | other {name : String} (hconstant : name ≠ "ConstantValue") (hvisible : name ≠ "RuntimeVisibleAnnotations")
      (hinvisible : name ≠ "RuntimeInvisibleAnnotations") : Takes pool attr field name field

theorem addAttribute_eq_ok : addAttribute pool field attr = .ok field' ↔ Takes pool attr field attr.name field' := by
  rw [addAttribute]
  generalize attr.name = name
  constructor
  · intro hadd
    split at hadd
    case h_4 hconstant hvisible hinvisible =>
      cases hadd
      exact .other hconstant hvisible hinvisible
    all_goals
      obtain ⟨_, hparse, hset⟩ := except_bind_eq_ok.mp hadd
      cases hset
    case h_1 => exact .constant hparse
    case h_2 => exact .visible hparse
    case h_3 => exact .invisible hparse
  · intro htakes
    cases htakes with
    | constant hparse | visible hparse | invisible hparse => exact except_bind_eq_ok.mpr ⟨_, hparse, rfl⟩
    | other =>
      split
      case h_4 => rfl
      all_goals contradiction

end Field

namespace PendingMethod

variable {pending pending' : PendingMethod}

inductive Takes (pool : ConstantPool) (attr : Attribute) (pending : PendingMethod) : String → PendingMethod → Prop where
  | code {code behind : Cursor} (hnone : pending.code? = none) (hread : readCode attr.body = .ok (code, behind)) :
      Takes pool attr pending "Code" { pending with code? := some code }
  | visible {visible : List (AnnotationUse StringSite)}
      (hparse : attr.parse (AnnotationUse.readAll pool) = .ok visible) :
      Takes pool attr pending "RuntimeVisibleAnnotations"
        { pending with method := { pending.method with annotations := { pending.method.annotations with visible } } }
  | invisible {invisible : List (AnnotationUse StringSite)}
      (hparse : attr.parse (AnnotationUse.readAll pool) = .ok invisible) :
      Takes pool attr pending "RuntimeInvisibleAnnotations"
        { pending with method := { pending.method with annotations := { pending.method.annotations with invisible } } }
  | visibleOnParameters {visibleOnParameters : List (List (AnnotationUse StringSite))}
      (hparse : attr.parse (AnnotationUse.readPerParameter pool) = .ok visibleOnParameters) :
      Takes pool attr pending "RuntimeVisibleParameterAnnotations"
        { pending with method := { pending.method with visibleOnParameters } }
  | invisibleOnParameters {invisibleOnParameters : List (List (AnnotationUse StringSite))}
      (hparse : attr.parse (AnnotationUse.readPerParameter pool) = .ok invisibleOnParameters) :
      Takes pool attr pending "RuntimeInvisibleParameterAnnotations"
        { pending with method := { pending.method with invisibleOnParameters } }
  | annotationDefault {value : ElementValue StringSite} (hparse : attr.parse (ElementValue.read pool 0) = .ok value) :
      Takes pool attr pending "AnnotationDefault"
        { pending with method := { pending.method with annotationDefault? := some value } }
  | other {name : String} (hcode : name ≠ "Code") (hvisible : name ≠ "RuntimeVisibleAnnotations")
      (hinvisible : name ≠ "RuntimeInvisibleAnnotations") (hvisibleOn : name ≠ "RuntimeVisibleParameterAnnotations")
      (hinvisibleOn : name ≠ "RuntimeInvisibleParameterAnnotations") (hdefault : name ≠ "AnnotationDefault") :
      Takes pool attr pending name pending

theorem addAttribute_eq_ok :
    addAttribute pool pending attr = .ok pending' ↔ Takes pool attr pending attr.name pending' := by
  rw [addAttribute]
  generalize attr.name = name
  constructor
  · intro hadd
    split at hadd
    case h_1 =>
      split at hadd
      · cases hadd
      · rename_i hsome
        obtain ⟨⟨code, behind⟩, hread, hset⟩ := except_bind_eq_ok.mp hadd
        cases hset
        exact .code (by simpa using hsome) hread
    case h_7 hcode hvisible hinvisible hvisibleOn hinvisibleOn hdefault =>
      cases hadd
      exact .other hcode hvisible hinvisible hvisibleOn hinvisibleOn hdefault
    all_goals
      obtain ⟨_, hparse, hset⟩ := except_bind_eq_ok.mp hadd
      cases hset
    case h_2 => exact .visible hparse
    case h_3 => exact .invisible hparse
    case h_4 => exact .visibleOnParameters hparse
    case h_5 => exact .invisibleOnParameters hparse
    case h_6 => exact .annotationDefault hparse
  · intro htakes
    cases htakes with
    | code hnone hread =>
      simp only [hnone]
      exact except_bind_eq_ok.mpr ⟨_, hread, rfl⟩
    | visible hparse | invisible hparse | visibleOnParameters hparse | invisibleOnParameters hparse
    | annotationDefault hparse => exact except_bind_eq_ok.mpr ⟨_, hparse, rfl⟩
    | other =>
      split
      case h_7 => rfl
      all_goals contradiction

end PendingMethod

namespace ClassFile.ClassAttributes

variable {attributes attributes' : ClassAttributes}

inductive Takes (pool : ConstantPool) (attr : Attribute) (attributes : ClassAttributes) :
    String → ClassAttributes → Prop where
  | visible {visible : List (AnnotationUse StringSite)}
      (hparse : attr.parse (AnnotationUse.readAll pool) = .ok visible) :
      Takes pool attr attributes "RuntimeVisibleAnnotations"
        { attributes with annotations := { attributes.annotations with visible } }
  | invisible {invisible : List (AnnotationUse StringSite)}
      (hparse : attr.parse (AnnotationUse.readAll pool) = .ok invisible) :
      Takes pool attr attributes "RuntimeInvisibleAnnotations"
        { attributes with annotations := { attributes.annotations with invisible } }
  | bootstrapMethods {bootstrapMethods : List BootstrapMethod}
      (hparse : attr.parse (BootstrapMethod.readAll pool) = .ok bootstrapMethods) :
      Takes pool attr attributes "BootstrapMethods" { attributes with bootstrapMethods }
  | other {name : String} (hvisible : name ≠ "RuntimeVisibleAnnotations")
      (hinvisible : name ≠ "RuntimeInvisibleAnnotations")
      (hbootstrap : name ≠ "BootstrapMethods") : Takes pool attr attributes name attributes

theorem add_eq_ok : add pool attributes attr = .ok attributes' ↔ Takes pool attr attributes attr.name attributes' := by
  rw [add]
  generalize attr.name = name
  constructor
  · intro hadd
    split at hadd
    case h_4 hvisible hinvisible hbootstrap =>
      cases hadd
      exact .other hvisible hinvisible hbootstrap
    all_goals
      obtain ⟨_, hparse, hset⟩ := except_bind_eq_ok.mp hadd
      cases hset
    case h_1 => exact .visible hparse
    case h_2 => exact .invisible hparse
    case h_3 => exact .bootstrapMethods hparse
  · intro htakes
    cases htakes with
    | visible hparse | invisible hparse | bootstrapMethods hparse => exact except_bind_eq_ok.mpr ⟨_, hparse, rfl⟩
    | other =>
      split
      case h_4 => rfl
      all_goals contradiction

end ClassFile.ClassAttributes

end Retoken
