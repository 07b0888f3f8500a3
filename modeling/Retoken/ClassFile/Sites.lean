import Retoken.ClassFile.Declaration

/-!
# The sites of a declaration

A declaration is a container of its sites, and every part of it has its sites in one order: first the annotations of the class; then for each method its instructions, its annotations, those of its parameters and its annotation default; then for each field its constant and its annotations; run-time visible annotations before invisible ones, and values left to right, depth first.

`foldl` looks at the sites in this order. `traverse` rebuilds the declaration with an effect at each site, and `map` without one.
-/

namespace Retoken

variable {σ τ β : Type} {m : Type → Type}

namespace ElementValue

mutual

def foldl (f : β → σ → β) (init : β) : ElementValue σ → β
  | string site => f init site
  | array values => foldlItems f init values
  | nested _ members => foldlMembers f init members
  | nonText | number .. | enumConstant .. | classRef _ => init

def foldlItems (f : β → σ → β) (init : β) : List (ElementValue σ) → β
  | [] => init
  | value :: values => foldlItems f (foldl f init value) values

def foldlMembers (f : β → σ → β) (init : β) : List (String × ElementValue σ) → β
  | [] => init
  | (_, value) :: members => foldlMembers f (foldl f init value) members

end

mutual

def traverse [Monad m] (f : σ → m τ) : ElementValue σ → m (ElementValue τ)
  | string site => return string (← f site)
  | nonText => return nonText
  | number tag value => return number tag value
  | enumConstant type name => return enumConstant type name
  | classRef descriptor => return classRef descriptor
  | array values => return array (← traverseItems f [] values)
  | nested type members => return nested type (← traverseMembers f [] members)

/-- Continues after the values already rebuilt, which are given latest first. -/
def traverseItems [Monad m] (f : σ → m τ) (rebuilt : List (ElementValue τ)) :
    List (ElementValue σ) → m (List (ElementValue τ))
  | [] => return rebuilt.reverse
  | value :: values => do
    let value ← traverse f value
    traverseItems f (value :: rebuilt) values

/-- Continues after the members already rebuilt, which are given latest first. -/
def traverseMembers [Monad m] (f : σ → m τ) (rebuilt : List (String × ElementValue τ)) :
    List (String × ElementValue σ) → m (List (String × ElementValue τ))
  | [] => return rebuilt.reverse
  | (name, value) :: members => do
    let value ← traverse f value
    traverseMembers f ((name, value) :: rebuilt) members

end

end ElementValue

namespace AnnotationUse

def foldl (f : β → σ → β) (init : β) (use : AnnotationUse σ) : β :=
  ElementValue.foldlMembers f init use.members

def traverse [Monad m] (f : σ → m τ) (use : AnnotationUse σ) : m (AnnotationUse τ) :=
  return { use with members := ← ElementValue.traverseMembers f [] use.members }

def map (f : σ → τ) (use : AnnotationUse σ) : AnnotationUse τ :=
  Id.run (use.traverse fun site => pure (f site))

end AnnotationUse

namespace ElementValue

def map (f : σ → τ) (value : ElementValue σ) : ElementValue τ :=
  Id.run (value.traverse fun site => pure (f site))

end ElementValue

namespace Annotations

def foldl (f : β → σ → β) (init : β) (annotations : Annotations σ) : β :=
  annotations.invisible.foldl (AnnotationUse.foldl f)
    (annotations.visible.foldl (AnnotationUse.foldl f) init)

def traverse [Monad m] (f : σ → m τ) (annotations : Annotations σ) : m (Annotations τ) :=
  return {
    visible := ← annotations.visible.mapM (AnnotationUse.traverse f)
    invisible := ← annotations.invisible.mapM (AnnotationUse.traverse f) }

def map (f : σ → τ) (annotations : Annotations σ) : Annotations τ :=
  Id.run (annotations.traverse fun site => pure (f site))

end Annotations

namespace Loadable

def foldl (f : β → σ → β) (init : β) : Loadable σ → β
  | string site => f init site
  | _ => init

def traverse [Monad m] (f : σ → m τ) : Loadable σ → m (Loadable τ)
  | string site => return string (← f site)
  | nonText => return nonText
  | number value => return number value
  | classRef name => return classRef name
  | methodType descriptor => return methodType descriptor
  | methodHandle handle => return methodHandle handle
  | dynamic name descriptor => return dynamic name descriptor

def map (f : σ → τ) (constant : Loadable σ) : Loadable τ :=
  Id.run (constant.traverse fun site => pure (f site))

end Loadable

namespace Instruction

def foldl (f : β → σ → β) (init : β) : Instruction σ → β
  | load _ _ constant => constant.foldl f init
  | invokeDynamic _ _ _ _ arguments => arguments.foldl (Loadable.foldl f) init
  | other .. => init

def traverse [Monad m] (f : σ → m τ) : Instruction σ → m (Instruction τ)
  | load offset opcode constant => return load offset opcode (← constant.traverse f)
  | invokeDynamic offset name descriptor bootstrap arguments =>
    return invokeDynamic offset name descriptor bootstrap (← arguments.mapM (Loadable.traverse f))
  | other offset opcode => return other offset opcode

def map (f : σ → τ) (instruction : Instruction σ) : Instruction τ :=
  Id.run (instruction.traverse fun site => pure (f site))

end Instruction

namespace Field

def foldl (f : β → σ → β) (init : β) (field : Field σ) : β :=
  field.annotations.foldl f
    (match field.constant? with
    | some constant => constant.foldl f init
    | none => init)

def traverse [Monad m] (f : σ → m τ) (field : Field σ) : m (Field τ) :=
  return { field with
    constant? := ← field.constant?.mapM (Loadable.traverse f)
    annotations := ← field.annotations.traverse f }

end Field

namespace Method

def foldl (f : β → σ → β) (init : β) (method : Method σ) : β :=
  let overParameters := List.foldl (List.foldl (AnnotationUse.foldl f))
  let declared := method.annotations.foldl f (method.instructions.foldl (Instruction.foldl f) init)
  let annotated :=
    overParameters (overParameters declared method.visibleOnParameters) method.invisibleOnParameters
  match method.annotationDefault? with
  | some value => value.foldl f annotated
  | none => annotated

def traverse [Monad m] (f : σ → m τ) (method : Method σ) : m (Method τ) :=
  return { method with
    instructions := ← method.instructions.mapM (Instruction.traverse f)
    annotations := ← method.annotations.traverse f
    visibleOnParameters := ← method.visibleOnParameters.mapM (List.mapM (AnnotationUse.traverse f))
    invisibleOnParameters := ← method.invisibleOnParameters.mapM (List.mapM (AnnotationUse.traverse f))
    annotationDefault? := ← method.annotationDefault?.mapM (ElementValue.traverse f) }

end Method

namespace Declaration

def foldl (f : β → σ → β) (init : β) (declaration : Declaration σ) : β :=
  declaration.fields.foldl (Field.foldl f)
    (declaration.methods.foldl (Method.foldl f) (declaration.annotations.foldl f init))

/-- The methods come before the fields here, whatever their order in the file. -/
def traverse [Monad m] (f : σ → m τ) (declaration : Declaration σ) : m (Declaration τ) := do
  let annotations ← declaration.annotations.traverse f
  let methods ← declaration.methods.mapM (Method.traverse f)
  let fields ← declaration.fields.mapM (Field.traverse f)
  return { declaration with annotations, methods, fields }

def map (f : σ → τ) (declaration : Declaration σ) : Declaration τ :=
  Id.run (declaration.traverse fun site => pure (f site))

/-- All sites, in order. -/
def sites (declaration : Declaration σ) : List σ :=
  (declaration.foldl Array.push #[]).toList

end Declaration

end Retoken
