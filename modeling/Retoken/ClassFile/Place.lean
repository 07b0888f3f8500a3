import Retoken.ClassFile.Sites

/-!
# Places of open sites

A site is open if tokens may be replaced there. All are but one kind: an argument of a dynamic call keeps its text unless the call builds a string from a template. `Declaration.located` marks each open site with the place where it stands, and visiting a declaration is a traversal that calls the visitor at the marked sites.
-/

namespace Retoken

variable {σ : Type} {m : Type → Type}

namespace MethodHandle

/-- Whether calls through this bootstrap method build a string from a template and constants. -/
def isStringConcat (handle : MethodHandle) : Bool :=
  handle.owner == "java/lang/invoke/StringConcatFactory" && handle.name == "makeConcatWithConstants"

end MethodHandle

/-- How messages name a method. -/
structure MethodLabel where
  name : String
  descriptor : String
deriving DecidableEq, Repr

/-- Where in a class an open site stands. -/
inductive Place where
  | onClass
  | load (method : MethodLabel) (offset : Nat)
  | concatArgument (method : MethodLabel) (offset argument : Nat)
  | onMethod (method : MethodLabel)
  | onParameter (method : MethodLabel) (parameter : Nat)
  | annotationDefault (method : MethodLabel)
  | fieldConstant (field : String)
  | onField (field : String)
deriving DecidableEq, Repr

def Place.label : Place → String
  | onClass => "class annotation"
  | load ⟨name, descriptor⟩ offset => s!"{name}{descriptor} @{offset} ldc"
  | concatArgument ⟨name, descriptor⟩ offset argument =>
    s!"{name}{descriptor} @{offset} concat argument {argument}"
  | onMethod ⟨name, descriptor⟩ => s!"{name}{descriptor} annotation"
  | onParameter ⟨name, descriptor⟩ parameter =>
    s!"{name}{descriptor} parameter {parameter} annotation"
  | annotationDefault ⟨name, descriptor⟩ => s!"{name}{descriptor} annotation default"
  | fieldConstant field => s!"field {field} constant"
  | onField field => s!"field {field} annotation"

/-! ### Marking the sites -/

def Instruction.located (method : MethodLabel) : Instruction σ → Instruction (Option Place × σ)
  | load offset opcode constant =>
    load offset opcode (constant.map (some (.load method offset), ·))
  | invokeDynamic offset name descriptor bootstrap arguments =>
    invokeDynamic offset name descriptor bootstrap <| arguments.mapIdx fun i argument =>
      argument.map
        (if bootstrap.isStringConcat then some (.concatArgument method offset i) else none, ·)
  | other offset opcode => other offset opcode

def Method.located (method : Method σ) : Method (Option Place × σ) :=
  let label : MethodLabel := ⟨method.name, method.descriptor⟩
  let parameters (uses : List (List (AnnotationUse σ))) :=
    uses.mapIdx fun i uses => uses.map (·.map (some (.onParameter label i), ·))
  { method with
    instructions := method.instructions.map (·.located label)
    annotations := method.annotations.map (some (.onMethod label), ·)
    visibleOnParameters := parameters method.visibleOnParameters
    invisibleOnParameters := parameters method.invisibleOnParameters
    annotationDefault? := method.annotationDefault?.map (·.map (some (.annotationDefault label), ·)) }

def Field.located (field : Field σ) : Field (Option Place × σ) :=
  { field with
    constant? := field.constant?.map (·.map (some (.fieldConstant field.name), ·))
    annotations := field.annotations.map (some (.onField field.name), ·) }

def Declaration.located (declaration : Declaration σ) : Declaration (Option Place × σ) :=
  { declaration with
    annotations := declaration.annotations.map (some .onClass, ·)
    methods := declaration.methods.map (·.located)
    fields := declaration.fields.map (·.located) }

/-! ### Visiting the marked sites -/

/-- How many sites were visited, and at how many of them the visitor reported a change. -/
structure Tally where
  sites : Nat := 0
  replaced : Nat := 0
deriving DecidableEq, Repr

namespace Tally

def changed (tally : Tally) : Bool :=
  tally.replaced > 0

def count (changed : Bool) (tally : Tally) : Tally :=
  ⟨tally.sites + 1, tally.replaced + (if changed then 1 else 0)⟩

end Tally

end Retoken
