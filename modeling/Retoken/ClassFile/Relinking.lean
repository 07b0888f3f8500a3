import Retoken.ClassFile.Basic
import Retoken.ClassFile.PoolExtension
import Retoken.ClassFile.Visiting
import Std.Data.TreeMap
import Std.Data.TreeSet

/-!
# Writing a class file with other texts

No byte of the file moves except that the pool grows at its end. A site that wants another text is made to name a new constant by overwriting the index at its slot.

A slot of one byte cannot always hold the index of a new constant. So if such a slot names a string constant and wants another text, the constant itself is made to name the new text, and all other slots that named it and do not want that text get constants of their own. This includes the bootstrap arguments that no instruction leads to: they keep the text they had.
-/

namespace Retoken

/-- A slot that names a string constant, and the text it wants if not the one it has. -/
structure Reference where
  slot : Slot
  wanted? : Option String
deriving DecidableEq, Repr

namespace Reference

def ofSite (site : StringSite) : Reference :=
  ⟨site.slot, site.wanted?⟩

end Reference

/-- An index to be written at a slot. -/
structure Patch where
  kind : SlotKind
  index : UInt16
deriving DecidableEq, Repr

/-- The bytes that a patch puts at a position and behind it. -/
def Patch.bytes (patch : Patch) : List UInt8 :=
  match patch.kind with
  | .narrowString => [UInt8.ofNat patch.index.toNat]
  | .wideString | .utf8 => BigEndian.bytes16 patch.index

/-- Patches by the position at which they are to be written. -/
abbrev Patches := Std.TreeMap Nat Patch

namespace Patches

/-- Adds a patch. Two patches at one position have to agree. -/
def add (patches : Patches) (position : Nat) (patch : Patch) : Except ClassError Patches :=
  match patches[position]? with
  | some previous =>
    if previous.index = patch.index then .ok (patches.insert position patch)
    else .error (.conflictingSlot position)
  | none => .ok (patches.insert position patch)

/-- The bytes to be written, by position. -/
def bytes (patches : Patches) : Std.TreeMap Nat UInt8 :=
  patches.foldl (fun written position patch =>
    written.insertMany (patch.bytes.mapIdx fun i byte => (position + i, byte))) ∅

/-- The bytes from a position on, overwritten where there are patches. -/
def apply (patches : Patches) (position : Nat) (bytes : List UInt8) : List UInt8 :=
  let written := patches.bytes
  bytes.mapIdx fun i byte => written.getD (position + i) byte

end Patches

/-- What is to be changed in a file. -/
structure Relinking where
  extension : PoolExtension
  patches : Patches := ∅

abbrev RelinkingM (α : Type) := StateT Relinking (Except ClassError) α

namespace Relinking

/-- Extends the pool. -/
def extending {α : Type} (step : Extending α) : RelinkingM α := do
  let relinking ← get
  let (a, extension) ← step relinking.extension
  set { relinking with extension }
  return a

def patch (slot : Slot) (index : UInt16) : RelinkingM Unit := do
  let relinking ← get
  let patches ← relinking.patches.add slot.position ⟨slot.kind, index⟩
  set { relinking with patches }

/-- The index that the text constant of a string constant has. -/
def textIndex (pool : ConstantPool) (index : UInt16) : Except ClassError UInt16 := do
  match ← pool.get index with
  | .string text => return text
  | _ => ConstantPool.wrongKind .string index

/-- The text that a string constant itself has to take: the one wanted by the first slot of one byte. -/
def primary? (references : List Reference) : Option String :=
  (references.find? (·.slot.kind = .narrowString)).bind (·.wanted?)

/-- Gives a reference a constant of its own. -/
def redirect (storedText : UInt16) (reference : Reference) : RelinkingM Unit := do
  let index ← extending <| match reference.wanted? with
    | some text => PoolExtension.string text
    | none => PoolExtension.stringNaming storedText
  let slot := reference.slot
  if slot.kind = .narrowString ∧ 0xFF < index.toNat then
    throw (.narrowIndexOverflow slot.position index)
  patch slot index

/-- Settles all references to the string constant at an index. -/
def relinkString (pool : ConstantPool) (index : UInt16) (references : List Reference) :
    RelinkingM Unit := do
  if references.all (·.wanted?.isNone) then return
  let storedText ← textIndex pool index
  let primary? := primary? references
  if let some text := primary? then
    let text ← extending (PoolExtension.utf8 text)
    extending (PoolExtension.repoint index text)
  references.forM fun reference =>
    if reference.wanted? = primary? then pure () else redirect storedText reference

/-- Gives a site that names its text directly the text it wants. -/
def relinkText (reference : Reference) : RelinkingM Unit := do
  match reference.wanted? with
  | some text => patch reference.slot (← extending (PoolExtension.utf8 text))
  | none => return

/-- The references in the order of the constants they name, those to one constant in the order given. -/
def byIndex (references : List Reference) : List (UInt16 × List Reference) :=
  let groups : Std.TreeMap UInt16 (Array Reference) := references.foldl (fun groups reference =>
    groups.alter reference.slot.index fun group? => some ((group?.getD #[]).push reference)) ∅
  groups.toList.map fun (index, group) => (index, group.toList)

end Relinking

namespace ClassFile

open Relinking

/-- The sites that name string constants, and the bootstrap arguments that no site stands for. -/
def stringReferences (file : ClassFile) : List Reference :=
  let sites := file.declaration.sites.filter (·.slot.kind.namesString)
  let covered : Std.TreeSet Nat := Std.TreeSet.ofList (sites.map (·.slot.position))
  let uncovered := file.bootstrapStrings.filter fun slot => !covered.contains slot.position
  sites.map Reference.ofSite ++ uncovered.map fun slot => ⟨slot, none⟩

/-- The sites that name their texts directly. -/
def textReferences (file : ClassFile) : List Reference :=
  (file.declaration.sites.filter (!·.slot.kind.namesString)).map Reference.ofSite

/-- Settles every reference of the file. -/
def relink (file : ClassFile) : Except ClassError Relinking := do
  let settle : RelinkingM Unit := do
    (byIndex file.stringReferences).forM fun (index, references) =>
      relinkString file.pool index references
    file.textReferences.forM relinkText
  let (_, relinking) ← settle { extension := { base := file.pool } }
  return relinking

/-- How many bytes stand before the pool. -/
def poolStart : Nat := 8

/-- The position of the first byte after the pool. -/
def poolEnd (file : ClassFile) : Nat :=
  poolStart + file.pool.toBytes.length

/-- The file with the changes made. -/
def assemble (file : ClassFile) (relinking : Relinking) : List UInt8 :=
  file.bytes.take poolStart ++ relinking.extension.pool.toBytes
    ++ relinking.patches.apply file.poolEnd (file.bytes.drop file.poolEnd)

/-- The bytes of the file in which every site has the text it wants. -/
def toBytes (file : ClassFile) : Except ClassError (List UInt8) := do
  if file.declaration.isModified then return file.assemble (← file.relink) else return file.bytes

end ClassFile

end Retoken
