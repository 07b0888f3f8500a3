import Retoken.ClassFile.Loading
import Retoken.Proofs.Reading

/-!
# What a look-up has found

Every look-up in a constant pool follows a chain of indices and fails at the first constant that is missing or of the wrong kind. Each theorem here says which constants a successful look-up has met. Read from right to left they say that a pool in which the same constants stand gives the same answer, which is how answers are carried from one pool to another.
-/

namespace Retoken.ConstantPool

variable {pool : ConstantPool} {index : UInt16}

theorem get_eq_ok {constant : Constant} : pool.get index = .ok constant ↔ pool.get? index = some constant := by
  rw [get]
  cases pool.get? index with
  | none => simp
  | some found => simp

theorem utf8Bytes_eq_ok {bytes : List UInt8} :
    pool.utf8Bytes index = .ok bytes ↔ pool.get? index = some (.utf8 bytes) := by
  rw [utf8Bytes, except_bind_eq_ok]
  constructor
  · rintro ⟨constant, hget, hbytes⟩
    cases constant with
    | utf8 found =>
      cases hbytes
      exact get_eq_ok.mp hget
    | _ => cases hbytes
  · intro hget
    exact ⟨_, get_eq_ok.mpr hget, rfl⟩

theorem text_eq_ok {text : String} :
    pool.text index = .ok text
      ↔ ∃ bytes, pool.get? index = some (.utf8 bytes)
        ∧ Text.ModifiedUtf8.toString? bytes = some text := by
  rw [ConstantPool.text, except_bind_eq_ok]
  constructor
  · rintro ⟨bytes, hbytes, htext⟩
    refine ⟨bytes, utf8Bytes_eq_ok.mp hbytes, ?_⟩
    cases hdecoded : Text.ModifiedUtf8.toString? bytes with
    | none => simp [hdecoded] at htext
    | some decoded =>
      simp only [hdecoded] at htext
      cases htext
      rfl
  · rintro ⟨bytes, hget, hdecoded⟩
    refine ⟨bytes, utf8Bytes_eq_ok.mpr hget, ?_⟩
    simp only [hdecoded]
    rfl

theorem className_eq_ok {name : String} :
    pool.className index = .ok name
      ↔ ∃ text, pool.get? index = some (.classInfo text) ∧ pool.text text = .ok name := by
  rw [className, except_bind_eq_ok]
  constructor
  · rintro ⟨constant, hget, hname⟩
    cases constant with
    | classInfo text => exact ⟨text, get_eq_ok.mp hget, hname⟩
    | _ => cases hname
  · rintro ⟨text, hget, hname⟩
    exact ⟨_, get_eq_ok.mpr hget, hname⟩

theorem nameAndType_eq_ok {name descriptor : String} :
    pool.nameAndType index = .ok (name, descriptor)
      ↔ ∃ nameIndex descriptorIndex, pool.get? index = some (.nameAndType nameIndex descriptorIndex)
        ∧ pool.text nameIndex = .ok name ∧ pool.text descriptorIndex = .ok descriptor := by
  rw [nameAndType, except_bind_eq_ok]
  constructor
  · rintro ⟨constant, hget, hpair⟩
    cases constant with
    | nameAndType nameIndex descriptorIndex =>
      simp only [except_bind_eq_ok] at hpair
      obtain ⟨name', hname, descriptor', hdescriptor, hpair⟩ := hpair
      cases hpair
      exact ⟨nameIndex, descriptorIndex, get_eq_ok.mp hget, hname, hdescriptor⟩
    | _ => cases hpair
  · rintro ⟨nameIndex, descriptorIndex, hget, hname, hdescriptor⟩
    refine ⟨_, get_eq_ok.mpr hget, ?_⟩
    simp only [hname, hdescriptor]
    rfl

theorem member_eq_ok {owner name descriptor : String} :
    pool.member index = .ok (owner, name, descriptor)
      ↔ ∃ kind ownerIndex pairIndex, pool.get? index = some (.member kind ownerIndex pairIndex)
        ∧ pool.className ownerIndex = .ok owner
        ∧ pool.nameAndType pairIndex = .ok (name, descriptor) := by
  rw [member, except_bind_eq_ok]
  constructor
  · rintro ⟨constant, hget, hmember⟩
    cases constant with
    | member kind ownerIndex pairIndex =>
      simp only [except_bind_eq_ok] at hmember
      obtain ⟨owner', howner, pair, hpair, hmember⟩ := hmember
      cases hmember
      exact ⟨kind, ownerIndex, pairIndex, get_eq_ok.mp hget, howner, hpair⟩
    | _ => cases hmember
  · rintro ⟨kind, ownerIndex, pairIndex, hget, howner, hpair⟩
    refine ⟨_, get_eq_ok.mpr hget, ?_⟩
    simp only [howner, hpair]
    rfl

theorem methodHandle_eq_ok {handle : MethodHandle} :
    pool.methodHandle index = .ok handle
      ↔ ∃ reference, pool.get? index = some (.methodHandle handle.kind reference)
        ∧ pool.member reference = .ok (handle.owner, handle.name, handle.descriptor) := by
  rw [methodHandle, except_bind_eq_ok]
  constructor
  · rintro ⟨constant, hget, hhandle⟩
    cases constant with
    | methodHandle kind reference =>
      simp only [except_bind_eq_ok] at hhandle
      obtain ⟨⟨owner, name, descriptor⟩, hmember, hhandle⟩ := hhandle
      cases hhandle
      exact ⟨reference, get_eq_ok.mp hget, hmember⟩
    | _ => cases hhandle
  · rintro ⟨reference, hget, hmember⟩
    refine ⟨_, get_eq_ok.mpr hget, ?_⟩
    simp only [hmember]
    rfl

def textAt? (pool : ConstantPool) (index : UInt16) : Option String :=
  match pool.get? index with
  | some (.utf8 bytes) => Text.ModifiedUtf8.toString? bytes
  | _ => none

/-- The text that a slot of the given kind shows if it holds the given index. -/
def shownText? (pool : ConstantPool) (kind : SlotKind) (index : UInt16) : Option String :=
  if kind.namesString then
    match pool.get? index with
    | some (.string text) => pool.textAt? text
    | _ => none
  else pool.textAt? index

theorem textAt?_eq_some {text : String} :
    pool.textAt? index = some text
      ↔ ∃ bytes, pool.get? index = some (.utf8 bytes)
        ∧ Text.ModifiedUtf8.toString? bytes = some text := by
  rw [textAt?]
  constructor
  · intro htext
    split at htext
    · exact ⟨_, ‹_›, htext⟩
    · cases htext
  · rintro ⟨bytes, hget, htext⟩
    simp only [hget, htext]

theorem shownText?_string {kind : SlotKind} (hkind : kind.namesString = true) {text : String} :
    pool.shownText? kind index = some text
      ↔ ∃ textIndex, pool.get? index = some (.string textIndex)
        ∧ pool.textAt? textIndex = some text := by
  rw [shownText?, if_pos hkind]
  constructor
  · intro htext
    split at htext
    · exact ⟨_, ‹_›, htext⟩
    · cases htext
  · rintro ⟨textIndex, hget, htext⟩
    simp only [hget, htext]

/-- Only whether a string constant is named matters for what is shown. -/
theorem shownText?_congr {kind kind' : SlotKind} (hkind : kind.namesString = true)
    (hkind' : kind'.namesString = true) : pool.shownText? kind index = pool.shownText? kind' index := by
  rw [shownText?, shownText?, if_pos hkind, if_pos hkind']

theorem shownText?_utf8 : pool.shownText? .utf8 index = pool.textAt? index := rfl

end Retoken.ConstantPool
