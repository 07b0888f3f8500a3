import Retoken.Proofs.ConstantPool.References

/-!
# Bytes that are no pool

Bytes that are to be read as a pool may end too early. If they do not and there is no pool in them, they are faulty in one of four ways, each of which leads to an error of its own: the count is zero, a tag names no kind of constant, an eight-byte constant takes the last slot, or a reference is not of the required kind.
-/

namespace Retoken

open BigEndian Reader

variable {α β : Type} {start stop : Cursor}

/-! ### Failures of readers -/

namespace Reader

def FailsAtEnd (reader : Reader α) : Prop :=
  ∀ start error, reader start = .error error → ∃ offset needed, error = .truncated offset needed

theorem bind_eq_error {first : Reader α} {next : α → Reader β} {error : ClassError} :
    (first >>= next) start = .error error
      ↔ first start = .error error ∨ ∃ a middle, first start = .ok (a, middle) ∧ next a middle = .error error := by
  simp only [bind, StateT.bind, Except.bind]
  cases first start with
  | error error' => simp
  | ok result => simp [Prod.ext_iff]

namespace FailsAtEnd

theorem pure (a : α) : FailsAtEnd (pure a : Reader α) := by
  intro start error hrun
  cases hrun

theorem u8 : FailsAtEnd u8 := by
  rintro ⟨position, _ | ⟨a, rest⟩⟩ error hrun
  · cases hrun
    exact ⟨_, _, rfl⟩
  · cases hrun

theorem u16 : FailsAtEnd u16 := by
  rintro ⟨position, _ | ⟨a, _ | ⟨b, rest⟩⟩⟩ error hrun
  · cases hrun
    exact ⟨_, _, rfl⟩
  · cases hrun
    exact ⟨_, _, rfl⟩
  · cases hrun

theorem u32 : FailsAtEnd u32 := by
  intro start error hrun
  rw [Reader.u32] at hrun
  split at hrun
  · cases hrun
  · cases hrun
    exact ⟨_, _, rfl⟩

theorem take (n : Nat) : FailsAtEnd (take n) := by
  intro start error hrun
  simp only [Reader.take] at hrun
  split at hrun
  · cases hrun
    exact ⟨_, _, rfl⟩
  · cases hrun

theorem bind {first : Reader α} {next : α → Reader β} (hfirst : FailsAtEnd first) (hnext : ∀ a, FailsAtEnd (next a)) :
    FailsAtEnd (first >>= next) := by
  intro start error hrun
  rcases bind_eq_error.mp hrun with hrun | ⟨a, middle, -, hrun⟩
  · exact hfirst start error hrun
  · exact hnext a middle error hrun

theorem u64 : FailsAtEnd u64 :=
  bind u32 fun _ => bind u32 fun _ => pure _

theorem ne_malformed {reader : Reader α} (hreader : FailsAtEnd reader) {fault : Malformation} :
    reader start ≠ .error (.malformed fault) := by
  intro hrun
  obtain ⟨offset, needed, herror⟩ := hreader start _ hrun
  cases herror

end FailsAtEnd

end Reader

/-! ### Constants -/

namespace Constant

def IsTag (tag : UInt8) : Prop :=
  ∃ constant : Constant, constant.tag = tag

theorem not_malformed_of_isTag {slot : Nat} {tag : UInt8} {rest : List UInt8} (htag : IsTag tag)
    (hrest : start.rest = tag :: rest) {fault : Malformation} :
    Constant.read slot start ≠ .error (.malformed fault) := by
  intro hrun
  obtain ⟨constant, rfl⟩ := htag
  have hfirst : Reader.u8 start = .ok (constant.tag, ⟨start.position + 1, rest⟩) := u8_eq_ok.mpr ⟨hrest, rfl⟩
  rw [Constant.read, run_bind hfirst] at hrun
  have hword : ∀ make : UInt16 → Constant, FailsAtEnd (do return make (← u16)) :=
    fun make => .bind .u16 fun _ => .pure _
  have hpair : ∀ make : UInt16 → UInt16 → Constant, FailsAtEnd (do return make (← u16) (← u16)) :=
    fun make => .bind .u16 fun _ => .bind .u16 fun _ => .pure _
  cases constant with
  | utf8 bytes => exact FailsAtEnd.ne_malformed (.bind .u16 fun _ => .bind (.take _) fun _ => .pure _) hrun
  | integer | float => exact FailsAtEnd.ne_malformed (.bind .u32 fun _ => .pure _) hrun
  | long | double => exact FailsAtEnd.ne_malformed (.bind .u64 fun _ => .pure _) hrun
  | classInfo | string | methodType | moduleInfo | packageInfo => exact (hword _).ne_malformed hrun
  | methodHandle => exact FailsAtEnd.ne_malformed (.bind .u8 fun _ => .bind .u16 fun _ => .pure _) hrun
  | member kind => cases kind <;> exact (hpair _).ne_malformed hrun
  | nameAndType | dynamic | invokeDynamic => exact (hpair _).ne_malformed hrun

theorem read_of_not_isTag {slot : Nat} {tag : UInt8} {rest : List UInt8} (htag : ¬ IsTag tag)
    (hrest : start.rest = tag :: rest) :
    Constant.read slot start = .error (.malformed (.unknownConstantTag tag slot)) := by
  have hother : ∀ constant : Constant, tag.toNat ≠ constant.tag.toNat := fun constant heq =>
    htag ⟨constant, (UInt8.toNat_inj.mp heq).symm⟩
  have hfirst : Reader.u8 start = .ok (tag, ⟨start.position + 1, rest⟩) := u8_eq_ok.mpr ⟨hrest, rfl⟩
  rw [Constant.read, run_bind hfirst]
  generalize tag.toNat = kind at hother ⊢
  split
  case h_1 => exact absurd rfl (hother (utf8 []))
  case h_2 => exact absurd rfl (hother (integer 0))
  case h_3 => exact absurd rfl (hother (float 0))
  case h_4 => exact absurd rfl (hother (long 0))
  case h_5 => exact absurd rfl (hother (double 0))
  case h_6 => exact absurd rfl (hother (classInfo 0))
  case h_7 => exact absurd rfl (hother (string 0))
  case h_8 => exact absurd rfl (hother (member .field 0 0))
  case h_9 => exact absurd rfl (hother (member .method 0 0))
  case h_10 => exact absurd rfl (hother (member .interfaceMethod 0 0))
  case h_11 => exact absurd rfl (hother (nameAndType 0 0))
  case h_12 => exact absurd rfl (hother (methodHandle 0 0))
  case h_13 => exact absurd rfl (hother (methodType 0))
  case h_14 => exact absurd rfl (hother (dynamic 0 0))
  case h_15 => exact absurd rfl (hother (invokeDynamic 0 0))
  case h_16 => exact absurd rfl (hother (moduleInfo 0))
  case h_17 => exact absurd rfl (hother (packageInfo 0))
  case h_18 => rfl

/-- Reading a constant fails before the end of the file only if its tag names no kind of constant. -/
theorem read_eq_malformed {slot : Nat} {fault : Malformation} :
    Constant.read slot start = .error (.malformed fault)
      ↔ ∃ tag rest, start.rest = tag :: rest ∧ ¬ IsTag tag ∧ fault = .unknownConstantTag tag slot := by
  constructor
  · intro hrun
    cases hrest : start.rest with
    | nil =>
      have hcut : Reader.u8 start = .error (.truncated start.position 1) := by
        rw [Reader.u8, hrest]
      rw [Constant.read, bind_eq_error.mpr (.inl hcut)] at hrun
      cases hrun
    | cons tag rest =>
      by_cases htag : IsTag tag
      · exact absurd hrun (not_malformed_of_isTag htag hrest)
      · rw [read_of_not_isTag htag hrest] at hrun
        cases hrun
        exact ⟨tag, rest, rfl, htag, rfl⟩
  · rintro ⟨tag, rest, hrest, htag, rfl⟩
    exact read_of_not_isTag htag hrest

theorem writable_of_isWide (constant : Constant) (hwide : constant.isWide = true) : constant.Writable := by
  rintro bytes rfl
  cases hwide

end Constant

/-! ### Slots -/

namespace ConstantPool

/-- What is wrong with bytes from which as many slots as are missing are to be filled, the first of them at the given index. -/
inductive SlotFault (first missing : Nat) : List UInt8 → Malformation → Prop where
  | unknownTag {slots : List (Option Constant)} {tag : UInt8} {rest : List UInt8} (hfilled : Filled slots)
      (hmissing : slots.length < missing) (htag : ¬ Constant.IsTag tag) :
      SlotFault first missing (entriesToBytes slots ++ tag :: rest) (.unknownConstantTag tag (first + slots.length))
  | wideOverrun {slots : List (Option Constant)} {constant : Constant} {rest : List UInt8} (hfilled : Filled slots)
      (hmissing : slots.length + 1 = missing) (hwide : constant.isWide = true) :
      SlotFault first missing (entriesToBytes slots ++ (constant.toBytes ++ rest))
        (.wideConstantOverrun (first + slots.length))

namespace SlotFault

variable {first missing : Nat} {bytes : List UInt8} {fault : Malformation}

theorem behind {before : List (Option Constant)} (hbefore : Filled before)
    (hfault : SlotFault (first + before.length) missing bytes fault) :
    SlotFault first (missing + before.length) (entriesToBytes before ++ bytes) fault := by
  cases hfault with
  | @unknownTag slots tag rest hfilled hmissing htag =>
    have hbehind : SlotFault first (missing + before.length) (entriesToBytes (before ++ slots) ++ tag :: rest)
        (.unknownConstantTag tag (first + (before ++ slots).length)) :=
      .unknownTag (hbefore.append hfilled) (by rw [List.length_append]; omega) htag
    rwa [entriesToBytes_append, List.append_assoc, List.length_append, ← Nat.add_assoc] at hbehind
  | @wideOverrun slots last rest hfilled hmissing hwide =>
    have hbehind : SlotFault first (missing + before.length)
      (entriesToBytes (before ++ slots) ++ (last.toBytes ++ rest))
        (.wideConstantOverrun (first + (before ++ slots).length)) :=
      .wideOverrun (hbefore.append hfilled) (by rw [List.length_append]; omega) hwide
    rwa [entriesToBytes_append, List.append_assoc, List.length_append, ← Nat.add_assoc] at hbehind

end SlotFault

section Slots

variable {slots : Array (Option Constant)} {missing : Nat} {fault : Malformation}

/-- By induction on the slots that are missing: a constant that was read stands in front of a fault of the rest. -/
theorem slotFault_of_readSlots (hrun : readSlots slots missing start = .error (.malformed fault)) :
    SlotFault slots.size missing start.rest fault := by
  induction missing using Nat.strongRecOn generalizing slots start with
  | ind missing ih =>
    cases missing with
    | zero => cases hrun
    | succ missing =>
      rw [readSlots] at hrun
      rcases bind_eq_error.mp hrun with hrun | ⟨constant, middle, hconstant, hrun⟩
      · obtain ⟨tag, rest, hrest, htag, rfl⟩ := Constant.read_eq_malformed.mp hrun
        rw [hrest]
        exact .unknownTag .nil (Nat.succ_pos _) htag
      · obtain ⟨hwritable, hspells⟩ := Constant.spells_of_read hconstant
        rw [hspells.1]
        by_cases hwide : constant.isWide
        · rw [if_pos hwide] at hrun
          cases missing with
          | zero =>
            cases hrun
            exact .wideOverrun .nil rfl hwide
          | succ missing =>
            have hfault := ih missing (by omega) hrun
            rw [Array.size_push, Array.size_push] at hfault
            have hbehind := hfault.behind (.wide hwritable hwide .nil)
            rwa [entriesToBytes_cons, entriesToBytes_some, entriesToBytes_none, List.append_assoc] at hbehind
        · rw [if_neg hwide] at hrun
          have hfault := ih missing (by omega) hrun
          rw [Array.size_push] at hfault
          have hbehind := hfault.behind (.narrow hwritable (by simpa using hwide) .nil)
          rwa [entriesToBytes_some] at hbehind

theorem readSlots_of_slotFault (hfault : SlotFault slots.size missing start.rest fault) :
    readSlots slots missing start = .error (.malformed fault) := by
  generalize hrest : start.rest = bytes at hfault
  cases hfault with
  | @unknownTag added tag rest hfilled hmissing htag =>
    obtain ⟨after, rfl⟩ : ∃ after, missing = added.length + (after + 1) := ⟨missing - added.length - 1, by omega⟩
    rw [readSlots_of_spells slots _ hfilled (.of_rest hrest), readSlots]
    refine bind_eq_error.mpr (.inl ?_)
    rw [Constant.read_of_not_isTag htag rfl]
    simp
  | @wideOverrun added constant rest hfilled hmissing hwide =>
    subst hmissing
    have hspells : Cursor.Spells ⟨start.position + (entriesToBytes added).length, constant.toBytes ++ rest⟩
        constant.toBytes _ := .of_rest rfl
    have hread := Constant.read_of_spells (slots ++ added.toArray).size (constant.writable_of_isWide hwide) hspells
    rw [readSlots_of_spells slots _ hfilled (.of_rest hrest), readSlots, run_bind hread, if_pos hwide]
    rw [Array.size_append, List.size_toArray]
    rfl

theorem readSlots_eq_malformed :
    readSlots slots missing start = .error (.malformed fault) ↔ SlotFault slots.size missing start.rest fault :=
  ⟨slotFault_of_readSlots, readSlots_of_slotFault⟩

end Slots

/-! ### Pools -/

/-- What is wrong with bytes that are to be read as a pool although they do not end too early. -/
inductive Fault : List UInt8 → Malformation → Prop where
  | empty {rest : List UInt8} : Fault (bytes16 0 ++ rest) .emptyPool
  | slots {count : UInt16} {missing : Nat} {bytes : List UInt8} {fault : Malformation}
      (hcount : count.toNat = missing + 1)
      (hfault : SlotFault 1 missing bytes fault) : Fault (bytes16 count ++ bytes) fault
  | mistyped {slots : List (Option Constant)} {slot : Nat} {rest : List UInt8} (hfilled : Filled slots)
      (hsize : slots.length < 65535) (hmistyped : (ofSlots slots).FirstMistyped slot) :
      Fault ((ofSlots slots).toBytes ++ rest) (.brokenReference slot)

theorem fault_of_read {fault : Malformation} (hrun : ConstantPool.read start = .error (.malformed fault)) :
    Fault start.rest fault := by
  rw [ConstantPool.read] at hrun
  rcases bind_eq_error.mp hrun with hrun | ⟨count, afterCount, hcount, hrun⟩
  · exact absurd hrun FailsAtEnd.u16.ne_malformed
  rw [(u16_eq_ok.mp hcount).1]
  cases hmissing : count.toNat with
  | zero =>
    obtain rfl : count = 0 := UInt16.toNat_inj.mp hmissing
    cases hrun
    exact .empty
  | succ missing =>
    simp only [hmissing] at hrun
    rcases bind_eq_error.mp hrun with hrun | ⟨slots, afterSlots, hslots, hrun⟩
    · exact .slots hmissing (readSlots_eq_malformed.mp hrun)
    obtain ⟨added, rfl, hlength, hfilled, hspells⟩ := spells_of_readSlots hslots
    have hpool : (⟨#[none] ++ added.toArray⟩ : ConstantPool) = ofSlots added := eq_ofSlots (by simp)
    have hshort := count.toNat_lt
    rw [hpool] at hrun
    cases hbroken : (ofSlots added).firstBroken? with
    | none =>
      simp only [hbroken] at hrun
      cases hrun
    | some slot =>
      simp only [hbroken] at hrun
      cases hrun
      rw [hspells.1, ← List.append_assoc, ← toBytes_ofSlots (by omega)]
      exact .mistyped hfilled (by omega) (firstBroken?_eq_some.mp hbroken)

theorem read_of_fault {fault : Malformation} (hfault : Fault start.rest fault) :
    ConstantPool.read start = .error (.malformed fault) := by
  generalize hrest : start.rest = bytes at hfault
  cases hfault with
  | @empty rest =>
    have hcount : u16 start = .ok (0, ⟨start.position + 2, rest⟩) := u16_eq_ok.mpr ⟨hrest, rfl⟩
    rw [ConstantPool.read, run_bind hcount]
    rfl
  | @slots count missing bytes _ hmissing hfault =>
    have hcount : u16 start = .ok (count, ⟨start.position + 2, bytes⟩) := u16_eq_ok.mpr ⟨hrest, rfl⟩
    rw [ConstantPool.read, run_bind hcount]
    simp only [hmissing]
    exact bind_eq_error.mpr (.inl (readSlots_eq_malformed.mpr hfault))
  | @mistyped slots slot rest hfilled hsize hmistyped =>
    rw [read_of_filled hfilled hsize (.of_rest hrest), firstBroken?_eq_some.mpr hmistyped]

/-- Reading a pool fails before the end of the file exactly at these faults. -/
theorem read_eq_malformed {fault : Malformation} :
    ConstantPool.read start = .error (.malformed fault) ↔ Fault start.rest fault :=
  ⟨fault_of_read, read_of_fault⟩

end ConstantPool

end Retoken
