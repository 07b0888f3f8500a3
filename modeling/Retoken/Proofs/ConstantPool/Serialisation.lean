import Retoken.ClassFile.ConstantPool.Layout
import Retoken.Proofs.Reading

/-!
# How a pool is written

Reading a pool and writing it undo each other: a pool is read exactly from the bytes that `ConstantPool.toBytes` gives for it, provided that it is `Readable`. This says on the one hand where the pool of a file that was read ends, and on the other hand that a pool that was extended can be read again.
-/

namespace Retoken

open BigEndian Reader

def Cursor.Spells (start : Cursor) (bytes : List UInt8) (stop : Cursor) : Prop :=
  start.rest = bytes ++ stop.rest ∧ stop.position = start.position + bytes.length

variable {start middle stop : Cursor}

namespace Cursor.Spells

theorem of_rest {bytes rest : List UInt8} (hrest : start.rest = bytes ++ rest) :
    start.Spells bytes ⟨start.position + bytes.length, rest⟩ :=
  ⟨hrest, rfl⟩

theorem append_iff {first second : List UInt8} :
    start.Spells (first ++ second) stop
      ↔ ∃ middle, start.Spells first middle ∧ Cursor.Spells middle second stop := by
  constructor
  · rintro ⟨hrest, hposition⟩
    refine ⟨⟨start.position + first.length, second ++ stop.rest⟩, ⟨?_, rfl⟩, rfl, ?_⟩
    · rw [hrest, List.append_assoc]
    · rw [hposition, List.length_append, Nat.add_assoc]
  · rintro ⟨middle, ⟨hfirst, hfirstPosition⟩, hsecond, hsecondPosition⟩
    refine ⟨?_, ?_⟩
    · rw [hfirst, hsecond, List.append_assoc]
    · rw [hsecondPosition, hfirstPosition, List.length_append, Nat.add_assoc]

theorem append {first second : List UInt8} (hfirst : start.Spells first middle)
    (hsecond : middle.Spells second stop) : start.Spells (first ++ second) stop :=
  append_iff.mpr ⟨middle, hfirst, hsecond⟩

theorem cons_iff {byte : UInt8} {bytes : List UInt8} :
    start.Spells (byte :: bytes) stop
      ↔ ∃ middle, start.Spells [byte] middle ∧ Cursor.Spells middle bytes stop := by
  rw [← List.singleton_append, append_iff]

theorem u8_iff {byte : UInt8} : u8 start = .ok (byte, stop) ↔ start.Spells [byte] stop :=
  u8_eq_ok

end Cursor.Spells

/-! ### Constants -/

namespace Constant

/-- Whether the length of the constant fits where it is written. -/
def Writable (constant : Constant) : Prop :=
  ∀ bytes, constant = .utf8 bytes → bytes.length ≤ 65535

theorem spells_of_read {slot : Nat} {constant : Constant}
    (hread : Constant.read slot start = .ok (constant, stop)) :
    constant.Writable ∧ start.Spells constant.toBytes stop := by
  rw [Constant.read] at hread
  obtain ⟨tag, afterTag, htag, hread⟩ := bind_eq_ok.mp hread
  have hspells : ∀ {constant : Constant}, tag.toNat = constant.tag.toNat →
      afterTag.Spells constant.payload stop → start.Spells constant.toBytes stop := by
    intro constant hkind hpayload
    rw [UInt8.toNat_inj.mp hkind] at htag
    exact Cursor.Spells.append (Cursor.Spells.u8_iff.mp htag) hpayload
  generalize tag.toNat = kind at hread hspells
  split at hread
  case h_1 =>
    obtain ⟨length, afterLength, hlength, hread⟩ := bind_eq_ok.mp hread
    obtain ⟨bytes, _, hbytes, hpure⟩ := bind_eq_ok.mp hread
    obtain ⟨rfl, rfl⟩ := pure_eq_ok.mp hpure
    obtain ⟨hrest, hcount, hposition⟩ := take_eq_ok.mp hbytes
    have hword : UInt16.ofNat bytes.length = length := by rw [hcount, UInt16.ofNat_toNat]
    refine ⟨?_, hspells rfl (Cursor.Spells.append ?_ ⟨hrest, by rw [hposition, hcount]⟩)⟩
    · rintro _ ⟨⟩
      have := length.toNat_lt
      omega
    · rw [hword]
      exact u16_eq_ok.mp hlength
  case h_2 | h_3 =>
    obtain ⟨word, _, hword, hpure⟩ := bind_eq_ok.mp hread
    obtain ⟨rfl, rfl⟩ := pure_eq_ok.mp hpure
    exact ⟨nofun, hspells rfl (u32_eq_ok.mp hword)⟩
  case h_4 | h_5 =>
    obtain ⟨word, _, hword, hpure⟩ := bind_eq_ok.mp hread
    obtain ⟨rfl, rfl⟩ := pure_eq_ok.mp hpure
    exact ⟨nofun, hspells rfl (u64_eq_ok.mp hword)⟩
  case h_6 | h_7 | h_13 | h_16 | h_17 =>
    obtain ⟨index, _, hindex, hpure⟩ := bind_eq_ok.mp hread
    obtain ⟨rfl, rfl⟩ := pure_eq_ok.mp hpure
    exact ⟨nofun, hspells rfl (u16_eq_ok.mp hindex)⟩
  case h_12 =>
    obtain ⟨kind, afterKind, hkind, hread⟩ := bind_eq_ok.mp hread
    obtain ⟨reference, _, hreference, hpure⟩ := bind_eq_ok.mp hread
    obtain ⟨rfl, rfl⟩ := pure_eq_ok.mp hpure
    exact ⟨nofun, hspells rfl (Cursor.Spells.append (Cursor.Spells.u8_iff.mp hkind) (u16_eq_ok.mp hreference))⟩
  case h_18 => exact absurd hread fail_ne_ok
  all_goals
    obtain ⟨first, afterFirst, hfirst, hread⟩ := bind_eq_ok.mp hread
    obtain ⟨second, _, hsecond, hpure⟩ := bind_eq_ok.mp hread
    obtain ⟨rfl, rfl⟩ := pure_eq_ok.mp hpure
    exact ⟨nofun, hspells rfl (Cursor.Spells.append (u16_eq_ok.mp hfirst) (u16_eq_ok.mp hsecond))⟩

theorem read_of_spells (slot : Nat) {constant : Constant} (hwritable : constant.Writable)
    (hspells : start.Spells constant.toBytes stop) : Constant.read slot start = .ok (constant, stop) := by
  obtain ⟨afterTag, htag, hpayload⟩ := Cursor.Spells.cons_iff.mp hspells
  rw [Constant.read, run_bind (Cursor.Spells.u8_iff.mpr htag)]
  cases constant with
  | utf8 bytes =>
    obtain ⟨afterLength, hlength, hrest, hposition⟩ := Cursor.Spells.append_iff.mp hpayload
    have hcount : (UInt16.ofNat bytes.length).toNat = bytes.length := by
      have := hwritable bytes rfl
      rw [UInt16.toNat_ofNat']
      omega
    refine (run_bind (u16_eq_ok.mpr hlength)).trans ?_
    exact run_bind (take_eq_ok.mpr ⟨hrest, hcount.symm, by rw [hposition, hcount]⟩)
  | integer value => exact run_bind (u32_eq_ok.mpr hpayload)
  | float bits => exact run_bind (u32_eq_ok.mpr hpayload)
  | long value => exact run_bind (u64_eq_ok.mpr hpayload)
  | double bits => exact run_bind (u64_eq_ok.mpr hpayload)
  | classInfo | string | methodType | moduleInfo | packageInfo =>
    exact run_bind (u16_eq_ok.mpr hpayload)
  | methodHandle kind reference =>
    obtain ⟨afterKind, hkind, hreference⟩ := Cursor.Spells.cons_iff.mp hpayload
    refine (run_bind (Cursor.Spells.u8_iff.mpr hkind)).trans ?_
    exact run_bind (u16_eq_ok.mpr hreference)
  | member kind first second =>
    obtain ⟨afterFirst, hfirst, hsecond⟩ := Cursor.Spells.append_iff.mp hpayload
    cases kind <;>
      exact (run_bind (u16_eq_ok.mpr hfirst)).trans (run_bind (u16_eq_ok.mpr hsecond))
  | nameAndType first second | dynamic first second | invokeDynamic first second =>
    obtain ⟨afterFirst, hfirst, hsecond⟩ := Cursor.Spells.append_iff.mp hpayload
    exact (run_bind (u16_eq_ok.mpr hfirst)).trans (run_bind (u16_eq_ok.mpr hsecond))

end Constant

/-! ### Entries -/

namespace ConstantPool

theorem entriesToBytes_append (first second : List (Option Constant)) :
    entriesToBytes (first ++ second) = entriesToBytes first ++ entriesToBytes second :=
  List.flatMap_append

theorem entriesToBytes_cons (slot : Option Constant) (slots : List (Option Constant)) :
    entriesToBytes (slot :: slots) = entriesToBytes [slot] ++ entriesToBytes slots :=
  entriesToBytes_append [slot] slots

theorem entriesToBytes_some (constant : Constant) : entriesToBytes [some constant] = constant.toBytes :=
  List.flatMap_singleton ..

variable {pool : ConstantPool} {index : UInt16} {constant : Constant}

theorem lt_of_get? (hget : pool.get? index = some constant) : index.toNat < pool.slots.toList.length := by
  have hslot := Option.join_eq_some_iff.mp hget
  exact (Array.getElem?_eq_some_iff.mp hslot).1

theorem exists_split (hget : pool.get? index = some constant) :
    ∃ before behind, pool.slots.toList = before ++ some constant :: behind ∧ before.length = index.toNat := by
  have hslot : pool.slots.toList[index.toNat]? = some (some constant) := by
    rw [Array.getElem?_toList]
    exact Option.join_eq_some_iff.mp hget
  obtain ⟨hlt, hconstant⟩ := List.getElem?_eq_some_iff.mp hslot
  refine ⟨pool.slots.toList.take index.toNat, pool.slots.toList.drop (index.toNat + 1), ?_, ?_⟩
  · rw [← hconstant, List.getElem_cons_drop, List.take_append_drop]
  · rw [List.length_take]
    omega

theorem take_drop_entry (hget : pool.get? index = some constant) :
    ((entriesToBytes pool.slots.toList).drop (pool.entryOffset index.toNat)).take constant.toBytes.length
      = constant.toBytes := by
  obtain ⟨before, behind, hslots, hbefore⟩ := exists_split hget
  rw [entryOffset, hslots, ← hbefore, List.take_left, entriesToBytes_append, entriesToBytes_cons, entriesToBytes_some,
    List.drop_left, List.take_left]

end ConstantPool

/-! ### Slots -/

namespace ConstantPool

/-- Slots as reading leaves them: each holds a constant but for the second one of an eight-byte constant. -/
inductive Filled : List (Option Constant) → Prop where
  | nil : Filled []
  | narrow {constant : Constant} {slots : List (Option Constant)} (hwritable : constant.Writable)
      (hnarrow : constant.isWide = false) (hslots : Filled slots) : Filled (some constant :: slots)
  | wide {constant : Constant} {slots : List (Option Constant)} (hwritable : constant.Writable)
      (hwide : constant.isWide = true) (hslots : Filled slots) : Filled (some constant :: none :: slots)

theorem Filled.append {first second : List (Option Constant)} (hfirst : Filled first)
    (hsecond : Filled second) : Filled (first ++ second) := by
  induction hfirst with
  | nil => exact hsecond
  | narrow hwritable hnarrow _ ih => exact .narrow hwritable hnarrow ih
  | wide hwritable hwide _ ih => exact .wide hwritable hwide ih

theorem spells_of_readSlots {missing : Nat} {slots slots' : Array (Option Constant)}
    (hread : readSlots slots missing start = .ok (slots', stop)) :
    ∃ added, slots' = slots ++ added.toArray ∧ added.length = missing ∧ Filled added
      ∧ start.Spells (entriesToBytes added) stop := by
  induction missing using Nat.strongRecOn generalizing slots start with
  | ind missing ih =>
    cases missing with
    | zero =>
      obtain ⟨rfl, rfl⟩ := pure_eq_ok.mp hread
      exact ⟨[], by rw [Array.append_empty], rfl, .nil, rfl, rfl⟩
    | succ missing =>
      rw [readSlots] at hread
      obtain ⟨constant, middle, hconstant, hread⟩ := bind_eq_ok.mp hread
      obtain ⟨hwritable, hspells⟩ := Constant.spells_of_read hconstant
      by_cases hwide : constant.isWide
      · rw [if_pos hwide] at hread
        cases missing with
        | zero => exact absurd hread fail_ne_ok
        | succ missing =>
          obtain ⟨added, rfl, hlength, hfilled, hrest⟩ := ih missing (by omega) hread
          refine ⟨some constant :: none :: added, ?_, ?_, .wide hwritable hwide hfilled, ?_⟩
          · simp
          · rw [List.length_cons, List.length_cons, hlength]
          · exact hspells.append hrest
      · rw [if_neg hwide] at hread
        obtain ⟨added, rfl, hlength, hfilled, hrest⟩ := ih missing (by omega) hread
        refine ⟨some constant :: added, ?_, ?_, .narrow hwritable (by simpa using hwide) hfilled, ?_⟩
        · simp
        · rw [List.length_cons, hlength]
        · exact hspells.append hrest

theorem readSlots_of_spells (slots : Array (Option Constant)) {added : List (Option Constant)} (missing : Nat)
    (hfilled : Filled added) (hspells : start.Spells (entriesToBytes added) stop) :
    readSlots slots (added.length + missing) start = readSlots (slots ++ added.toArray) missing stop := by
  induction hfilled generalizing slots start with
  | nil =>
    obtain ⟨hrest, hposition⟩ := hspells
    obtain rfl : start = stop := by
      cases start
      cases stop
      cases hrest
      cases hposition
      rfl
    rw [Array.append_empty, List.length_nil, Nat.zero_add]
  | @narrow constant added hwritable hnarrow _ ih =>
    obtain ⟨middle, hconstant, hrest⟩ := Cursor.Spells.append_iff.mp hspells
    rw [List.length_cons, Nat.add_right_comm, readSlots, run_bind (Constant.read_of_spells _ hwritable hconstant),
      if_neg (by rw [hnarrow]; nofun), ih _ hrest]
    simp
  | @wide constant added hwritable hwide _ ih =>
    obtain ⟨middle, hconstant, hrest⟩ := Cursor.Spells.append_iff.mp hspells
    rw [List.length_cons, List.length_cons, Nat.add_right_comm, Nat.add_right_comm added.length, readSlots,
      run_bind (Constant.read_of_spells _ hwritable hconstant), if_pos hwide]
    simp only
    rw [ih _ hrest]
    simp

/-! ### Pools -/

/-- A pool that reading can give. -/
structure Readable (pool : ConstantPool) : Prop where
  filled : ∃ added, pool.slots.toList = none :: added ∧ Filled added
  size_le : pool.slots.size ≤ 65535
  unbroken : pool.firstBroken? = none

theorem entriesToBytes_none (slots : List (Option Constant)) :
    entriesToBytes (none :: slots) = entriesToBytes slots := rfl

theorem spells_of_read {pool : ConstantPool} (hread : ConstantPool.read start = .ok (pool, stop)) :
    pool.Readable ∧ start.Spells pool.toBytes stop := by
  rw [ConstantPool.read] at hread
  obtain ⟨size, afterSize, hsize, hread⟩ := bind_eq_ok.mp hread
  cases hcount : size.toNat with
  | zero =>
    simp only [hcount] at hread
    exact absurd hread fail_ne_ok
  | succ count =>
    simp only [hcount] at hread
    obtain ⟨slots, afterSlots, hslots, hread⟩ := bind_eq_ok.mp hread
    obtain ⟨added, rfl, hlength, hfilled, hspells⟩ := spells_of_readSlots hslots
    cases hbroken : (⟨#[none] ++ added.toArray⟩ : ConstantPool).firstBroken? with
    | some slot =>
      simp only [hbroken] at hread
      exact absurd hread fail_ne_ok
    | none =>
      simp only [hbroken] at hread
      obtain ⟨rfl, rfl⟩ := pure_eq_ok.mp hread
      have htotal : (#[none] ++ added.toArray).size = size.toNat := by
        rw [hcount, ← hlength]
        simp
      have hword : UInt16.ofNat (#[none] ++ added.toArray).size = size := by
        rw [htotal, UInt16.ofNat_toNat]
      have hsizeSpelled : start.Spells (bytes16 (UInt16.ofNat (#[none] ++ added.toArray).size)) afterSize := by
        rw [hword]
        exact u16_eq_ok.mp hsize
      refine ⟨⟨⟨added, by simp, hfilled⟩, ?_, hbroken⟩, hsizeSpelled.append ?_⟩
      · have := size.toNat_lt
        simp only [htotal]
        omega
      · simpa [entriesToBytes_none] using hspells

def ofSlots (slots : List (Option Constant)) : ConstantPool :=
  ⟨(none :: slots).toArray⟩

theorem eq_ofSlots {pool : ConstantPool} {slots : List (Option Constant)} (hslots : pool.slots.toList = none :: slots) :
    pool = ofSlots slots := by
  rw [ofSlots, ← hslots]

theorem toBytes_ofSlots {slots : List (Option Constant)} {count : UInt16} (hcount : count.toNat = slots.length + 1) :
    (ofSlots slots).toBytes = bytes16 count ++ entriesToBytes slots := by
  have hsize : (ofSlots slots).slots.size = count.toNat := by simp [ofSlots, hcount]
  rw [toBytes, hsize, UInt16.ofNat_toNat]
  rfl

/-- Once the slots are filled it remains to check their references. -/
theorem read_of_filled {slots : List (Option Constant)} (hfilled : Filled slots) (hsize : slots.length < 65535)
    (hspells : start.Spells (ofSlots slots).toBytes stop) :
    ConstantPool.read start
      = match (ofSlots slots).firstBroken? with
        | some slot => .error (.malformed (.brokenReference slot))
        | none => .ok (ofSlots slots, stop) := by
  have hcount : (UInt16.ofNat (slots.length + 1)).toNat = slots.length + 1 := by
    rw [UInt16.toNat_ofNat']
    omega
  rw [toBytes_ofSlots hcount] at hspells
  obtain ⟨afterCount, hcountSpelled, hentries⟩ := Cursor.Spells.append_iff.mp hspells
  have hfill : readSlots #[none] slots.length afterCount = .ok ((none :: slots).toArray, stop) := by
    refine (readSlots_of_spells #[none] 0 hfilled hentries).trans ?_
    simp [readSlots]
  rw [ConstantPool.read, run_bind (u16_eq_ok.mpr hcountSpelled)]
  simp only [hcount]
  rw [run_bind hfill]
  change (match (ofSlots slots).firstBroken? with
    | some slot => fail (.brokenReference slot)
    | none => pure (ofSlots slots) : Reader ConstantPool) stop = _
  cases (ofSlots slots).firstBroken? with
  | none => rfl
  | some slot => rfl

theorem read_of_spells {pool : ConstantPool} (hreadable : pool.Readable)
    (hspells : start.Spells pool.toBytes stop) : ConstantPool.read start = .ok (pool, stop) := by
  obtain ⟨⟨slots, hslots, hfilled⟩, hsize, hunbroken⟩ := hreadable
  obtain rfl := eq_ofSlots hslots
  have hshort : slots.length < 65535 := by
    simp only [ofSlots, List.size_toArray, List.length_cons] at hsize
    omega
  rw [read_of_filled hfilled hshort hspells, hunbroken]

end ConstantPool

end Retoken
