import Retoken.Proofs.ConstantPool.Faults

/-!
# Pools and their bytes

A pool is well-formed if each eight-byte constant takes two slots, the number of slots fits two bytes, and all references are of the required kinds. These are the pools that reading gives: the bytes they are written as lead to them again, whatever follows, and other bytes that do not end too early are refused with their fault.

The index in a string constant is patched later, so where it stands matters too. That position is not kept in the pool, but it can be computed from it, and it is where the reader stood when it read the index.
-/

namespace Retoken

open BigEndian Reader

theorem Cursor.Reaches.rest_eq {file : List UInt8} {position : Nat} {stop : Cursor}
    (hreaches : Cursor.Reaches ⟨position, file.drop position⟩ stop) : stop.rest = file.drop stop.position := by
  obtain ⟨bytes, hrest, hposition⟩ := hreaches
  simp only at hrest hposition
  rw [hposition, ← List.drop_drop, hrest, List.drop_left]

namespace ConstantPool

variable {pool : ConstantPool} {start stop : Cursor} {index : UInt16} {constant : Constant} {text : UInt16}

structure WellFormed (pool : ConstantPool) : Prop where
  filled : ∃ slots, pool.slots.toList = none :: slots ∧ Filled slots
  size_le : pool.slots.size ≤ 65535
  typed : ∀ constant, some constant ∈ pool.slots → pool.WellTyped constant

theorem readable_iff_wellFormed : pool.Readable ↔ pool.WellFormed := by
  have htyped : pool.firstBroken? = none ↔ ∀ constant, some constant ∈ pool.slots → pool.WellTyped constant := by
    simp only [firstBroken?_eq_none, refersWell_iff]
  constructor
  · intro hreadable
    exact ⟨hreadable.filled, hreadable.size_le, htyped.mp hreadable.unbroken⟩
  · intro hformed
    exact ⟨hformed.filled, hformed.size_le, htyped.mpr hformed.typed⟩

theorem Filled.prefix {first second : List (Option Constant)} (hfilled : Filled (first ++ some constant :: second)) :
    Filled first := by
  generalize hslots : first ++ some constant :: second = slots at hfilled
  induction hfilled generalizing first with
  | nil => simp at hslots
  | @narrow head tail hwritable hnarrow _ ih =>
    cases first with
    | nil => exact .nil
    | cons slot first =>
      obtain ⟨rfl, htail⟩ := List.cons.inj hslots
      exact .narrow hwritable hnarrow (ih htail)
  | @wide head tail hwritable hwide _ ih =>
    match first, hslots with
    | [], _ => exact .nil
    | [slot], hslots => simp at hslots
    | slot :: second :: first, hslots =>
      simp only [List.cons_append, List.cons.injEq] at hslots
      obtain ⟨rfl, rfl, htail⟩ := hslots
      exact .wide hwritable hwide (ih htail)

/-- Slot 0 holds nothing, and the other slots below a constant are filled. -/
theorem WellFormed.exists_below (hformed : pool.WellFormed) (hget : pool.get? index = some constant) :
    ∃ before behind, pool.slots.toList = none :: (before ++ some constant :: behind) ∧ index.toNat = before.length + 1
      ∧ Filled before := by
  obtain ⟨slots, hslots, hfilled⟩ := hformed.filled
  obtain ⟨below, behind, hsplit, hbelow⟩ := exists_split hget
  rw [hslots] at hsplit
  cases below with
  | nil => cases hsplit
  | cons slot before =>
    obtain ⟨rfl, rfl⟩ := List.cons.inj hsplit
    exact ⟨before, behind, hslots, hbelow.symm, hfilled.prefix⟩

/-- The position of the index in the string constant at an index of the pool, whose count stands at the given position. -/
def stringIndexPosition (pool : ConstantPool) (position : Nat) (index : UInt16) : Nat :=
  position + 2 + pool.entryOffset index.toNat + 1

/-- The reader stands at the cursor when it has read the count and filled the slots below an index. -/
def EntryAt (pool : ConstantPool) (start : Cursor) (index : UInt16) (entry : Cursor) : Prop :=
  ∃ afterCount, u16 start = .ok (UInt16.ofNat pool.slots.size, afterCount)
    ∧ readSlots #[none] (index.toNat - 1) afterCount = .ok (pool.slots.take index.toNat, entry)

theorem exists_entryAt (hformed : pool.WellFormed) (hspells : start.Spells pool.toBytes stop)
    (hget : pool.get? index = some constant) :
    ∃ entry after, pool.EntryAt start index entry ∧ start.Reaches entry ∧ entry.Spells constant.toBytes after
      ∧ entry.position = start.position + 2 + pool.entryOffset index.toNat ∧ after.position ≤ stop.position := by
  obtain ⟨before, behind, hslots, hindex, hfilled⟩ := hformed.exists_below hget
  obtain ⟨afterCount, hcount, hentries⟩ := Cursor.Spells.append_iff.mp hspells
  rw [hslots, entriesToBytes_none, entriesToBytes_append, entriesToBytes_cons, entriesToBytes_some] at hentries
  obtain ⟨entry, hbefore, hbehind⟩ := Cursor.Spells.append_iff.mp hentries
  obtain ⟨after, hentry, hrest⟩ := Cursor.Spells.append_iff.mp hbehind
  have htake : pool.slots.take index.toNat = #[none] ++ before.toArray := by
    apply Array.toList_inj.mp
    simp [hslots, hindex]
  have hoffset : pool.entryOffset index.toNat = (entriesToBytes before).length := by
    rw [entryOffset, hslots, hindex, List.take_succ_cons, List.take_left, entriesToBytes_none]
  have hfill := readSlots_of_spells #[none] 0 hfilled hbefore
  rw [← htake] at hfill
  refine ⟨entry, after, ⟨afterCount, u16_eq_ok.mpr hcount, ?_⟩, ⟨_, hcount.append hbefore⟩, hentry, ?_, ?_⟩
  · rw [hindex, Nat.add_sub_cancel, ← hindex]
    exact hfill
  · have hcountPosition : afterCount.position = start.position + 2 := hcount.2
    rw [hoffset, hbefore.2, hcountPosition]
  · rw [hrest.2]
    omega

structure StandsIn (pool : ConstantPool) (file : List UInt8) (position : Nat) (stop : Cursor) : Prop where
  wellFormed : pool.WellFormed
  written : (file.drop position).take (stop.position - position) = pool.toBytes
  count : ∃ stored : UInt16, (file.drop position).take 2 = bytes16 stored ∧ stored.toNat = pool.slots.size
  bounds : position ≤ stop.position ∧ stop.position ≤ file.length
  rest : stop.rest = file.drop stop.position
  /-- The index in each string constant is read, and stands, where the pool says. -/
  string : ∀ index text, pool.get? index = some (.string text) →
    ∃ entry field after, pool.EntryAt ⟨position, file.drop position⟩ index entry
      ∧ u8 entry = .ok ((Constant.string text).tag, field) ∧ u16 field = .ok (text, after)
      ∧ field.position = pool.stringIndexPosition position index
      ∧ (file.drop field.position).take 2 = bytes16 text ∧ field.position + 2 ≤ stop.position

theorem standsIn_of_spells {file : List UInt8} {position : Nat} (hformed : pool.WellFormed)
    (hspells : Cursor.Spells ⟨position, file.drop position⟩ pool.toBytes stop) : pool.StandsIn file position stop := by
  have hrest : file.drop position = pool.toBytes ++ stop.rest := hspells.1
  have hstop : stop.position = position + pool.toBytes.length := hspells.2
  have hcount : (UInt16.ofNat pool.slots.size).toNat = pool.slots.size := by
    have hsize := hformed.size_le
    rw [UInt16.toNat_ofNat']
    omega
  have htwo : 2 ≤ pool.toBytes.length := by
    rw [toBytes, List.length_append, length_bytes16]
    omega
  have hlength := congrArg List.length hrest
  rw [List.length_drop, List.length_append] at hlength
  refine ⟨hformed, ?_, ⟨UInt16.ofNat pool.slots.size, ?_, hcount⟩, ?_, Cursor.Reaches.rest_eq ⟨_, hspells⟩, ?_⟩
  · rw [hstop, Nat.add_sub_cancel_left, hrest, List.take_left]
  · rw [hrest, toBytes, List.append_assoc]
    exact List.take_left' (length_bytes16 _)
  · omega
  · intro index text hget
    obtain ⟨entry, after, hentry, hreaches, hconstant, hposition, hbefore⟩ := exists_entryAt hformed hspells hget
    obtain ⟨field, htag, hindex⟩ := Cursor.Spells.cons_iff.mp hconstant
    have hfield : field.position = pool.stringIndexPosition position index := by
      rw [htag.2, hposition]
      rfl
    have hfieldRest : field.rest = file.drop field.position :=
      (hreaches.trans ⟨_, htag⟩).rest_eq
    refine ⟨entry, field, after, hentry, Cursor.Spells.u8_iff.mpr htag, u16_eq_ok.mpr hindex, hfield, ?_, ?_⟩
    · rw [← hfieldRest, hindex.1]
      exact List.take_left' (length_bytes16 _)
    · have hafter : after.position = field.position + 2 := hindex.2
      omega

theorem exists_firstMistyped (hmistyped : ∃ constant, some constant ∈ pool.slots ∧ ¬ pool.WellTyped constant) :
    ∃ slot, pool.FirstMistyped slot := by
  cases hbroken : pool.firstBroken? with
  | some slot => exact ⟨slot, firstBroken?_eq_some.mp hbroken⟩
  | none =>
    obtain ⟨constant, hmem, hmistyped⟩ := hmistyped
    exact absurd (refersWell_iff.mp (firstBroken?_eq_none.mp hbroken constant hmem)) hmistyped

/-- Reading a pool at a position of a file undoes writing it: what is read stands there, every well-formed pool that stands there is read, and other bytes are refused with their fault unless they end too early. In particular a pool that is well-formed but for its references is refused at the first constant that is not well-typed. -/
theorem read_inverts_toBytes (file : List UInt8) (position : Nat) :
    (∀ pool stop, ConstantPool.read ⟨position, file.drop position⟩ = .ok (pool, stop) →
      pool.StandsIn file position stop)
      ∧ (∀ pool rest, pool.WellFormed → file.drop position = pool.toBytes ++ rest →
        ConstantPool.read ⟨position, file.drop position⟩ = .ok (pool, ⟨position + pool.toBytes.length, rest⟩))
      ∧ (∀ slots rest, Filled slots → slots.length < 65535 → file.drop position = (ofSlots slots).toBytes ++ rest →
        (∃ constant, some constant ∈ slots ∧ ¬ (ofSlots slots).WellTyped constant) →
        ∃ slot, (ofSlots slots).FirstMistyped slot
          ∧ ConstantPool.read ⟨position, file.drop position⟩ = .error (.malformed (.brokenReference slot)))
      ∧ ∀ fault, ConstantPool.read ⟨position, file.drop position⟩ = .error (.malformed fault)
        ↔ Fault (file.drop position) fault := by
  refine ⟨?_, ?_, ?_, fun fault => read_eq_malformed⟩
  · intro pool stop hread
    obtain ⟨hreadable, hspells⟩ := spells_of_read hread
    exact standsIn_of_spells (readable_iff_wellFormed.mp hreadable) hspells
  · intro pool rest hformed hdrop
    exact read_of_spells (readable_iff_wellFormed.mpr hformed) (.of_rest hdrop)
  · intro slots rest hfilled hsize hdrop hmistyped
    obtain ⟨constant, hmem, hconstant⟩ := hmistyped
    have hmem' : some constant ∈ (ofSlots slots).slots := by
      rw [ofSlots, List.mem_toArray]
      exact List.mem_cons_of_mem _ hmem
    obtain ⟨slot, hfirst⟩ := exists_firstMistyped ⟨constant, hmem', hconstant⟩
    exact ⟨slot, hfirst, read_eq_malformed.mpr (hdrop ▸ .mistyped hfilled hsize hfirst)⟩

/-- A string, the text it names, and an eight-byte constant between two others, after three bytes of a file and before one more. If the string names itself instead, it is refused. -/
theorem read_inverts_toBytes_string :
    let slots (text : UInt16) : List (Option Constant) :=
      [some (.string text), some (.utf8 [0x61]), some (.long 5), none, some (.integer 7)]
    let file (text : UInt16) : List UInt8 := [1, 2, 3] ++ ((ofSlots (slots text)).toBytes ++ [4])
    (ofSlots (slots 2)).StandsIn (file 2) 3 ⟨26, [4]⟩ ∧ (ofSlots (slots 2)).stringIndexPosition 3 1 = 6
      ∧ ∃ slot, (ofSlots (slots 1)).FirstMistyped slot
        ∧ ConstantPool.read ⟨3, (file 1).drop 3⟩ = .error (.malformed (.brokenReference slot)) := by
  intro slots file
  have hfilled (text : UInt16) : Filled (slots text) := by
    refine .narrow ?_ rfl (.narrow ?_ rfl (.wide ?_ rfl (.narrow ?_ rfl .nil)))
    all_goals
      intro bytes heq
      cases heq
    decide
  have hformed : (ofSlots (slots 2)).WellFormed := by
    refine ⟨⟨slots 2, rfl, hfilled 2⟩, by decide, fun constant hmem => refersWell_iff.mp ?_⟩
    have hcases : constant = .string 2 ∨ constant = .utf8 [0x61] ∨ constant = .long 5 ∨ constant = .integer 7 := by
      simpa [ofSlots, slots] using hmem
    rcases hcases with rfl | rfl | rfl | rfl <;> decide
  have hself : ¬ (ofSlots (slots 1)).WellTyped (.string 1) := by
    rw [← refersWell_iff]
    decide
  obtain ⟨hsound, hcomplete, -, -⟩ := read_inverts_toBytes (file 2) 3
  obtain ⟨-, -, hmistyped, -⟩ := read_inverts_toBytes (file 1) 3
  refine ⟨hsound _ _ (hcomplete _ [4] hformed rfl), rfl, ?_⟩
  exact hmistyped (slots 1) [4] (hfilled 1) (by decide) rfl ⟨_, List.mem_cons_self, hself⟩

end ConstantPool

end Retoken
