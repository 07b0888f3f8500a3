import Retoken.Proofs.Format.Instructions

/-!
# Code arrays are tiled by instructions

A code array is read exactly if it is made of instructions of the machine that stand behind each other from its start to its end. What is read then tiles the array: each operation is located where its instruction begins, and its instruction ends where the next one begins, or at the end of the array. So no operand is ever taken for an instruction, and the constant that a load names stands inside the instruction of that load.
-/

namespace Retoken

open BigEndian Reader

variable {start stop : Cursor} {offset : Nat}

/-! ### Layouts can be read -/

namespace Bytecode

/-- Where a well-formed instruction stands, the reader reads an operation. -/
theorem readOperands_of_spells {layout : InstructionLayout} {opcode : UInt8} {operands : List UInt8}
    (hbytes : layout.toBytes = opcode :: operands) (hformed : layout.WellFormed offset)
    (hspells : start.Spells operands stop) :
    ∃ located, readOperands offset opcode start = .ok (located, stop) := by
  cases layout with
  | load loaded index =>
    rcases hformed with ⟨hnarrow, -⟩ | hwide
    · obtain rfl : loaded = 0x12 := UInt8.toNat_inj.mp hnarrow
      rw [toBytes_narrowLoad] at hbytes
      obtain ⟨rfl, rfl⟩ := List.cons.inj hbytes
      exact ⟨_, OperandsRead.run (.narrowLoad (Cursor.Spells.u8_iff.mpr hspells))⟩
    · have hloaded : loaded = 0x13 ∨ loaded = 0x14 := hwide.imp UInt8.toNat_inj.mp UInt8.toNat_inj.mp
      rw [toBytes_wideLoad hloaded] at hbytes
      obtain ⟨rfl, rfl⟩ := List.cons.inj hbytes
      exact ⟨_, OperandsRead.run (.wideLoad hloaded (u16_eq_ok.mpr hspells))⟩
  | invokeDynamic index =>
    obtain ⟨rfl, rfl⟩ := List.cons.inj hbytes
    obtain ⟨afterIndex, hindex, hzero⟩ := Cursor.Spells.append_iff.mp hspells
    exact ⟨_, OperandsRead.run (.invokeDynamic (u16_eq_ok.mpr hindex) (u16_eq_ok.mpr hzero))⟩
  | other other otherOperands =>
    obtain ⟨rfl, rfl⟩ := List.cons.inj hbytes
    refine ⟨⟨offset, .other other⟩, OperandsRead.run ?_⟩
    rw [InstructionLayout.WellFormed] at hformed
    generalize hkind : other.toNat = kind at hformed
    split at hformed
    case h_1 =>
      obtain rfl : other = 0xAA := UInt8.toNat_inj.mp hkind
      exact .tableSwitch (skipTableSwitch_iff.mpr ⟨_, hspells, hformed⟩)
    case h_2 =>
      obtain rfl : other = 0xAB := UInt8.toNat_inj.mp hkind
      exact .lookupSwitch (skipLookupSwitch_iff.mpr ⟨_, hspells, hformed⟩)
    case h_3 =>
      obtain rfl : other = 0xC4 := UInt8.toNat_inj.mp hkind
      exact .wide (skipWide_iff.mpr ⟨_, hspells, hformed⟩)
    case h_4 => exact .fixed (hkind ▸ hformed) (skip_iff.mpr ⟨_, hspells, rfl⟩)

theorem readOne_of_spells {origin : Nat} {layout : InstructionLayout}
    (hformed : layout.WellFormed (start.position - origin))
    (hspells : start.Spells layout.toBytes stop) : ∃ located, readOne origin start = .ok (located, stop) := by
  obtain ⟨opcode, operands, hbytes⟩ := List.exists_cons_of_ne_nil layout.toBytes_ne_nil
  rw [hbytes] at hspells
  obtain ⟨afterOpcode, hopcode, hoperands⟩ := Cursor.Spells.cons_iff.mp hspells
  obtain ⟨located, hread⟩ := readOperands_of_spells hbytes hformed hoperands
  refine ⟨located, ?_⟩
  rw [readOne, run_bind run_position, run_bind (Cursor.Spells.u8_iff.mpr hopcode)]
  exact hread

theorem exists_read_iff (code : Cursor) : (∃ located, read code = .ok located) ↔ IsCode 0 code.rest := by
  rw [isCode_iff]
  constructor
  · rintro ⟨located, hread⟩
    obtain ⟨layouts, hbytes, hrow⟩ := read_undoes hread
    have hall : AllInRow InstructionLayout.toBytes (fun position layout => layout.WellFormed (position - code.position))
        code.position layouts := hrow.allInRow fun _ _ _ hrelated => hrelated.2
    exact ⟨layouts, hbytes, allInRow_origin.mp hall⟩
  · rintro ⟨layouts, hbytes, hall⟩
    obtain ⟨located, stop, hread⟩ := exists_untilEnd (fun _ _ _ => readOne_of_spells) InstructionLayout.toBytes_ne_nil
      hbytes (allInRow_origin.mpr hall)
    exact ⟨located, except_bind_eq_ok.mpr ⟨(located, stop), hread, rfl⟩⟩

/-! ### What is read of an instruction -/

inductive Describes (position : Nat) : Operation → List UInt8 → Prop where
  | narrowLoad {index : UInt8} : Describes position (.load 0x12 index.toUInt16 (position + 1)) [0x12, index]
  | wideLoad {opcode : UInt8} {index : UInt16} (hopcode : opcode = 0x13 ∨ opcode = 0x14) :
      Describes position (.load opcode index (position + 1)) (opcode :: bytes16 index)
  | invokeDynamic {index : UInt16} : Describes position (.invokeDynamic index) (0xBA :: (bytes16 index ++ [0, 0]))
  | other {opcode : UInt8} {operands : List UInt8} (hopcode : opcode ∉ [0x12, 0x13, 0x14, 0xBA]) :
      Describes position (.other opcode) (opcode :: operands)

theorem describes_located {layout : InstructionLayout} {origin position : Nat} (hformed : layout.WellFormed offset) :
    Describes position (layout.located origin position).operation layout.toBytes := by
  cases layout with
  | load opcode index =>
    rcases hformed with ⟨hnarrow, hindex⟩ | hwide
    · obtain rfl : opcode = 0x12 := UInt8.toNat_inj.mp hnarrow
      obtain ⟨byte, rfl⟩ : ∃ byte : UInt8, index = byte.toUInt16 := by
        refine ⟨UInt8.ofNat index.toNat, UInt16.toNat_inj.mp ?_⟩
        rw [UInt8.toNat_toUInt16, UInt8.toNat_ofNat']
        omega
      rw [toBytes_narrowLoad, UInt8.toNat_toUInt16, UInt8.ofNat_toNat]
      exact .narrowLoad
    · have hopcode : opcode = 0x13 ∨ opcode = 0x14 := hwide.imp UInt8.toNat_inj.mp UInt8.toNat_inj.mp
      rw [toBytes_wideLoad hopcode]
      exact .wideLoad hopcode
  | invokeDynamic index => exact .invokeDynamic
  | other opcode operands =>
    refine .other fun hmem => ?_
    simp only [List.mem_cons, List.not_mem_nil, or_false] at hmem
    rcases hmem with rfl | rfl | rfl | rfl <;> cases hformed

/-! ### Tilings -/

/-- Where an instruction ends: where the next one begins, or at the end of the code. -/
def endOf (located : List Located) (length i : Nat) : Nat :=
  (located[i + 1]?.map (·.offset)).getD length

def span (file : List UInt8) (start first last : Nat) : List UInt8 :=
  (file.drop (start + first)).take (last - first)

/-- The index of a load stands between two positions of the file, in one byte or in two as the opcode says. -/
inductive IndexAt (file : List UInt8) (first last : Nat) : UInt8 → UInt16 → Prop where
  | narrow {byte : UInt8} (hlast : last = first + 1) (hbyte : (file.drop first).take 1 = [byte]) :
      IndexAt file first last 0x12 byte.toUInt16
  | wide {opcode : UInt8} {index : UInt16} (hopcode : opcode = 0x13 ∨ opcode = 0x14) (hlast : last = first + 2)
      (hbytes : (file.drop first).take 2 = bytes16 index) : IndexAt file first last opcode index

/-- How the operations that were read of a code array lie in it, which begins at a position of a file. -/
structure Tiling (file : List UInt8) (start length : Nat) (located : List Located) : Prop where
  first : length ≠ 0 → located[0]?.map (·.offset) = some 0
  increasing : (located.map (·.offset)).Pairwise (· < ·)
  bounded : ∀ i item, located[i]? = some item → item.offset < endOf located length i ∧ endOf located length i ≤ length
  /-- Between the offset of an operation and the next one stands its instruction and nothing else. -/
  instruction : ∀ i item, located[i]? = some item →
    IsInstruction item.offset (span file start item.offset (endOf located length i))
      ∧ Describes (start + item.offset) item.operation (span file start item.offset (endOf located length i))
  /-- The index of a load stands in the file behind its opcode, up to the end of its instruction. -/
  load : ∀ i item opcode index position, located[i]? = some item → item.operation = .load opcode index position →
    position = start + item.offset + 1 ∧ IndexAt file position (start + endOf located length i) opcode index
  /-- The offsets fit four bytes, if the length does. -/
  exact : length ≤ 2 ^ 32 → ∀ item ∈ located, (UInt32.ofNat item.offset).toNat = item.offset

theorem offset_located (layout : InstructionLayout) (origin position : Nat) :
    (layout.located origin position).offset = position - origin := by
  cases layout <;> rfl

section

variable {file : List UInt8} {origin length i : Nat} {layouts : List InstructionLayout} {located : List Located}
  {item : Located}

theorem exists_piece (hcode : (file.drop origin).take length = layouts.flatMap InstructionLayout.toBytes)
    (hlength : (layouts.flatMap InstructionLayout.toBytes).length = length)
    (hrow : Row InstructionLayout.toBytes (fun position layout located =>
      located = layout.located origin position ∧ layout.WellFormed (position - origin)) origin layouts located)
    (hitem : located[i]? = some item) :
    ∃ layout : InstructionLayout, layout.WellFormed item.offset ∧ item = layout.located origin (origin + item.offset)
      ∧ endOf located length i = item.offset + layout.toBytes.length ∧ endOf located length i ≤ length
      ∧ span file origin item.offset (endOf located length i) = layout.toBytes := by
  obtain ⟨before, layout, after, rfl, ⟨hlocated, hformed⟩, hafter⟩ := hrow.split_at hitem
  have hoffset : item.offset = (before.flatMap InstructionLayout.toBytes).length := by
    rw [hlocated, offset_located, Nat.add_sub_cancel_left]
  rw [List.flatMap_append, List.flatMap_cons] at hcode hlength
  simp only [List.length_append] at hlength
  have hend : endOf located length i = item.offset + layout.toBytes.length := by
    rw [endOf, ← List.head?_drop, hoffset]
    generalize located.drop (i + 1) = behind at hafter
    cases hafter with
    | nil =>
      simp only [List.flatMap_nil, List.length_nil] at hlength
      simp only [List.head?_nil, Option.map_none, Option.getD_none]
      omega
    | cons hnext _ =>
      simp only [List.head?_cons, Option.map_some, Option.getD_some, hnext.1, offset_located]
      omega
  rw [Nat.add_sub_cancel_left, ← hoffset] at hformed
  rw [← hoffset] at hlocated
  refine ⟨layout, hformed, hlocated, hend, by omega, ?_⟩
  -- The code behind the layouts before this one begins with its bytes.
  have hspan : ((file.drop origin).take length).drop item.offset
      = layout.toBytes ++ after.flatMap InstructionLayout.toBytes := by
    rw [hcode, hoffset, List.drop_left]
  rw [List.drop_take, List.drop_drop] at hspan
  have htake := congrArg (List.take layout.toBytes.length) hspan
  rw [List.take_left, List.take_take, Nat.min_eq_left (by omega)] at htake
  rw [span, hend, Nat.add_sub_cancel_left]
  exact htake

end

theorem pairwise_offsets {located : List Located} {length : Nat}
    (hbounded : ∀ i item, located[i]? = some item → item.offset < endOf located length i) :
    (located.map (·.offset)).Pairwise (· < ·) := by
  rw [← List.isChain_iff_pairwise, List.isChain_iff_getElem]
  intro i hi
  rw [List.length_map] at hi
  have hbefore := hbounded i located[i] (List.getElem?_eq_getElem (by omega))
  rw [endOf, List.getElem?_eq_getElem hi] at hbefore
  rw [List.getElem_map, List.getElem_map]
  exact hbefore

/-- The index that a load names is what follows its opcode. -/
theorem load_of_describes {file : List UInt8} {start first last : Nat} {opcode : UInt8} {index : UInt16}
    {position : Nat} (hlast : first ≤ last ∧ start + last ≤ file.length)
    (hdescribes : Describes (start + first) (.load opcode index position) (span file start first last)) :
    position = start + first + 1 ∧ IndexAt file position (start + last) opcode index := by
  generalize hspan : span file start first last = bytes at hdescribes
  have hlength := congrArg List.length hspan
  have hbehind := congrArg (List.drop 1) hspan
  rw [span, List.length_take, List.length_drop] at hlength
  rw [span, List.drop_take, List.drop_drop] at hbehind
  cases hdescribes with
  | @narrowLoad byte =>
    have hlast : last - first = 2 := by
      simp only [List.length_cons, List.length_nil] at hlength
      omega
    rw [hlast] at hbehind
    exact ⟨rfl, .narrow (by omega) hbehind⟩
  | @wideLoad opcode index hopcode =>
    have hlast : last - first = 3 := by
      simp only [List.length_cons, length_bytes16] at hlength
      omega
    rw [hlast] at hbehind
    exact ⟨rfl, .wide hopcode (by omega) hbehind⟩

/-- What is read of a code array tiles it. -/
theorem tiling_of_read {file : List UInt8} {start length : Nat} {located : List Located}
    (hwithin : start + length ≤ file.length) (hread : read ⟨start, (file.drop start).take length⟩ = .ok located) :
    Tiling file start length located := by
  obtain ⟨layouts, hcode, hrow⟩ := read_undoes hread
  simp only at hcode hrow
  have hlength : (layouts.flatMap InstructionLayout.toBytes).length = length := by
    rw [← hcode, List.length_take, List.length_drop]
    omega
  -- Each operation read is that of one layout, which ends where the next begins and is never empty.
  have hbounded : ∀ i item, located[i]? = some item → item.offset < endOf located length i
      ∧ endOf located length i ≤ length := by
    intro i item hitem
    obtain ⟨layout, -, -, hend, hle, -⟩ := exists_piece hcode hlength hrow hitem
    have hpositive := List.length_pos_of_ne_nil layout.toBytes_ne_nil
    omega
  have hdescribes : ∀ i item, located[i]? = some item →
      IsInstruction item.offset (span file start item.offset (endOf located length i))
        ∧ Describes (start + item.offset) item.operation (span file start item.offset (endOf located length i)) := by
    intro i item hitem
    obtain ⟨layout, hformed, hlocated, -, -, hspan⟩ := exists_piece hcode hlength hrow hitem
    have hlayout : Describes (start + item.offset)
        (layout.located start (start + item.offset)).operation layout.toBytes :=
      describes_located hformed
    rw [← hlocated] at hlayout
    rw [hspan]
    exact ⟨isInstruction_of_layout hformed, hlayout⟩
  refine ⟨?_, pairwise_offsets fun i item hitem => (hbounded i item hitem).1, hbounded, hdescribes, ?_, ?_⟩
  · intro hnonempty
    cases hrow with
    | nil => exact absurd hlength.symm hnonempty
    | cons hhead _ => simp [hhead.1, offset_located]
  · intro i item opcode index position hitem hoperation
    have hload := (hdescribes i item hitem).2
    have hends := hbounded i item hitem
    rw [hoperation] at hload
    exact load_of_describes (by omega) hload
  · intro hshort item hmem
    obtain ⟨i, hitem⟩ := List.getElem?_of_mem hmem
    have hends := hbounded i item hitem
    rw [UInt32.toNat_ofNat']
    omega

/-- The code of a method is shorter than four bytes can tell. -/
theorem length_lt_of_readCode {body code behind : Cursor} (hread : PendingMethod.readCode body = .ok (code, behind)) :
    code.rest.length < 2 ^ 32 := by
  obtain ⟨afterLimits, length, afterLength, -, -, hslice⟩ := PendingMethod.readCode_eq_ok.mp hread
  rw [(slice_eq_ok.mp hslice).2.1]
  exact length.toNat_lt

/-- A code array anywhere in a file is read exactly if it is made of instructions behind each other, and then the operations that are read tile it. If it is the code of a method, the offsets in it fit four bytes. -/
theorem read_tiles (file : List UInt8) (start length : Nat) (hwithin : start + length ≤ file.length) :
    ((∃ located, read ⟨start, (file.drop start).take length⟩ = .ok located) ↔ IsCode 0 ((file.drop start).take length))
      ∧ ∀ located, read ⟨start, (file.drop start).take length⟩ = .ok located →
        Tiling file start length located
          ∧ ∀ body behind, PendingMethod.readCode body = .ok (⟨start, (file.drop start).take length⟩, behind) →
            ∀ item ∈ located, (UInt32.ofNat item.offset).toNat = item.offset := by
  refine ⟨exists_read_iff _, fun located hread => ?_⟩
  have htiling := tiling_of_read hwithin hread
  refine ⟨htiling, fun body behind hcode => htiling.exact ?_⟩
  have hlength : ((file.drop start).take length).length < 2 ^ 32 := length_lt_of_readCode hcode
  rw [List.length_take, List.length_drop] at hlength
  omega

/-- A switch over two values with two bytes of padding, between another instruction and a load. -/
theorem read_tiles_switch :
    let limits : List UInt8 := [0, 1, 0, 1]
    let switch : List UInt8 := [0xAA, 0, 0] ++ bytes32 0 ++ bytes32 0 ++ bytes32 1 ++ bytes32 0 ++ bytes32 0
    let file : List UInt8 := limits ++ bytes32 26 ++ [0x03] ++ switch ++ [0x12, 5]
    let located : List Located := [⟨0, .other 0x03⟩, ⟨1, .other 0xAA⟩, ⟨24, .load 0x12 5 33⟩]
    8 + 26 ≤ file.length ∧ IsCode 0 ((file.drop 8).take 26) ∧ Tiling file 8 26 located
      ∧ ∀ item ∈ located, (UInt32.ofNat item.offset).toNat = item.offset := by
  intro limits switch file located
  have hwithin : 8 + 26 ≤ file.length := by decide
  have hread : read ⟨8, (file.drop 8).take 26⟩ = .ok located := by rfl
  have hcode : PendingMethod.readCode ⟨0, file⟩ = .ok (⟨8, (file.drop 8).take 26⟩, ⟨34, []⟩) := by rfl
  obtain ⟨hcomplete, hsound⟩ := read_tiles file 8 26 hwithin
  obtain ⟨htiling, hexact⟩ := hsound located hread
  exact ⟨hwithin, hcomplete.mp ⟨located, hread⟩, htiling, hexact ⟨0, file⟩ ⟨34, []⟩ hcode⟩

end Bytecode

end Retoken
