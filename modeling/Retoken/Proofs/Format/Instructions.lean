import Mathlib.Algebra.GroupWithZero.Nat
import Retoken.Proofs.Format.Code

/-!
# The instructions of the machine

An instruction is an opcode and its operands. For most opcodes the operands are always the same, so their number of bytes is known; the switches, the wide instructions and dynamic calls are described one by one. Nothing here looks at how code is read: the layouts that a code array is read as are shown to be exactly these instructions, so the lengths that the reader has in its tables are those of the machine.
-/

namespace Retoken.Bytecode

open BigEndian

inductive Operand where
  | byteValue
  | shortValue
  | localVariable
  /-- What is added to a local variable. -/
  | increment
  /-- A constant whose index fits one byte. -/
  | narrowConstant
  | constant
  /-- The distance to another instruction. -/
  | branch
  | wideBranch
  | elementType
  /-- A number of arguments or dimensions. -/
  | count
  | zero
deriving DecidableEq

namespace Operand

def size : Operand → Nat
  | byteValue | localVariable | increment | narrowConstant | elementType | count | zero => 1
  | shortValue | constant | branch => 2
  | wideBranch => 4

def sizes (operands : List Operand) : Nat :=
  (operands.map size).sum

end Operand

/-- Opcodes in a row whose instructions have the same operands. -/
structure OpcodeRange where
  first : Nat
  last : Nat
  operands : List Operand

def opcodeRanges : List OpcodeRange :=
  [ -- Constants: `nop` to `dconst_1`, `bipush`, `sipush`, `ldc`, `ldc_w` and `ldc2_w`.
    ⟨0x00, 0x0F, []⟩, ⟨0x10, 0x10, [.byteValue]⟩, ⟨0x11, 0x11, [.shortValue]⟩, ⟨0x12, 0x12, [.narrowConstant]⟩,
    ⟨0x13, 0x14, [.constant]⟩,
    -- Loads: `iload` to `aload`, `iload_0` to `aload_3`, and those from arrays.
    ⟨0x15, 0x19, [.localVariable]⟩, ⟨0x1A, 0x2D, []⟩, ⟨0x2E, 0x35, []⟩,
    -- Stores: `istore` to `astore`, `istore_0` to `astore_3`, and those to arrays.
    ⟨0x36, 0x3A, [.localVariable]⟩, ⟨0x3B, 0x4E, []⟩, ⟨0x4F, 0x56, []⟩,
    -- The stack, arithmetic, `iinc`, conversions, and comparisons of numbers.
    ⟨0x57, 0x5F, []⟩, ⟨0x60, 0x83, []⟩, ⟨0x84, 0x84, [.localVariable, .increment]⟩, ⟨0x85, 0x93, []⟩, ⟨0x94, 0x98, []⟩,
    -- Control: the conditional branches, `goto`, `jsr`, `ret`, and the returns.
    ⟨0x99, 0xA6, [.branch]⟩, ⟨0xA7, 0xA8, [.branch]⟩, ⟨0xA9, 0xA9, [.localVariable]⟩, ⟨0xAC, 0xB1, []⟩,
    -- Fields, and calls of methods.
    ⟨0xB2, 0xB5, [.constant]⟩, ⟨0xB6, 0xB8, [.constant]⟩, ⟨0xB9, 0xB9, [.constant, .count, .zero]⟩,
    -- Objects: `new`, `newarray`, `anewarray`, `arraylength` and `athrow`, `checkcast` and `instanceof`, monitors.
    ⟨0xBB, 0xBB, [.constant]⟩, ⟨0xBC, 0xBC, [.elementType]⟩, ⟨0xBD, 0xBD, [.constant]⟩, ⟨0xBE, 0xBF, []⟩,
    ⟨0xC0, 0xC1, [.constant]⟩, ⟨0xC2, 0xC3, []⟩,
    -- `multianewarray`, `ifnull` and `ifnonnull`, `goto_w` and `jsr_w`.
    ⟨0xC5, 0xC5, [.constant, .count]⟩, ⟨0xC6, 0xC7, [.branch]⟩, ⟨0xC8, 0xC9, [.wideBranch]⟩]

/-- The operands of an opcode that always has the same. -/
def fixedOperands? (opcode : UInt8) : Option (List Operand) :=
  (opcodeRanges.find? fun range => range.first ≤ opcode.toNat ∧ opcode.toNat ≤ range.last).map (·.operands)

/-- The bytes of an instruction at an offset from the start of the code. -/
inductive IsInstruction (offset : Nat) : List UInt8 → Prop where
  | fixed {opcode : UInt8} {operands : List Operand} {bytes : List UInt8}
      (hoperands : fixedOperands? opcode = some operands)
      (hlength : bytes.length = Operand.sizes operands) : IsInstruction offset (opcode :: bytes)
  /-- After the padding come a default, the bounds, and a distance for each value between them. -/
  | tableSwitch {padding fallback table : List UInt8} {low high : UInt32} (haligned : 4 ∣ offset + 1 + padding.length)
      (hpadding : padding.length < 4) (hfallback : fallback.length = 4)
      (hbounds : low.toInt32.toInt ≤ high.toInt32.toInt)
      (htable : (table.length : Int) = 4 * (high.toInt32.toInt - low.toInt32.toInt + 1)) :
      IsInstruction offset (0xAA :: (padding ++ (fallback ++ (bytes32 low ++ (bytes32 high ++ table)))))
  /-- After the padding come a default, the number of pairs, and the pairs of a value and a distance. -/
  | lookupSwitch {padding fallback table : List UInt8} {pairs : UInt32} (haligned : 4 ∣ offset + 1 + padding.length)
      (hpadding : padding.length < 4) (hfallback : fallback.length = 4) (hpairs : 0 ≤ pairs.toInt32.toInt)
      (htable : (table.length : Int) = 8 * pairs.toInt32.toInt) :
      IsInstruction offset (0xAB :: (padding ++ (fallback ++ (bytes32 pairs ++ table))))
  /-- A load, a store, `ret` or `iinc` of a local variable, with twice as many bytes for each operand. -/
  | wide {opcode : UInt8} {operands : List Operand} {bytes : List UInt8}
      (hoperands : fixedOperands? opcode = some operands)
      (hvariable : operands.head? = some .localVariable) (hlength : bytes.length = 2 * Operand.sizes operands) :
      IsInstruction offset (0xC4 :: opcode :: bytes)
  | invokeDynamic {index : UInt16} : IsInstruction offset (0xBA :: (bytes16 index ++ [0, 0]))

/-- The bytes are instructions behind each other, the first of them at an offset from the start of the code. -/
inductive IsCode : Nat → List UInt8 → Prop where
  | nil {offset : Nat} : IsCode offset []
  | cons {offset : Nat} {instruction rest : List UInt8} (hinstruction : IsInstruction offset instruction)
      (hrest : IsCode (offset + instruction.length) rest) : IsCode offset (instruction ++ rest)

theorem operandLength?_table : ∀ opcode < 256, opcode ≠ 0x12 → opcode ≠ 0x13 → opcode ≠ 0x14 →
    operandLength? opcode = (fixedOperands? (UInt8.ofNat opcode)).map Operand.sizes := by
  decide +kernel

theorem wideOperandLength?_table : ∀ opcode < 256,
    wideOperandLength? opcode
      = ((fixedOperands? (UInt8.ofNat opcode)).filter fun operands => operands.head? = some .localVariable).map
          fun operands => 2 * Operand.sizes operands := by
  decide +kernel

variable {opcode : UInt8} {offset n : Nat} {bytes : List UInt8}

/-- Apart from the loads of constants the reader knows all fixed lengths from its table. -/
theorem operandLength?_eq_some (hload : opcode ≠ 0x12 ∧ opcode ≠ 0x13 ∧ opcode ≠ 0x14) :
    operandLength? opcode.toNat = some n ↔ ∃ operands, fixedOperands? opcode = some operands
      ∧ Operand.sizes operands = n := by
  have hne : ∀ load : UInt8, opcode ≠ load → opcode.toNat ≠ load.toNat := fun load hopcode heq =>
    hopcode (UInt8.toNat_inj.mp heq)
  have htable := operandLength?_table opcode.toNat opcode.toNat_lt (hne 0x12 hload.1) (hne 0x13 hload.2.1)
    (hne 0x14 hload.2.2)
  rw [UInt8.ofNat_toNat] at htable
  rw [htable, Option.map_eq_some_iff]

theorem wideOperandLength?_eq_some : wideOperandLength? opcode.toNat = some n
    ↔ ∃ operands, fixedOperands? opcode = some operands ∧ operands.head? = some .localVariable
      ∧ 2 * Operand.sizes operands = n := by
  rw [wideOperandLength?_table opcode.toNat opcode.toNat_lt, UInt8.ofNat_toNat, Option.map_eq_some_iff]
  simp only [Option.filter_eq_some_iff, decide_eq_true_eq, and_assoc]

theorem eq_switchPadding_iff : n = switchPadding offset ↔ 4 ∣ offset + 1 + n ∧ n < 4 := by
  rw [switchPadding]
  omega

theorem toBytes_narrowLoad (index : UInt16) :
    (InstructionLayout.load 0x12 index).toBytes = [0x12, UInt8.ofNat index.toNat] := rfl

theorem toBytes_wideLoad {index : UInt16} (hwide : opcode = 0x13 ∨ opcode = 0x14) :
    (InstructionLayout.load opcode index).toBytes = opcode :: bytes16 index := by
  have hne : opcode ≠ narrowLoad := by
    rcases hwide with rfl | rfl <;> decide
  rw [InstructionLayout.toBytes, if_neg hne]

theorem exists_layout_of_fixed {operands : List Operand} (hoperands : fixedOperands? opcode = some operands)
    (hlength : bytes.length = Operand.sizes operands) :
    ∃ layout : InstructionLayout, layout.toBytes = opcode :: bytes ∧ layout.WellFormed offset := by
  by_cases hload : opcode ≠ 0x12 ∧ opcode ≠ 0x13 ∧ opcode ≠ 0x14
  · have hknown : operandLength? opcode.toNat = some bytes.length :=
      (operandLength?_eq_some hload).mpr ⟨operands, hoperands, hlength.symm⟩
    refine ⟨.other opcode bytes, rfl, ?_⟩
    rw [InstructionLayout.WellFormed]
    generalize opcode.toNat = kind at hknown
    split
    case h_4 => exact hknown
    all_goals cases hknown
  · have hcases : opcode = 0x12 ∨ opcode = 0x13 ∨ opcode = 0x14 := by
      by_contra hother
      simp only [not_or] at hother
      exact hload hother
    rcases hcases with rfl | rfl | rfl
    · obtain rfl : [.narrowConstant] = operands := Option.some.inj hoperands
      obtain ⟨index, rfl⟩ := List.length_eq_one_iff.mp hlength
      have hindex : index.toUInt16.toNat = index.toNat := UInt8.toNat_toUInt16 index
      refine ⟨.load 0x12 index.toUInt16, ?_, .inl ⟨rfl, ?_⟩⟩
      · rw [toBytes_narrowLoad, hindex, UInt8.ofNat_toNat]
      · have hlt := index.toNat_lt
        omega
    all_goals
      obtain rfl : [.constant] = operands := Option.some.inj hoperands
      obtain ⟨hi, lo, rfl⟩ := List.length_eq_two.mp hlength
    · refine ⟨.load 0x13 (word16 hi lo), ?_, .inr (.inl rfl)⟩
      rw [toBytes_wideLoad (.inl rfl), bytes16_word16]
    · refine ⟨.load 0x14 (word16 hi lo), ?_, .inr (.inr rfl)⟩
      rw [toBytes_wideLoad (.inr rfl), bytes16_word16]

theorem IsInstruction.exists_layout (hinstruction : IsInstruction offset bytes) :
    ∃ layout : InstructionLayout, layout.toBytes = bytes ∧ layout.WellFormed offset := by
  cases hinstruction with
  | fixed hoperands hlength => exact exists_layout_of_fixed hoperands hlength
  | @tableSwitch padding fallback table low high haligned hpadding hfallback hbounds htable =>
    have hpaddingLength := eq_switchPadding_iff.mpr ⟨haligned, hpadding⟩
    refine ⟨.other 0xAA _, rfl, padding, fallback, low, high, table, rfl, hpaddingLength, hfallback, hbounds, ?_⟩
    omega
  | @lookupSwitch padding fallback table pairs haligned hpadding hfallback hpairs htable =>
    have hpaddingLength := eq_switchPadding_iff.mpr ⟨haligned, hpadding⟩
    refine ⟨.other 0xAB _, rfl, padding, fallback, pairs, table, rfl, hpaddingLength, hfallback, hpairs, ?_⟩
    omega
  | @wide opcode operands bytes hoperands hvariable hlength =>
    refine ⟨.other 0xC4 _, rfl, opcode, bytes, rfl, ?_⟩
    exact wideOperandLength?_eq_some.mpr ⟨operands, hoperands, hvariable, hlength.symm⟩
  | @invokeDynamic index => exact ⟨.invokeDynamic index, rfl, trivial⟩

theorem isInstruction_of_layout {layout : InstructionLayout} (hformed : layout.WellFormed offset) :
    IsInstruction offset layout.toBytes := by
  cases layout with
  | load opcode index =>
    rcases hformed with ⟨hnarrow, -⟩ | hwide
    · obtain rfl : opcode = 0x12 := UInt8.toNat_inj.mp hnarrow
      rw [toBytes_narrowLoad]
      exact .fixed (show fixedOperands? 0x12 = some [.narrowConstant] from rfl) rfl
    · have hopcode : opcode = 0x13 ∨ opcode = 0x14 := hwide.imp UInt8.toNat_inj.mp UInt8.toNat_inj.mp
      rw [toBytes_wideLoad hopcode]
      have hoperands : fixedOperands? opcode = some [.constant] := by
        rcases hopcode with rfl | rfl <;> rfl
      exact .fixed hoperands rfl
  | invokeDynamic index => exact .invokeDynamic
  | other opcode operands =>
    rw [InstructionLayout.WellFormed] at hformed
    rw [InstructionLayout.toBytes]
    generalize hkind : opcode.toNat = kind at hformed
    split at hformed
    case h_1 =>
      obtain ⟨padding, fallback, low, high, table, rfl, hpadding, hfallback, hbounds, htable⟩ := hformed
      obtain ⟨haligned, hshort⟩ := eq_switchPadding_iff.mp hpadding
      obtain rfl : opcode = 0xAA := UInt8.toNat_inj.mp hkind
      exact .tableSwitch haligned hshort hfallback hbounds (by omega)
    case h_2 =>
      obtain ⟨padding, fallback, pairs, table, rfl, hpadding, hfallback, hpairs, htable⟩ := hformed
      obtain ⟨haligned, hshort⟩ := eq_switchPadding_iff.mp hpadding
      obtain rfl : opcode = 0xAB := UInt8.toNat_inj.mp hkind
      exact .lookupSwitch haligned hshort hfallback hpairs (by omega)
    case h_3 =>
      obtain ⟨modified, rest, rfl, hlength⟩ := hformed
      obtain ⟨wideOperands, hfixed, hvariable, hsizes⟩ := wideOperandLength?_eq_some.mp hlength
      obtain rfl : opcode = 0xC4 := UInt8.toNat_inj.mp hkind
      exact .wide hfixed hvariable hsizes.symm
    case h_4 =>
      have hload : opcode ≠ 0x12 ∧ opcode ≠ 0x13 ∧ opcode ≠ 0x14 := by
        refine ⟨?_, ?_, ?_⟩ <;> rintro rfl <;> cases hkind <;> cases hformed
      rw [← hkind] at hformed
      obtain ⟨fixedOperands, hfixed, hsizes⟩ := (operandLength?_eq_some hload).mp hformed
      exact .fixed hfixed hsizes.symm

theorem isCode_iff : IsCode offset bytes ↔ ∃ layouts, bytes = layouts.flatMap InstructionLayout.toBytes
    ∧ AllInRow InstructionLayout.toBytes InstructionLayout.WellFormed offset layouts := by
  constructor
  · intro hcode
    induction hcode with
    | nil => exact ⟨[], rfl, trivial⟩
    | cons hinstruction _ ih =>
      obtain ⟨layout, rfl, hformed⟩ := hinstruction.exists_layout
      obtain ⟨layouts, rfl, hlayouts⟩ := ih
      exact ⟨layout :: layouts, rfl, hformed, hlayouts⟩
  · rintro ⟨layouts, rfl, hlayouts⟩
    induction layouts generalizing offset with
    | nil => exact .nil
    | cons layout layouts ih =>
      rw [List.flatMap_cons]
      exact .cons (isInstruction_of_layout hlayouts.1) (ih hlayouts.2)

end Retoken.Bytecode
