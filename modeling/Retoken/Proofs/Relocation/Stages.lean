import Retoken.ClassFile.Basic
import Retoken.Proofs.Relocation.Readers

/-!
# The stages of reading

The reader of a larger part runs the readers of smaller ones behind each other. Here each is taken apart once: it succeeds exactly if every stage does, from the cursor that the stage before has left. What is proved about a part is put together from what is known about its stages, and no other module opens these readers.
-/

namespace Retoken

open Reader

variable {pool : ConstantPool} {start stop : Cursor}

theorem Reader.bind_pure_eq_ok {α β : Type} {last : Reader α} {f : α → β} {b : β} :
    (last >>= fun a => pure (f a)) start = .ok (b, stop) ↔ ∃ a, last start = .ok (a, stop) ∧ b = f a := by
  rw [bind_eq_ok]
  refine exists_congr fun a => ?_
  simp only [pure_eq_ok]
  constructor
  · rintro ⟨_, hlast, rfl, rfl⟩
    exact ⟨hlast, rfl⟩
  · rintro ⟨hlast, rfl⟩
    exact ⟨stop, hlast, rfl, rfl⟩

/-! ### Operands -/

namespace Bytecode

variable {offset : Nat}

theorem skipTableSwitch_eq_ok :
    skipTableSwitch offset start = .ok ((), stop)
      ↔ ∃ afterPadding afterDefault low afterLow high afterHigh,
        skip (switchPadding offset) start = .ok ((), afterPadding) ∧ skip 4 afterPadding = .ok ((), afterDefault)
          ∧ u32 afterDefault = .ok (low, afterLow) ∧ u32 afterLow = .ok (high, afterHigh)
          ∧ low.toInt32.toInt ≤ high.toInt32.toInt
          ∧ skip ((high.toInt32.toInt - low.toInt32.toInt + 1).toNat * 4) afterHigh = .ok ((), stop) := by
  rw [skipTableSwitch]
  simp only [bind_eq_ok, refuse_eq_ok, Int.not_lt]
  constructor
  · rintro ⟨_, afterPadding, hpadding, _, afterDefault, hdefault, low, afterLow, hlow, high, afterHigh, hhigh, hrest⟩
    exact ⟨afterPadding, afterDefault, low, afterLow, high, afterHigh, hpadding, hdefault, hlow, hhigh, hrest⟩
  · rintro ⟨afterPadding, afterDefault, low, afterLow, high, afterHigh, hpadding, hdefault, hlow, hhigh, hrest⟩
    exact ⟨_, afterPadding, hpadding, _, afterDefault, hdefault, low, afterLow, hlow, high, afterHigh, hhigh, hrest⟩

theorem skipLookupSwitch_eq_ok :
    skipLookupSwitch offset start = .ok ((), stop)
      ↔ ∃ afterPadding afterDefault pairs afterPairs,
        skip (switchPadding offset) start = .ok ((), afterPadding) ∧ skip 4 afterPadding = .ok ((), afterDefault)
          ∧ u32 afterDefault = .ok (pairs, afterPairs) ∧ 0 ≤ pairs.toInt32.toInt
          ∧ skip (pairs.toInt32.toInt.toNat * 8) afterPairs = .ok ((), stop) := by
  rw [skipLookupSwitch]
  simp only [bind_eq_ok, refuse_eq_ok, Int.not_lt]
  constructor
  · rintro ⟨_, afterPadding, hpadding, _, afterDefault, hdefault, pairs, afterPairs, hpairs, hrest⟩
    exact ⟨afterPadding, afterDefault, pairs, afterPairs, hpadding, hdefault, hpairs, hrest⟩
  · rintro ⟨afterPadding, afterDefault, pairs, afterPairs, hpadding, hdefault, hpairs, hrest⟩
    exact ⟨_, afterPadding, hpadding, _, afterDefault, hdefault, pairs, afterPairs, hpairs, hrest⟩

theorem skipWide_eq_ok :
    skipWide offset start = .ok ((), stop)
      ↔ ∃ modified afterModified length, u8 start = .ok (modified, afterModified)
        ∧ wideOperandLength? modified.toNat = some length ∧ skip length afterModified = .ok ((), stop) := by
  rw [skipWide, bind_eq_ok]
  refine exists_congr fun modified => exists_congr fun afterModified => ?_
  cases wideOperandLength? modified.toNat with
  | none => simp only [fail_ne_ok, and_false, reduceCtorEq, false_and, exists_const]
  | some length => simp only [Option.some.injEq, exists_and_left, exists_eq_left']

inductive OperandsRead (offset : Nat) (start stop : Cursor) : UInt8 → Operation → Prop where
  | narrowLoad {byte : UInt8} (hindex : u8 start = .ok (byte, stop)) :
      OperandsRead offset start stop narrowLoad (.load narrowLoad byte.toUInt16 start.position)
  | wideLoad {opcode : UInt8} {index : UInt16} (hopcode : opcode = 0x13 ∨ opcode = 0x14)
      (hindex : u16 start = .ok (index, stop)) :
      OperandsRead offset start stop opcode (.load opcode index start.position)
  | invokeDynamic {index : UInt16} {middle : Cursor} (hindex : u16 start = .ok (index, middle))
      (hpadding : u16 middle = .ok (0, stop)) : OperandsRead offset start stop 0xBA (.invokeDynamic index)
  | tableSwitch (hskip : skipTableSwitch offset start = .ok ((), stop)) :
      OperandsRead offset start stop 0xAA (.other 0xAA)
  | lookupSwitch (hskip : skipLookupSwitch offset start = .ok ((), stop)) :
      OperandsRead offset start stop 0xAB (.other 0xAB)
  | wide (hskip : skipWide offset start = .ok ((), stop)) : OperandsRead offset start stop 0xC4 (.other 0xC4)
  | fixed {opcode : UInt8} {length : Nat} (hlength : operandLength? opcode.toNat = some length)
      (hskip : skip length start = .ok ((), stop)) : OperandsRead offset start stop opcode (.other opcode)

theorem exists_operandsRead {opcode : UInt8} {located : Located}
    (hread : readOperands offset opcode start = .ok (located, stop)) :
    ∃ operation, OperandsRead offset start stop opcode operation ∧ located = ⟨offset, operation⟩ := by
  simp only [readOperands] at hread
  generalize hkind : opcode.toNat = kind at hread
  split at hread
  case h_1 =>
    obtain rfl : opcode = narrowLoad := UInt8.toNat_inj.mp hkind
    rw [run_bind run_position] at hread
    obtain ⟨byte, hindex, rfl⟩ := bind_pure_eq_ok.mp hread
    exact ⟨_, .narrowLoad hindex, rfl⟩
  case h_2 | h_3 =>
    rw [run_bind run_position] at hread
    obtain ⟨index, hindex, rfl⟩ := bind_pure_eq_ok.mp hread
    exact ⟨_, .wideLoad (by simp [← UInt8.toNat_inj, hkind]) hindex, rfl⟩
  case h_4 =>
    obtain rfl : opcode = 0xBA := UInt8.toNat_inj.mp hkind
    obtain ⟨index, middle, hindex, hread⟩ := bind_eq_ok.mp hread
    obtain ⟨padding, _, hpadding, hread⟩ := bind_eq_ok.mp hread
    obtain ⟨hzero, hpure⟩ := refuse_eq_ok.mp hread
    obtain ⟨rfl, rfl⟩ := pure_eq_ok.mp hpure
    obtain rfl : padding = 0 := by simpa using hzero
    exact ⟨_, .invokeDynamic hindex hpadding, rfl⟩
  case h_5 =>
    obtain rfl : opcode = 0xAA := UInt8.toNat_inj.mp hkind
    obtain ⟨_, hskip, rfl⟩ := bind_pure_eq_ok.mp hread
    exact ⟨_, .tableSwitch hskip, rfl⟩
  case h_6 =>
    obtain rfl : opcode = 0xAB := UInt8.toNat_inj.mp hkind
    obtain ⟨_, hskip, rfl⟩ := bind_pure_eq_ok.mp hread
    exact ⟨_, .lookupSwitch hskip, rfl⟩
  case h_7 =>
    obtain rfl : opcode = 0xC4 := UInt8.toNat_inj.mp hkind
    obtain ⟨_, hskip, rfl⟩ := bind_pure_eq_ok.mp hread
    exact ⟨_, .wide hskip, rfl⟩
  case h_8 =>
    cases hlength : operandLength? kind with
    | none =>
      simp only [hlength] at hread
      exact absurd hread fail_ne_ok
    | some length =>
      simp only [hlength] at hread
      obtain ⟨_, hskip, rfl⟩ := bind_pure_eq_ok.mp hread
      exact ⟨_, .fixed (hkind ▸ hlength) hskip, rfl⟩

theorem OperandsRead.run {opcode : UInt8} {operation : Operation}
    (hoperands : OperandsRead offset start stop opcode operation) :
    readOperands offset opcode start = .ok (⟨offset, operation⟩, stop) := by
  cases hoperands with
  | narrowLoad hindex => exact (run_bind run_position).trans (run_bind hindex)
  | wideLoad hopcode hindex => rcases hopcode with rfl | rfl <;> exact (run_bind run_position).trans (run_bind hindex)
  | invokeDynamic hindex hpadding => exact (run_bind hindex).trans (run_bind hpadding)
  | tableSwitch hskip | lookupSwitch hskip | wide hskip => exact run_bind hskip
  | fixed hlength hskip =>
    -- The opcodes with a case of their own have no fixed length.
    rw [readOperands]
    generalize opcode.toNat = kind at hlength
    split
    case h_8 =>
      rw [hlength]
      exact run_bind hskip
    all_goals contradiction

end Bytecode

/-! ### Annotations -/

namespace ElementValue

variable {item memberValue : Reader (ElementValue StringSite)} {value : ElementValue StringSite}

theorem readNumber_eq_ok {tag : UInt8} :
    readNumber pool tag start = .ok (value, stop)
      ↔ ∃ index constant number, u16 start = .ok (index, stop) ∧ pool.get index = .ok constant
        ∧ number? (Char.ofNat tag.toNat) constant = some number ∧ value = .number (Char.ofNat tag.toNat) number := by
  rw [readNumber]
  simp only [bind_eq_ok, lift_eq_ok]
  constructor
  · rintro ⟨index, _, hindex, constant, _, ⟨hget, rfl⟩, hread⟩
    cases hnumber : number? (Char.ofNat tag.toNat) constant with
    | none =>
      simp only [hnumber] at hread
      exact absurd hread fail_ne_ok
    | some number =>
      simp only [hnumber] at hread
      obtain ⟨rfl, rfl⟩ := pure_eq_ok.mp hread
      exact ⟨index, constant, number, hindex, hget, hnumber, rfl⟩
  · rintro ⟨index, constant, number, hindex, hget, hnumber, rfl⟩
    refine ⟨index, stop, hindex, constant, stop, ⟨hget, rfl⟩, ?_⟩
    rw [hnumber]
    rfl

theorem readMember_eq_ok {member : String × ElementValue StringSite} :
    readMember pool memberValue start = .ok (member, stop)
      ↔ ∃ middle, indexed pool.text start = .ok (member.1, middle) ∧ memberValue middle = .ok (member.2, stop) := by
  rw [readMember, bind_indexed_eq_ok]
  simp only [bind_pure_eq_ok]
  constructor
  · rintro ⟨name, middle, hname, value, hvalue, rfl⟩
    exact ⟨middle, hname, hvalue⟩
  · rintro ⟨middle, hname, hvalue⟩
    exact ⟨_, middle, hname, _, hvalue, rfl⟩

inductive TaggedRead (pool : ConstantPool) (item memberValue : Reader (ElementValue StringSite)) (tag : UInt8)
    (start stop : Cursor) : Char → ElementValue StringSite → Prop where
  | number {kind : Char} {value : ElementValue StringSite} (hkind : kind ∈ ['B', 'C', 'D', 'F', 'I', 'J', 'S', 'Z'])
      (hnumber : readNumber pool tag start = .ok (value, stop)) : TaggedRead pool item memberValue tag start
        stop kind value
  | string {value : ElementValue StringSite} (hstring : readString pool start = .ok (value, stop)) :
      TaggedRead pool item memberValue tag start stop 's' value
  | enumConstant {type name : String} {middle : Cursor} (htype : indexed pool.text start = .ok (type, middle))
      (hname : indexed pool.text middle = .ok (name, stop)) :
      TaggedRead pool item memberValue tag start stop 'e' (.enumConstant type name)
  | classRef {descriptor : String} (hdescriptor : indexed pool.text start = .ok (descriptor, stop)) :
      TaggedRead pool item memberValue tag start stop 'c' (.classRef descriptor)
  | nested {type : String} {members : List (String × ElementValue StringSite)} {middle : Cursor}
      (htype : indexed pool.text start = .ok (type, middle))
      (hmembers : counted (readMember pool memberValue) middle = .ok (members, stop)) :
      TaggedRead pool item memberValue tag start stop '@' (.nested type members)
  | array {values : List (ElementValue StringSite)} (hvalues : counted item start = .ok (values, stop)) :
      TaggedRead pool item memberValue tag start stop '[' (.array values)

theorem exists_taggedRead (hread : readWith pool item memberValue start = .ok (value, stop)) :
    ∃ tag afterTag, u8 start = .ok (tag, afterTag)
      ∧ TaggedRead pool item memberValue tag afterTag stop (Char.ofNat tag.toNat) value := by
  obtain ⟨tag, afterTag, htag, hread⟩ := bind_eq_ok.mp hread
  refine ⟨tag, afterTag, htag, ?_⟩
  generalize Char.ofNat tag.toNat = kind at hread ⊢
  split at hread
  case h_1 | h_2 | h_3 | h_4 | h_5 | h_6 | h_7 | h_8 => exact .number (by decide) hread
  case h_9 => exact .string hread
  case h_10 =>
    obtain ⟨type, middle, htype, hread⟩ := bind_indexed_eq_ok.mp hread
    obtain ⟨name, _, hname, hpure⟩ := bind_indexed_eq_ok.mp hread
    obtain ⟨rfl, rfl⟩ := pure_eq_ok.mp hpure
    exact .enumConstant htype hname
  case h_11 =>
    obtain ⟨descriptor, _, hdescriptor, hpure⟩ := bind_indexed_eq_ok.mp hread
    obtain ⟨rfl, rfl⟩ := pure_eq_ok.mp hpure
    exact .classRef hdescriptor
  case h_12 =>
    obtain ⟨type, middle, htype, hread⟩ := bind_indexed_eq_ok.mp hread
    obtain ⟨members, hmembers, rfl⟩ := bind_pure_eq_ok.mp hread
    exact .nested htype hmembers
  case h_13 =>
    obtain ⟨values, hvalues, rfl⟩ := bind_pure_eq_ok.mp hread
    exact .array hvalues
  case h_14 => exact absurd hread throw_ne_ok

theorem TaggedRead.run {tag : UInt8} {afterTag : Cursor} (htag : u8 start = .ok (tag, afterTag))
    (htagged : TaggedRead pool item memberValue tag afterTag stop (Char.ofNat tag.toNat) value) :
    readWith pool item memberValue start = .ok (value, stop) := by
  rw [readWith, run_bind htag]
  generalize Char.ofNat tag.toNat = kind at htagged ⊢
  cases htagged with
  | number hkind hnumber =>
    simp only [List.mem_cons, List.not_mem_nil, or_false] at hkind
    rcases hkind with rfl | rfl | rfl | rfl | rfl | rfl | rfl | rfl <;> exact hnumber
  | string hstring => exact hstring
  | enumConstant htype hname => exact (run_bind_indexed htype).trans (run_bind_indexed hname)
  | classRef hdescriptor => exact run_bind_indexed hdescriptor
  | nested htype hmembers => exact (run_bind_indexed htype).trans (run_bind hmembers)
  | array hvalues => exact run_bind hvalues

end ElementValue

namespace AnnotationUse

theorem read_eq_ok {use : AnnotationUse StringSite} :
    read pool start = .ok (use, stop)
      ↔ ∃ middle, indexed pool.text start = .ok (use.type, middle)
        ∧ counted (ElementValue.readMember pool (ElementValue.read pool 1)) middle = .ok (use.members, stop) := by
  rw [read, bind_indexed_eq_ok]
  simp only [bind_pure_eq_ok]
  constructor
  · rintro ⟨type, middle, htype, members, hmembers, rfl⟩
    exact ⟨middle, htype, hmembers⟩
  · rintro ⟨middle, htype, hmembers⟩
    exact ⟨_, middle, htype, _, hmembers, rfl⟩

end AnnotationUse

/-! ### Bootstrap methods -/

theorem BootstrapArgument.read_eq_ok {argument : BootstrapArgument} :
    read pool start = .ok (argument, stop)
      ↔ u16 start = .ok (argument.index, stop) ∧ argument.position = start.position
        ∧ ∃ constant, pool.get argument.index = .ok constant := by
  rw [read, run_bind run_position]
  simp only [bind_eq_ok, lift_eq_ok, pure_eq_ok]
  constructor
  · rintro ⟨index, _, hindex, constant, _, ⟨hget, rfl⟩, rfl, rfl⟩
    exact ⟨hindex, rfl, constant, hget⟩
  · rintro ⟨hindex, hposition, constant, hget⟩
    exact ⟨_, stop, hindex, constant, stop, ⟨hget, rfl⟩, by rw [← hposition], rfl⟩

theorem BootstrapMethod.read_eq_ok {method : BootstrapMethod} :
    read pool start = .ok (method, stop)
      ↔ ∃ middle, indexed pool.methodHandle start = .ok (method.handle, middle)
        ∧ counted (BootstrapArgument.read pool) middle = .ok (method.arguments, stop) := by
  rw [read, bind_indexed_eq_ok]
  simp only [bind_pure_eq_ok]
  constructor
  · rintro ⟨handle, middle, hhandle, arguments, harguments, rfl⟩
    exact ⟨middle, hhandle, harguments⟩
  · rintro ⟨middle, hhandle, harguments⟩
    exact ⟨_, middle, hhandle, _, harguments, rfl⟩

/-! ### Members -/

structure MemberHeader where
  access : UInt16
  name : String
  descriptor : String

def MemberHeader.ReadAt (header : MemberHeader) (pool : ConstantPool) (start stop : Cursor) : Prop :=
  ∃ afterAccess afterName, u16 start = .ok (header.access, afterAccess)
    ∧ indexed pool.text afterAccess = .ok (header.name, afterName)
    ∧ indexed pool.text afterName = .ok (header.descriptor, stop)

theorem MemberHeader.bind_eq_ok {α : Type} {attributes : UInt16 → String → String → Reader α} {a : α} :
    (do
      let access ← u16
      let name ← pool.text (← u16)
      let descriptor ← pool.text (← u16)
      attributes access name descriptor) start = .ok (a, stop)
      ↔ ∃ (header : MemberHeader) (middle : Cursor), header.ReadAt pool start middle
        ∧ attributes header.access header.name header.descriptor middle = .ok (a, stop) := by
  rw [Reader.bind_eq_ok]
  simp only [bind_indexed_eq_ok]
  constructor
  · rintro ⟨access, afterAccess, haccess, name, afterName, hname, descriptor, middle, hdescriptor, hrest⟩
    exact ⟨⟨access, name, descriptor⟩, middle, ⟨afterAccess, afterName, haccess, hname, hdescriptor⟩, hrest⟩
  · rintro ⟨header, middle, ⟨afterAccess, afterName, haccess, hname, hdescriptor⟩, hrest⟩
    exact ⟨_, afterAccess, haccess, _, afterName, hname, _, middle, hdescriptor, hrest⟩

theorem Field.readConstant_eq_ok {constant : Loadable StringSite} :
    readConstant pool start = .ok (constant, stop)
      ↔ ∃ index, u16 start = .ok (index, stop)
        ∧ Loadable.ofSlot pool ⟨.wideString, start.position, index⟩ = .ok constant := by
  rw [readConstant, run_bind run_position, Reader.bind_eq_ok]
  simp only [lift_eq_ok]
  constructor
  · rintro ⟨index, _, hindex, hconstant, rfl⟩
    exact ⟨index, hindex, hconstant⟩
  · rintro ⟨index, hindex, hconstant⟩
    exact ⟨index, stop, hindex, hconstant, rfl⟩

theorem Field.read_eq_ok {field : Field StringSite} :
    read pool start = .ok (field, stop)
      ↔ ∃ (header : MemberHeader) (middle : Cursor), header.ReadAt pool start middle
        ∧ Attribute.collect pool (addAttribute pool)
            { access := header.access, name := header.name, descriptor := header.descriptor } middle
          = .ok (field, stop) :=
  MemberHeader.bind_eq_ok

theorem PendingMethod.read_eq_ok {pending : PendingMethod} :
    read pool start = .ok (pending, stop)
      ↔ ∃ (header : MemberHeader) (middle : Cursor), header.ReadAt pool start middle
        ∧ Attribute.collect pool (addAttribute pool)
            { method := { access := header.access, name := header.name, descriptor := header.descriptor } } middle
          = .ok (pending, stop) :=
  MemberHeader.bind_eq_ok

theorem Attribute.read_eq_ok {attr : Attribute} :
    read pool start = .ok (attr, stop)
      ↔ ∃ afterName length afterLength, indexed pool.text start = .ok (attr.name, afterName)
        ∧ u32 afterName = .ok (length, afterLength) ∧ slice length.toNat afterLength = .ok (attr.body, stop) := by
  rw [read, bind_indexed_eq_ok]
  simp only [Reader.bind_eq_ok, pure_eq_ok]
  constructor
  · rintro ⟨name, afterName, hname, length, afterLength, hlength, body, _, hbody, rfl, rfl⟩
    exact ⟨afterName, length, afterLength, hname, hlength, hbody⟩
  · rintro ⟨afterName, length, afterLength, hname, hlength, hbody⟩
    exact ⟨_, afterName, hname, length, afterLength, hlength, _, stop, hbody, rfl, rfl⟩

theorem PendingMethod.readCode_eq_ok {code : Cursor} :
    readCode start = .ok (code, stop)
      ↔ ∃ afterLimits length afterLength, skip 4 start = .ok ((), afterLimits)
        ∧ u32 afterLimits = .ok (length, afterLength) ∧ slice length.toNat afterLength = .ok (code, stop) := by
  rw [readCode]
  simp only [Reader.bind_eq_ok]
  constructor
  · rintro ⟨_, afterLimits, hlimits, length, afterLength, hlength, hcode⟩
    exact ⟨afterLimits, length, afterLength, hlimits, hlength, hcode⟩
  · rintro ⟨afterLimits, length, afterLength, hlimits, hlength, hcode⟩
    exact ⟨_, afterLimits, hlimits, length, afterLength, hlength, hcode⟩

/-! ### The declaration -/

namespace ClassFile

theorem readSuperclass_eq_ok {superclass? : Option String} :
    readSuperclass pool start = .ok (superclass?, stop)
      ↔ ∃ index, u16 start = .ok (index, stop)
        ∧ ((index = 0 ∧ superclass? = none)
          ∨ index ≠ 0 ∧ ∃ name, pool.className index = .ok name ∧ superclass? = some name) := by
  rw [readSuperclass, Reader.bind_eq_ok]
  refine exists_congr fun index => ?_
  by_cases hnone : index = 0
  · simp only [if_pos hnone, pure_eq_ok]
    constructor
    · rintro ⟨_, hindex, rfl, rfl⟩
      exact ⟨hindex, .inl ⟨hnone, rfl⟩⟩
    · rintro ⟨hindex, ⟨-, rfl⟩ | ⟨hsome, -⟩⟩
      · exact ⟨stop, hindex, rfl, rfl⟩
      · exact absurd hnone hsome
  · simp only [if_neg hnone, Reader.bind_eq_ok, lift_eq_ok, pure_eq_ok]
    constructor
    · rintro ⟨_, hindex, name, _, ⟨hname, rfl⟩, rfl, rfl⟩
      exact ⟨hindex, .inr ⟨hnone, name, hname, rfl⟩⟩
    · rintro ⟨hindex, ⟨hzero, -⟩ | ⟨-, name, hname, rfl⟩⟩
      · exact absurd hzero hnone
      · exact ⟨stop, hindex, name, stop, ⟨hname, rfl⟩, rfl, rfl⟩

/-- The parts that stand behind the pool, and where each of them ends. -/
structure Parts where
  access : UInt16
  afterAccess : Cursor
  name : String
  afterName : Cursor
  superclass? : Option String
  afterSuperclass : Cursor
  interfaces : List String
  afterInterfaces : Cursor
  fields : List (Field StringSite)
  afterFields : Cursor
  pending : List PendingMethod
  afterPending : Cursor
  attributes : ClassAttributes
  /-- The pending methods with their instructions. -/
  methods : List (Method StringSite)

def Parts.declaration (parts : Parts) (minor major : UInt16) : Declaration StringSite :=
  ⟨minor, major, parts.access, parts.name, parts.superclass?, parts.interfaces, parts.fields, parts.methods,
    parts.attributes.annotations⟩

structure Parts.ReadAt (parts : Parts) (pool : ConstantPool) (start stop : Cursor) : Prop where
  access : u16 start = .ok (parts.access, parts.afterAccess)
  name : indexed pool.className parts.afterAccess = .ok (parts.name, parts.afterName)
  superclass? : readSuperclass pool parts.afterName = .ok (parts.superclass?, parts.afterSuperclass)
  interfaces : counted (indexed pool.className) parts.afterSuperclass = .ok (parts.interfaces, parts.afterInterfaces)
  fields : counted (Field.read pool) parts.afterInterfaces = .ok (parts.fields, parts.afterFields)
  pending : counted (PendingMethod.read pool) parts.afterFields = .ok (parts.pending, parts.afterPending)
  attributes : Attribute.collect pool (ClassAttributes.add pool) {} parts.afterPending = .ok (parts.attributes, stop)
  ended : stop.rest = []
  methods : (parts.pending.mapM fun method => method.complete pool parts.attributes.bootstrapMethods)
    = .ok parts.methods

theorem readDeclaration_eq_ok {minor major : UInt16} {strings : List Slot} {declaration : Declaration StringSite} :
    readDeclaration pool minor major start = .ok ((strings, declaration), stop)
      ↔ ∃ parts : Parts, parts.ReadAt pool start stop
        ∧ strings = stringSlots pool parts.attributes.bootstrapMethods
          ∧ declaration = parts.declaration minor major := by
  rw [readDeclaration]
  constructor
  · intro hread
    obtain ⟨access, afterAccess, haccess, hread⟩ := Reader.bind_eq_ok.mp hread
    obtain ⟨name, afterName, hname, hread⟩ := bind_indexed_eq_ok.mp hread
    obtain ⟨superclass?, afterSuperclass, hsuperclass, hread⟩ := Reader.bind_eq_ok.mp hread
    obtain ⟨interfaces, afterInterfaces, hinterfaces, hread⟩ := Reader.bind_eq_ok.mp hread
    obtain ⟨fields, afterFields, hfields, hread⟩ := Reader.bind_eq_ok.mp hread
    obtain ⟨pending, afterPending, hpending, hread⟩ := Reader.bind_eq_ok.mp hread
    obtain ⟨attributes, afterAttributes, hattributes, hread⟩ := Reader.bind_eq_ok.mp hread
    rw [run_bind run_get] at hread
    obtain ⟨hended, hread⟩ := refuse_eq_ok.mp hread
    obtain ⟨methods, _, hlifted, hpure⟩ := Reader.bind_eq_ok.mp hread
    obtain ⟨hmethods, rfl⟩ := mapM_lift_eq_ok.mp hlifted
    obtain ⟨hresult, rfl⟩ := pure_eq_ok.mp hpure
    cases hresult
    refine ⟨⟨access, afterAccess, name, afterName, superclass?, afterSuperclass, interfaces, afterInterfaces, fields,
      afterFields, pending, afterPending, attributes, methods⟩, ?_, rfl, rfl⟩
    exact ⟨haccess, hname, hsuperclass, hinterfaces, hfields, hpending, hattributes, by simpa using hended, hmethods⟩
  · rintro ⟨parts, hparts, rfl, rfl⟩
    rw [run_bind hparts.access, run_bind_indexed hparts.name, run_bind hparts.superclass?]
    refine (run_bind hparts.interfaces).trans ?_
    rw [run_bind hparts.fields, run_bind hparts.pending, run_bind hparts.attributes, run_bind run_get]
    refine refuse_eq_ok.mpr ⟨by rw [hparts.ended]; decide, ?_⟩
    exact (run_bind (mapM_lift_eq_ok.mpr ⟨hparts.methods, rfl⟩)).trans rfl

end ClassFile

end Retoken
