import Retoken.Proofs.Relocation.Basic

/-!
# The readers that all others are made of

How words, indices, slots and repetitions are read in a relocated file. A word that is not at a slot is read as before, and so is whatever the pool says about an index that names no string. At a slot the new index is read.
-/

namespace Retoken

open BigEndian

/-! ### Look-ups that a relocation keeps -/

namespace Relocation

variable {relocation : Relocation} {index : UInt16}

theorem utf8Bytes_kept {bytes : List UInt8} (hbytes : relocation.source.utf8Bytes index = .ok bytes) :
    relocation.target.utf8Bytes index = .ok bytes := by
  rw [ConstantPool.utf8Bytes_eq_ok] at hbytes ⊢
  exact relocation.kept hbytes nofun

theorem text_kept {text : String} (htext : relocation.source.text index = .ok text) :
    relocation.target.text index = .ok text := by
  rw [ConstantPool.text_eq_ok] at htext ⊢
  obtain ⟨bytes, hget, hdecoded⟩ := htext
  exact ⟨bytes, relocation.kept hget nofun, hdecoded⟩

theorem className_kept {name : String} (hname : relocation.source.className index = .ok name) :
    relocation.target.className index = .ok name := by
  rw [ConstantPool.className_eq_ok] at hname ⊢
  obtain ⟨text, hget, htext⟩ := hname
  exact ⟨text, relocation.kept hget nofun, text_kept htext⟩

theorem nameAndType_kept {pair : String × String}
    (hpair : relocation.source.nameAndType index = .ok pair) :
    relocation.target.nameAndType index = .ok pair := by
  rw [ConstantPool.nameAndType_eq_ok] at hpair ⊢
  obtain ⟨nameIndex, descriptorIndex, hget, hname, hdescriptor⟩ := hpair
  exact ⟨nameIndex, descriptorIndex, relocation.kept hget nofun, text_kept hname, text_kept hdescriptor⟩

theorem member_kept {member : String × String × String}
    (hmember : relocation.source.member index = .ok member) :
    relocation.target.member index = .ok member := by
  rw [ConstantPool.member_eq_ok] at hmember ⊢
  obtain ⟨kind, ownerIndex, pairIndex, hget, howner, hpair⟩ := hmember
  exact ⟨kind, ownerIndex, pairIndex, relocation.kept hget nofun, className_kept howner,
    nameAndType_kept hpair⟩

/-- A method handle may also be found at another index that names the same constant. -/
theorem methodHandle_kept {index' : UInt16} {handle : MethodHandle}
    (hsame : relocation.target.get? index' = relocation.source.get? index)
    (hhandle : relocation.source.methodHandle index = .ok handle) :
    relocation.target.methodHandle index' = .ok handle := by
  rw [ConstantPool.methodHandle_eq_ok] at hhandle ⊢
  obtain ⟨reference, hget, hmember⟩ := hhandle
  exact ⟨reference, hsame.trans hget, member_kept hmember⟩

theorem methodHandle_kept_same {handle : MethodHandle}
    (hhandle : relocation.source.methodHandle index = .ok handle) :
    relocation.target.methodHandle index = .ok handle := by
  obtain ⟨reference, hget, -⟩ := ConstantPool.methodHandle_eq_ok.mp hhandle
  exact methodHandle_kept (by rw [hget, relocation.kept hget nofun]) hhandle

end Relocation

/-! ### Words and slots -/

namespace Reader

variable {α β : Type} {pool : ConstantPool} {start stop : Cursor}

theorem u8_carried {byte : UInt8} (hread : u8 start = .ok (byte, stop)) :
    Carried pool start stop [] fun relocation =>
      u8 (relocation.cursor start) = .ok (byte, relocation.cursor stop) := by
  obtain ⟨hrest, hposition⟩ := u8_eq_ok.mp hread
  exact .plain [byte] hrest hposition fun relocation hmoved hmovedPosition =>
    u8_eq_ok.mpr ⟨hmoved, hmovedPosition⟩

theorem u16_carried {word : UInt16} (hread : u16 start = .ok (word, stop)) :
    Carried pool start stop [] fun relocation =>
      u16 (relocation.cursor start) = .ok (word, relocation.cursor stop) := by
  obtain ⟨hrest, hposition⟩ := u16_eq_ok.mp hread
  exact .plain _ hrest hposition fun relocation hmoved hmovedPosition =>
    u16_eq_ok.mpr ⟨hmoved, hmovedPosition⟩

theorem u32_carried {word : UInt32} (hread : u32 start = .ok (word, stop)) :
    Carried pool start stop [] fun relocation =>
      u32 (relocation.cursor start) = .ok (word, relocation.cursor stop) := by
  obtain ⟨hrest, hposition⟩ := u32_eq_ok.mp hread
  exact .plain _ hrest hposition fun relocation hmoved hmovedPosition =>
    u32_eq_ok.mpr ⟨hmoved, hmovedPosition⟩

theorem skip_carried {n : Nat} (hread : skip n start = .ok ((), stop)) :
    Carried pool start stop [] fun relocation =>
      skip n (relocation.cursor start) = .ok ((), relocation.cursor stop) := by
  obtain ⟨taken, hrest, hlength, hposition⟩ := skip_eq_ok.mp hread
  refine .plain taken hrest (by rw [hposition, hlength]) fun relocation hmoved hmovedPosition => ?_
  exact skip_eq_ok.mpr ⟨taken, hmoved, hlength, by rw [hmovedPosition, hlength]⟩

theorem slot_carried {slot : Slot} (bytes : List UInt8) {after : Relocation → Prop}
    (hstart : slot.position = start.position) (hwidth : slot.kind.width = bytes.length)
    (hrest : start.rest = bytes ++ stop.rest) (hposition : stop.position = start.position + bytes.length)
    (hafter : ∀ relocation : Relocation,
      (relocation.cursor start).rest
          = relocation.overwrite start.position bytes ++ (relocation.cursor stop).rest →
        (relocation.cursor stop).position = (relocation.cursor start).position + bytes.length →
          after relocation) :
    Carried pool start stop [slot] after := by
  have hspread : Spread start.position stop.position [slot] :=
    .singleton (Nat.le_of_eq hstart.symm) (by rw [Slot.stop, hstart, hwidth]; omega)
  refine ⟨⟨bytes, hrest, hposition⟩, [slot], hspread, List.Subperm.refl _, fun relocation _ _ => ?_⟩
  obtain ⟨hmoved, hmovedPosition⟩ := Relocation.cursor_of_rest relocation hrest hposition
  exact hafter relocation hmoved hmovedPosition

theorem slot16_carried {index : UInt16} (slot : Slot) (hread : u16 start = .ok (index, stop))
    (hkind : slot.kind ≠ .narrowString) (hstart : slot.position = start.position)
    (hindex : slot.index = index) :
    Carried pool start stop [slot] fun relocation =>
      u16 (relocation.cursor start) = .ok (relocation.index slot, relocation.cursor stop) := by
  obtain ⟨kind, position, _⟩ := slot
  subst hstart hindex
  obtain ⟨hrest, hposition⟩ := u16_eq_ok.mp hread
  have hwidth : kind.width = 2 := by
    cases kind with
    | narrowString => exact absurd rfl hkind
    | wideString => rfl
    | utf8 => rfl
  refine slot_carried (bytes16 _) rfl hwidth hrest hposition fun relocation hmoved hmovedPosition => ?_
  refine u16_eq_ok.mpr ⟨?_, hmovedPosition⟩
  rw [hmoved, bytes16, Relocation.overwrite_cons, Relocation.overwrite_cons, Relocation.overwrite_nil,
    Relocation.index]
  cases kind with
  | narrowString => exact absurd rfl hkind
  | wideString => rw [bytes16_word16]
  | utf8 => rw [bytes16_word16]

theorem slot8_carried {byte : UInt8} (slot : Slot) (hread : u8 start = .ok (byte, stop))
    (hkind : slot.kind = .narrowString) (hstart : slot.position = start.position)
    (hindex : slot.index = byte.toUInt16) :
    Carried pool start stop [slot] fun relocation =>
      ∃ byte', u8 (relocation.cursor start) = .ok (byte', relocation.cursor stop)
        ∧ byte'.toUInt16 = relocation.index slot := by
  obtain ⟨kind, position, _⟩ := slot
  subst hkind hstart hindex
  obtain ⟨hrest, hposition⟩ := u8_eq_ok.mp hread
  refine slot_carried [byte] rfl rfl hrest hposition fun relocation hmoved hmovedPosition => ?_
  refine ⟨(relocation.written start.position).getD byte, u8_eq_ok.mpr ⟨?_, hmovedPosition⟩, ?_⟩
  · rw [hmoved, Relocation.overwrite_cons, Relocation.overwrite_nil]
    rfl
  · simp only [Relocation.index]
    cases relocation.written start.position <;> rfl

/-! ### Look-ups of an index that is read -/

def indexed (lookup : UInt16 → Except ClassError α) : Reader α := do
  lookup (← u16)

theorem bind_indexed_eq_ok {lookup : UInt16 → Except ClassError α} {next : α → Reader β} {b : β} :
    (u16 >>= fun index => (liftM (lookup index) : Reader α) >>= next) start = .ok (b, stop)
      ↔ ∃ a middle, indexed lookup start = .ok (a, middle) ∧ next a middle = .ok (b, stop) := by
  rw [← bind_assoc]
  exact bind_eq_ok

theorem run_bind_indexed {lookup : UInt16 → Except ClassError α} {next : α → Reader β}
    {middle : Cursor} {a : α} (hlookup : indexed lookup start = .ok (a, middle)) :
    (u16 >>= fun index => (liftM (lookup index) : Reader α) >>= next) start = next a middle := by
  rw [← bind_assoc]
  exact run_bind hlookup

theorem indexed_eq_ok {lookup : UInt16 → Except ClassError α} {a : α} :
    indexed lookup start = .ok (a, stop)
      ↔ ∃ index, u16 start = .ok (index, stop) ∧ lookup index = .ok a := by
  rw [indexed, bind_eq_ok]
  constructor
  · rintro ⟨index, middle, hindex, hlifted⟩
    obtain ⟨hlookup, rfl⟩ := lift_eq_ok.mp hlifted
    exact ⟨index, hindex, hlookup⟩
  · rintro ⟨index, hindex, hlookup⟩
    exact ⟨index, stop, hindex, run_lift hlookup⟩

theorem indexed_carried (lookup : ConstantPool → UInt16 → Except ClassError α) {a : α}
    (hkept : ∀ {relocation : Relocation} {index : UInt16}, lookup relocation.source index = .ok a →
      lookup relocation.target index = .ok a)
    (hread : indexed (lookup pool) start = .ok (a, stop)) :
    Carried pool start stop [] fun relocation =>
      indexed (lookup relocation.target) (relocation.cursor start) = .ok (a, relocation.cursor stop) := by
  obtain ⟨index, hindex, hlookup⟩ := indexed_eq_ok.mp hread
  refine (u16_carried hindex).imp fun relocation hsource hrun => ?_
  subst hsource
  exact indexed_eq_ok.mpr ⟨index, hrun, hkept hlookup⟩

theorem text_carried {text : String} (hread : indexed pool.text start = .ok (text, stop)) :
    Carried pool start stop [] fun relocation =>
      indexed relocation.target.text (relocation.cursor start) = .ok (text, relocation.cursor stop) :=
  indexed_carried ConstantPool.text Relocation.text_kept hread

/-! ### Repetitions -/

section Repetitions

variable {item : Reader α} (item' : Relocation → Reader α) {slots : α → List Slot} (moved : Relocation → α → α)

theorem times_kept (kept : Relocation → α → Prop)
    (hitem : ∀ {start stop : Cursor} {a : α}, item start = .ok (a, stop) →
      Carried pool start stop (slots a) fun relocation =>
        item' relocation (relocation.cursor start) = .ok (moved relocation a, relocation.cursor stop)
          ∧ kept relocation a)
    {n : Nat} {items : List α} (hread : times item n start = .ok (items, stop)) :
    Carried pool start stop (items.flatMap slots) fun relocation =>
      times (item' relocation) n (relocation.cursor start)
          = .ok (items.map (moved relocation), relocation.cursor stop)
        ∧ ∀ a ∈ items, kept relocation a := by
  induction n generalizing start items with
  | zero =>
    rw [times_zero] at hread
    obtain ⟨rfl, rfl⟩ := pure_eq_ok.mp hread
    exact .refl start fun relocation _ => ⟨rfl, nofun⟩
  | succ n ih =>
    rw [times_succ] at hread
    obtain ⟨a, middle, ha, hread⟩ := bind_eq_ok.mp hread
    obtain ⟨rest, last, hrest, hpure⟩ := bind_eq_ok.mp hread
    obtain ⟨rfl, rfl⟩ := pure_eq_ok.mp hpure
    refine ((hitem ha).and (ih hrest)).imp fun relocation _ hrun => ?_
    obtain ⟨⟨hitemRun, hkept⟩, hrestRun, hkeptRest⟩ := hrun
    refine ⟨?_, List.forall_mem_cons.mpr ⟨hkept, hkeptRest⟩⟩
    rw [times_succ, run_bind hitemRun, run_bind hrestRun, run_pure, List.map_cons]

theorem counted_kept (kept : Relocation → α → Prop)
    (hitem : ∀ {start stop : Cursor} {a : α}, item start = .ok (a, stop) →
      Carried pool start stop (slots a) fun relocation =>
        item' relocation (relocation.cursor start) = .ok (moved relocation a, relocation.cursor stop)
          ∧ kept relocation a)
    {items : List α} (hread : counted item start = .ok (items, stop)) :
    Carried pool start stop (items.flatMap slots) fun relocation =>
      counted (item' relocation) (relocation.cursor start)
          = .ok (items.map (moved relocation), relocation.cursor stop)
        ∧ ∀ a ∈ items, kept relocation a := by
  rw [counted] at hread
  obtain ⟨count, middle, hcount, hread⟩ := bind_eq_ok.mp hread
  refine ((u16_carried hcount).and (times_kept item' moved kept hitem hread)).imp fun relocation _ hrun => ?_
  obtain ⟨hcountRun, hitemsRun, hkept⟩ := hrun
  exact ⟨by rw [counted, run_bind hcountRun, hitemsRun], hkept⟩

theorem times_carried
    (hitem : ∀ {start stop : Cursor} {a : α}, item start = .ok (a, stop) →
      Carried pool start stop (slots a) fun relocation =>
        item' relocation (relocation.cursor start) = .ok (moved relocation a, relocation.cursor stop))
    {n : Nat} {items : List α} (hread : times item n start = .ok (items, stop)) :
    Carried pool start stop (items.flatMap slots) fun relocation =>
      times (item' relocation) n (relocation.cursor start)
        = .ok (items.map (moved relocation), relocation.cursor stop) :=
  (times_kept item' moved (fun _ _ => True)
    (fun ha => (hitem ha).imp fun _ _ hrun => ⟨hrun, trivial⟩) hread).imp fun _ _ hrun => hrun.1

theorem counted_carried
    (hitem : ∀ {start stop : Cursor} {a : α}, item start = .ok (a, stop) →
      Carried pool start stop (slots a) fun relocation =>
        item' relocation (relocation.cursor start) = .ok (moved relocation a, relocation.cursor stop))
    {items : List α} (hread : counted item start = .ok (items, stop)) :
    Carried pool start stop (items.flatMap slots) fun relocation =>
      counted (item' relocation) (relocation.cursor start)
        = .ok (items.map (moved relocation), relocation.cursor stop) :=
  (counted_kept item' moved (fun _ _ => True)
    (fun ha => (hitem ha).imp fun _ _ hrun => ⟨hrun, trivial⟩) hread).imp fun _ _ hrun => hrun.1

theorem untilEndAfter_carried
    (hitem : ∀ {start stop : Cursor} {a : α}, item start = .ok (a, stop) →
      Carried pool start stop (slots a) fun relocation =>
        item' relocation (relocation.cursor start) = .ok (moved relocation a, relocation.cursor stop))
    {fuel : Nat} {items : List α} (hread : untilEndAfter item [] fuel start = .ok (items, stop)) :
    Carried pool start stop (items.flatMap slots) fun relocation =>
      untilEndAfter (item' relocation) [] fuel (relocation.cursor start)
        = .ok (items.map (moved relocation), relocation.cursor stop) := by
  induction fuel generalizing start items with
  | zero =>
    obtain ⟨rfl, rfl⟩ := pure_eq_ok.mp hread
    exact .refl start fun relocation _ => rfl
  | succ fuel ih =>
    rw [untilEndAfter_succ] at hread
    have hended : ∀ relocation : Relocation,
        (relocation.cursor start).rest.isEmpty = start.rest.isEmpty := by
      intro relocation
      rw [Relocation.cursor]
      cases start.rest with
      | nil => rfl
      | cons byte bytes => rw [Relocation.overwrite_cons, List.isEmpty_cons, List.isEmpty_cons]
    by_cases hempty : start.rest.isEmpty
    · rw [if_pos hempty, ← run_pure] at hread
      obtain ⟨rfl, rfl⟩ := pure_eq_ok.mp hread
      refine .refl start fun relocation _ => ?_
      rw [untilEndAfter_succ, if_pos (by rw [hended, hempty])]
      rfl
    · rw [if_neg hempty] at hread
      obtain ⟨a, middle, ha, hread⟩ := bind_eq_ok.mp hread
      obtain ⟨rest, last, hrest, hpure⟩ := bind_eq_ok.mp hread
      obtain ⟨rfl, rfl⟩ := pure_eq_ok.mp hpure
      refine ((hitem ha).and (ih hrest)).imp fun relocation _ hrun => ?_
      obtain ⟨hitemRun, hrestRun⟩ := hrun
      rw [untilEndAfter_succ, if_neg (by rw [hended]; exact hempty), run_bind hitemRun,
        run_bind hrestRun, run_pure, List.map_cons]

end Repetitions

end Reader

end Retoken
