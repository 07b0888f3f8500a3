import Retoken.Proofs.ConstantPool.Lookups
import Retoken.Proofs.Relocation.Spread

/-!
# Reading a relocated file

A relocation describes how the part of a class file behind its pool changes when the file is written again: everything moves by the same distance, some bytes are overwritten, and another pool stands in front, in which all constants but strings are the same as before. The new file is read the way the old one was as long as bytes are overwritten only at slots, and as long as each slot still shows something of its kind.

`Carried` is how this is proved for one reader after the other. It speaks about a single run on the old file, from one cursor to another: it says that the bytes in between hold certain slots, and that something is true of every relocation that keeps to those slots. The run of a sequence is carried if its parts are (`Carried.and`), so the proof for a reader follows its definition.
-/

namespace Retoken

open BigEndian

def ConstantPool.Suits (pool : ConstantPool) (slot : Slot) : Prop :=
  ∃ constant, pool.get? slot.index = some constant
    ∧ (slot.kind = .utf8 → ∃ bytes, constant = .utf8 bytes)

structure Relocation where
  source : ConstantPool
  target : ConstantPool
  /-- How far everything behind the pool moves. -/
  shift : Nat
  /-- The bytes that are overwritten, by their positions in the old file. -/
  written : Nat → Option UInt8
  /-- The text that each slot shows afterwards. -/
  text : Slot → String
  kept : ∀ {index constant}, source.get? index = some constant →
    (∀ text, constant ≠ .string text) → target.get? index = some constant

namespace Relocation

variable (relocation : Relocation)

def overwrite (position : Nat) (bytes : List UInt8) : List UInt8 :=
  bytes.mapIdx fun i byte => (relocation.written (position + i)).getD byte

def cursor (start : Cursor) : Cursor :=
  ⟨start.position + relocation.shift, relocation.overwrite start.position start.rest⟩

def index (slot : Slot) : UInt16 :=
  match slot.kind with
  | .narrowString => ((relocation.written slot.position).map UInt8.toUInt16).getD slot.index
  | .wideString | .utf8 =>
    word16 ((relocation.written slot.position).getD (UInt8.ofNat (slot.index.toNat / 256)))
      ((relocation.written (slot.position + 1)).getD (UInt8.ofNat slot.index.toNat))

def slot (slot : Slot) : Slot :=
  ⟨slot.kind, slot.position + relocation.shift, relocation.index slot⟩

def site (site : StringSite) : StringSite :=
  .unedited (relocation.text site.slot) (relocation.slot site.slot)

/-- Whether a slot shows the same constant as before, or a readable text in place of another. -/
def Keeps (slot : Slot) : Prop :=
  (relocation.target.get? (relocation.index slot) = relocation.source.get? slot.index
      ∧ ∀ text, relocation.source.shownText? slot.kind slot.index = some text →
        relocation.text slot = text)
    ∨ ((∃ text, relocation.source.shownText? slot.kind slot.index = some text)
      ∧ relocation.target.shownText? slot.kind (relocation.index slot)
        = some (relocation.text slot))

/-- Whether a stretch of the file is overwritten at the given slots only, and these are kept. -/
structure Fits (low high : Nat) (slots : List Slot) : Prop where
  confined : ∀ position, low ≤ position → position < high → relocation.written position ≠ none →
    ∃ slot ∈ slots, slot.Covers position
  keeps : ∀ slot ∈ slots, relocation.source.Suits slot → relocation.Keeps slot

/-! ### Bytes -/

theorem overwrite_append (position : Nat) (first second : List UInt8) :
    relocation.overwrite position (first ++ second)
      = relocation.overwrite position first
        ++ relocation.overwrite (position + first.length) second := by
  simp only [overwrite, List.mapIdx_append]
  congr 2
  funext i
  rw [Nat.add_assoc, Nat.add_comm i]

@[simp] theorem overwrite_nil (position : Nat) : relocation.overwrite position [] = [] := rfl

theorem overwrite_cons (position : Nat) (byte : UInt8) (bytes : List UInt8) :
    relocation.overwrite position (byte :: bytes)
      = (relocation.written position).getD byte :: relocation.overwrite (position + 1) bytes :=
  relocation.overwrite_append position [byte] bytes

@[simp] theorem length_overwrite (position : Nat) (bytes : List UInt8) :
    (relocation.overwrite position bytes).length = bytes.length := by
  rw [overwrite, List.length_mapIdx]

@[simp] theorem length_rest_cursor (start : Cursor) :
    (relocation.cursor start).rest.length = start.rest.length :=
  relocation.length_overwrite start.position start.rest

variable {relocation}

theorem overwrite_eq_self {position : Nat} {bytes : List UInt8}
    (hclean : ∀ q, position ≤ q → q < position + bytes.length → relocation.written q = none) :
    relocation.overwrite position bytes = bytes := by
  induction bytes generalizing position with
  | nil => rfl
  | cons byte bytes ih =>
    rw [List.length_cons] at hclean
    rw [overwrite_cons, hclean position (Nat.le_refl _) (by omega), Option.getD_none,
      ih fun q hlow hhigh => hclean q (by omega) (by omega)]

variable (relocation) in
theorem cursor_of_rest {start stop : Cursor} {bytes : List UInt8}
    (hrest : start.rest = bytes ++ stop.rest) (hposition : stop.position = start.position + bytes.length) :
    (relocation.cursor start).rest
        = relocation.overwrite start.position bytes ++ (relocation.cursor stop).rest
      ∧ (relocation.cursor stop).position = (relocation.cursor start).position + bytes.length := by
  simp only [cursor]
  rw [hrest, overwrite_append, hposition]
  exact ⟨rfl, by omega⟩

/-! ### Fitting parts -/

namespace Fits

variable {low middle high : Nat} {first second slots : List Slot}

theorem left (hfits : relocation.Fits low high (first ++ second)) (hsecond : Spread middle high second) :
    relocation.Fits low middle first where
  confined position hlow hmiddle hwritten := by
    obtain ⟨slot, hslot, hcovers⟩ :=
      hfits.confined position hlow (Nat.lt_of_lt_of_le hmiddle hsecond.le) hwritten
    rcases List.mem_append.mp hslot with hmem | hmem
    · exact ⟨slot, hmem, hcovers⟩
    · have hbound := (hsecond.bounds hmem).1
      have hstart := hcovers.1
      omega
  keeps slot hslot := hfits.keeps slot (List.mem_append_left _ hslot)

theorem right (hfits : relocation.Fits low high (first ++ second)) (hfirst : Spread low middle first) :
    relocation.Fits middle high second where
  confined position hmiddle hhigh hwritten := by
    obtain ⟨slot, hslot, hcovers⟩ :=
      hfits.confined position (Nat.le_trans hfirst.le hmiddle) hhigh hwritten
    rcases List.mem_append.mp hslot with hmem | hmem
    · have hbound := (hfirst.bounds hmem).2
      have hstop := hcovers.2
      omega
    · exact ⟨slot, hmem, hcovers⟩
  keeps slot hslot := hfits.keeps slot (List.mem_append_right _ hslot)

theorem mono {low' high' : Nat} (hfits : relocation.Fits low high slots) (hlow : low ≤ low')
    (hhigh : high' ≤ high) : relocation.Fits low' high' slots where
  confined position hlow' hhigh' := hfits.confined position (by omega) (by omega)
  keeps := hfits.keeps

theorem written_eq_none (hfits : relocation.Fits low high []) {position : Nat} (hlow : low ≤ position)
    (hhigh : position < high) : relocation.written position = none := by
  by_contra hwritten
  obtain ⟨slot, hslot, -⟩ := hfits.confined position hlow hhigh hwritten
  cases hslot

theorem rest_eq (hfits : relocation.Fits low high []) {start stop : Cursor} {bytes : List UInt8}
    (hstart : start.position = low) (hstop : stop.position = high)
    (hrest : start.rest = bytes ++ stop.rest)
    (hposition : stop.position = start.position + bytes.length) :
    (relocation.cursor start).rest = bytes ++ (relocation.cursor stop).rest
      ∧ (relocation.cursor stop).position = (relocation.cursor start).position + bytes.length := by
  have hmoved := cursor_of_rest relocation hrest hposition
  rwa [overwrite_eq_self fun q hlow hhigh => hfits.written_eq_none (by omega) (by omega)] at hmoved

end Fits

end Relocation

/-! ### Carried runs -/

/-- A stretch of the file holds the slots, and `after` is true of every relocation that keeps to what the stretch holds. -/
def Held (pool : ConstantPool) (low high : Nat) (slots : List Slot) (after : Relocation → Prop) : Prop :=
  ∃ held, Spread low high held ∧ slots.Subperm held
    ∧ ∀ relocation : Relocation, relocation.source = pool → relocation.Fits low high held → after relocation

namespace Held

variable {pool : ConstantPool} {low middle high : Nat} {slots first second : List Slot}
  {after after' : Relocation → Prop}

theorem and (hfirst : Held pool low middle first after) (hsecond : Held pool middle high second after') :
    Held pool low high (first ++ second) fun relocation => after relocation ∧ after' relocation := by
  obtain ⟨heldFirst, hspreadFirst, hsubFirst, hafterFirst⟩ := hfirst
  obtain ⟨heldSecond, hspreadSecond, hsubSecond, hafterSecond⟩ := hsecond
  refine ⟨heldFirst ++ heldSecond, hspreadFirst.append hspreadSecond, hsubFirst.append hsubSecond,
    fun relocation hsource hfits => ⟨?_, ?_⟩⟩
  · exact hafterFirst relocation hsource (hfits.left hspreadSecond)
  · exact hafterSecond relocation hsource (hfits.right hspreadFirst)

theorem mono {slots' : List Slot} (hheld : Held pool low high slots after) (hslots : slots'.Subperm slots)
    (hafter : ∀ relocation : Relocation, relocation.source = pool → after relocation → after' relocation) :
    Held pool low high slots' after' := by
  obtain ⟨held, hspread, hsub, hrun⟩ := hheld
  exact ⟨held, hspread, hslots.trans hsub,
    fun relocation hsource hfits => hafter relocation hsource (hrun relocation hsource hfits)⟩

theorem imp (hheld : Held pool low high slots after)
    (hafter : ∀ relocation : Relocation, relocation.source = pool → after relocation → after' relocation) :
    Held pool low high slots after' :=
  hheld.mono (List.Subperm.refl _) hafter

theorem widen {low' high' : Nat} (hheld : Held pool low high slots after) (hlow : low' ≤ low)
    (hhigh : high ≤ high') : Held pool low' high' slots after := by
  obtain ⟨held, hspread, hsub, hrun⟩ := hheld
  exact ⟨held, (hspread.mono_left hlow).mono_right hhigh, hsub,
    fun relocation hsource hfits => hrun relocation hsource (hfits.mono hlow hhigh)⟩

theorem keeps (hheld : Held pool low high slots after) :
    Held pool low high slots fun relocation =>
      after relocation ∧ ∀ slot ∈ slots, relocation.source.Suits slot → relocation.Keeps slot := by
  obtain ⟨held, hspread, hsub, hrun⟩ := hheld
  exact ⟨held, hspread, hsub, fun relocation hsource hfits =>
    ⟨hrun relocation hsource hfits, fun slot hslot => hfits.keeps slot (hsub.subset hslot)⟩⟩

theorem nothing (hle : low ≤ high)
    (hafter : ∀ relocation : Relocation, relocation.source = pool → relocation.Fits low high [] → after relocation) :
    Held pool low high [] after :=
  ⟨[], hle, List.Subperm.refl _, hafter⟩

end Held

/-- A run leads from one cursor to the other, and the bytes in between hold what it has read. -/
def Carried (pool : ConstantPool) (start stop : Cursor) (slots : List Slot)
    (after : Relocation → Prop) : Prop :=
  start.Reaches stop ∧ Held pool start.position stop.position slots after

namespace Carried

variable {pool : ConstantPool} {start middle stop : Cursor} {slots first second : List Slot}
  {after after' : Relocation → Prop}

theorem and (hfirst : Carried pool start middle first after) (hsecond : Carried pool middle stop second after') :
    Carried pool start stop (first ++ second) fun relocation => after relocation ∧ after' relocation :=
  ⟨hfirst.1.trans hsecond.1, hfirst.2.and hsecond.2⟩

theorem mono {slots' : List Slot} (hcarried : Carried pool start stop slots after)
    (hslots : slots'.Subperm slots)
    (hafter : ∀ relocation : Relocation, relocation.source = pool → after relocation → after' relocation) :
    Carried pool start stop slots' after' :=
  ⟨hcarried.1, hcarried.2.mono hslots hafter⟩

theorem imp (hcarried : Carried pool start stop slots after)
    (hafter : ∀ relocation : Relocation, relocation.source = pool → after relocation → after' relocation) :
    Carried pool start stop slots after' :=
  hcarried.mono (List.Subperm.refl _) hafter

theorem keeps (hcarried : Carried pool start stop slots after) :
    Carried pool start stop slots fun relocation =>
      after relocation ∧ ∀ slot ∈ slots, relocation.source.Suits slot → relocation.Keeps slot :=
  ⟨hcarried.1, hcarried.2.keeps⟩

theorem refl (cursor : Cursor) (hafter : ∀ relocation : Relocation, relocation.source = pool → after relocation) :
    Carried pool cursor cursor [] after :=
  ⟨.refl cursor, .nothing (Nat.le_refl _) fun relocation hsource _ => hafter relocation hsource⟩

theorem plain (bytes : List UInt8) (hrest : start.rest = bytes ++ stop.rest)
    (hposition : stop.position = start.position + bytes.length)
    (hafter : ∀ relocation : Relocation,
      (relocation.cursor start).rest = bytes ++ (relocation.cursor stop).rest →
        (relocation.cursor stop).position = (relocation.cursor start).position + bytes.length →
          after relocation) :
    Carried pool start stop [] after := by
  refine ⟨⟨bytes, hrest, hposition⟩, .nothing (by omega) fun relocation _ hfits => ?_⟩
  obtain ⟨hmoved, hmovedPosition⟩ := hfits.rest_eq rfl rfl hrest hposition
  exact hafter relocation hmoved hmovedPosition

end Carried

end Retoken
