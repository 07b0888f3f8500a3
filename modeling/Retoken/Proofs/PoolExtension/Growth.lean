import Retoken.ClassFile.PoolExtension
import Retoken.Proofs.ConstantPool.Lookups
import Retoken.Proofs.Steps

/-!
# Growing pools

An index that was handed out keeps its meaning while the pool grows, even if string constants of the original pool are made to name other texts. So what a request found once is found again, which is why equal requests are answered with equal indices.
-/

namespace Retoken

open Text

namespace PoolExtension

variable {extension extension' extension'' : PoolExtension} {index : UInt16} {constant : Constant}

theorem get?_pool (extension : PoolExtension) (index : UInt16) :
    extension.pool.get? index
      = if index.toNat < extension.base.slots.size then extension.base.get? index
        else extension.added[index.toNat - extension.base.slots.size]? := by
  rw [ConstantPool.get?, pool, ConstantPool.get?]
  split
  case isTrue hbase => rw [Array.getElem?_append_left hbase]
  case isFalse hbase =>
    rw [Array.getElem?_append_right (Nat.le_of_not_lt hbase), Array.getElem?_map]
    cases extension.added[index.toNat - extension.base.slots.size]? <;> rfl

theorem lt_of_get?_base (hget : extension.base.get? index = some constant) :
    index.toNat < extension.base.slots.size := by
  by_contra hlt
  rw [ConstantPool.get?, Array.getElem?_eq_none (Nat.le_of_not_lt hlt)] at hget
  cases hget

theorem get?_pool_of_base (hget : extension.base.get? index = some constant) :
    extension.pool.get? index = some constant := by
  rw [get?_pool, if_pos (lt_of_get?_base hget), hget]

def addedIndex? (extension : PoolExtension) (constant : Constant) : Option UInt16 :=
  (extension.added.findIdx? (· == constant)).map fun i => UInt16.ofNat (extension.base.slots.size + i)

def textIndex? (extension : PoolExtension) (text : String) : Option UInt16 :=
  match extension.base.findUtf8? (ModifiedUtf8.ofString text) with
  | some i => some (UInt16.ofNat i)
  | none => extension.addedIndex? (.utf8 (ModifiedUtf8.ofString text))

theorem textIndex?_eq_none {text : String} :
    extension.textIndex? text = none
      ↔ extension.base.findUtf8? (ModifiedUtf8.ofString text) = none
        ∧ extension.addedIndex? (.utf8 (ModifiedUtf8.ofString text)) = none := by
  rw [textIndex?]
  cases extension.base.findUtf8? (ModifiedUtf8.ofString text) with
  | some i => simp
  | none => simp

theorem get?_of_addedIndex? (hfits : extension.slotCount ≤ maxSlots)
    (hindex : extension.addedIndex? constant = some index) :
    extension.base.slots.size ≤ index.toNat ∧ extension.pool.get? index = some constant := by
  obtain ⟨i, hi, rfl⟩ := Option.map_eq_some_iff.mp hindex
  obtain ⟨hlt, hfound, -⟩ := Array.findIdx?_eq_some_iff_getElem.mp hi
  rw [slotCount, maxSlots] at hfits
  have hword : (UInt16.ofNat (extension.base.slots.size + i)).toNat = extension.base.slots.size + i := by
    rw [UInt16.toNat_ofNat']
    omega
  refine ⟨by omega, ?_⟩
  rw [get?_pool, hword, if_neg (by omega), Nat.add_sub_cancel_left, Array.getElem?_eq_getElem hlt,
    eq_of_beq hfound]

structure Grows (extension extension' : PoolExtension) : Prop where
  size_eq : extension'.base.slots.size = extension.base.slots.size
  added : ∃ more, extension'.added = extension.added ++ more
  kept : ∀ index constant, extension.base.get? index = some constant →
    (∀ text, constant ≠ .string text) → extension'.base.get? index = some constant

namespace Grows

theorem refl (extension : PoolExtension) : extension.Grows extension where
  size_eq := rfl
  added := ⟨#[], Array.append_empty.symm⟩
  kept _ _ hget _ := hget

theorem trans (hfirst : extension.Grows extension') (hsecond : extension'.Grows extension'') :
    extension.Grows extension'' where
  size_eq := hsecond.size_eq.trans hfirst.size_eq
  added := by
    obtain ⟨more, hmore⟩ := hfirst.added
    obtain ⟨later, hlater⟩ := hsecond.added
    exact ⟨more ++ later, by rw [hlater, hmore, Array.append_assoc]⟩
  kept index constant hget hother := hsecond.kept index constant (hfirst.kept index constant hget hother) hother

variable (hgrows : extension.Grows extension')

include hgrows

/-- Only string constants may change. -/
theorem get? (hget : extension.pool.get? index = some constant) (hother : ∀ text, constant ≠ .string text) :
    extension'.pool.get? index = some constant := by
  rw [get?_pool] at hget ⊢
  rw [hgrows.size_eq]
  split at hget
  case isTrue hbase => rw [if_pos hbase, hgrows.kept index constant hget hother]
  case isFalse hbase =>
    obtain ⟨more, hmore⟩ := hgrows.added
    have hlt := (Array.getElem?_eq_some_iff.mp hget).1
    rw [if_neg hbase, hmore, Array.getElem?_append_left hlt, hget]

theorem isUtf8 (hutf8 : extension.pool.isUtf8 index = true) : extension'.pool.isUtf8 index = true := by
  rw [ConstantPool.isUtf8] at hutf8 ⊢
  cases hget : extension.pool.get? index with
  | none => simp [hget] at hutf8
  | some constant =>
    cases constant with
    | utf8 bytes => rw [hgrows.get? hget nofun]
    | _ => simp [hget] at hutf8

theorem textAt? {text : String} (htext : extension.pool.textAt? index = some text) :
    extension'.pool.textAt? index = some text := by
  rw [ConstantPool.textAt?_eq_some] at htext ⊢
  obtain ⟨bytes, hget, hdecoded⟩ := htext
  exact ⟨bytes, hgrows.get? hget nofun, hdecoded⟩

theorem addedIndex? (hindex : extension.addedIndex? constant = some index) :
    extension'.addedIndex? constant = some index := by
  obtain ⟨i, hi, rfl⟩ := Option.map_eq_some_iff.mp hindex
  obtain ⟨more, hmore⟩ := hgrows.added
  rw [PoolExtension.addedIndex?, hmore, hgrows.size_eq, Array.findIdx?_append, hi]
  rfl

end Grows

def Adds (extension extension' : PoolExtension) : Prop :=
  extension'.base = extension.base ∧ extension.Grows extension'

theorem Adds.refl (extension : PoolExtension) : extension.Adds extension :=
  ⟨rfl, .refl extension⟩

theorem Adds.trans (hfirst : extension.Adds extension') (hsecond : extension'.Adds extension'') :
    extension.Adds extension'' :=
  ⟨hsecond.1.trans hfirst.1, hfirst.2.trans hsecond.2⟩

theorem Adds.textIndex? {text : String} (hadds : extension.Adds extension')
    (hindex : extension.textIndex? text = some index) : extension'.textIndex? text = some index := by
  rw [PoolExtension.textIndex?] at hindex ⊢
  rw [hadds.1]
  cases hfind : extension.base.findUtf8? (ModifiedUtf8.ofString text) with
  | some i =>
    rw [hfind] at hindex
    exact hindex
  | none =>
    rw [hfind] at hindex
    exact hadds.2.addedIndex? hindex

end PoolExtension

end Retoken
