import Mathlib.Data.List.Forall2
import Retoken.Proofs.ConstantPool.References
import Retoken.Proofs.PoolExtension.Requests

/-!
# Extended pools can be read

A pool that was extended is written and read like any other: each of its constants is short enough, takes as many slots as before, and refers to constants of the right kinds. It is never shorter than the original pool.
-/

namespace Retoken

namespace ConstantPool

def SameSlot (old new : Option Constant) : Prop :=
  new = old ∨ ∃ oldText newText, old = some (.string oldText) ∧ new = some (.string newText)

theorem SameSlot.of_none {new : Option Constant} (hsame : SameSlot none new) : new = none := by
  rcases hsame with hsame | ⟨_, _, hold, -⟩
  · exact hsame
  · cases hold

theorem SameSlot.of_some {constant : Constant} {new : Option Constant}
    (hsame : SameSlot (some constant) new) (hwritable : constant.Writable) :
    ∃ constant', new = some constant' ∧ constant'.Writable ∧ constant'.isWide = constant.isWide := by
  rcases hsame with rfl | ⟨oldText, newText, hold, rfl⟩
  · exact ⟨constant, rfl, hwritable, rfl⟩
  · cases hold
    exact ⟨_, rfl, nofun, rfl⟩

theorem Filled.same {slots slots' : List (Option Constant)} (hfilled : Filled slots)
    (hsame : List.Forall₂ SameSlot slots slots') : Filled slots' := by
  induction hfilled generalizing slots' with
  | nil =>
    cases hsame
    exact .nil
  | narrow hwritable hnarrow _ ih =>
    obtain ⟨new, rest, hnew, hrest, rfl⟩ := List.forall₂_cons_left_iff.mp hsame
    obtain ⟨constant', rfl, hwritable', hwide'⟩ := hnew.of_some hwritable
    exact .narrow hwritable' (hwide'.trans hnarrow) (ih hrest)
  | wide hwritable hwide _ ih =>
    obtain ⟨new, rest, hnew, hrest, rfl⟩ := List.forall₂_cons_left_iff.mp hsame
    obtain ⟨second, later, hsecond, hlater, rfl⟩ := List.forall₂_cons_left_iff.mp hrest
    obtain ⟨constant', rfl, hwritable', hwide'⟩ := hnew.of_some hwritable
    rw [hsecond.of_none]
    exact .wide hwritable' (hwide'.trans hwide) (ih hlater)

theorem length_entriesToBytes_same {slots slots' : List (Option Constant)}
    (hsame : List.Forall₂ SameSlot slots slots') :
    (entriesToBytes slots').length = (entriesToBytes slots).length := by
  induction hsame with
  | nil => rfl
  | @cons old new _ _ hslot _ ih =>
    have hentry : ∀ slot rest, entriesToBytes (slot :: rest)
        = entriesToBytes [slot] ++ entriesToBytes rest := by
      intro slot rest
      rw [entriesToBytes, entriesToBytes, entriesToBytes, List.flatMap_cons, List.flatMap_singleton]
    rw [hentry, hentry old, List.length_append, List.length_append, ih]
    rcases hslot with rfl | ⟨_, _, rfl, rfl⟩
    · rfl
    · rfl

section

variable {pool pool' : ConstantPool} {index : UInt16}
  (hkept : ∀ {index constant}, pool.get? index = some constant → (∀ text, constant ≠ .string text) →
    pool'.get? index = some constant)

include hkept

theorem HasKind.of_kept {kind : ConstantKind} (hkind : pool.HasKind index kind) (hother : kind ≠ .string) :
    pool'.HasKind index kind := by
  obtain ⟨constant, hget, hsame⟩ := hkind
  refine ⟨constant, hkept hget ?_, hsame⟩
  rintro text rfl
  exact hother (Option.some.inj hsame).symm

/-- References stay good in a pool that keeps everything but strings, since none of them asks for a string. -/
theorem WellTyped.of_kept {constant : Constant} (htyped : pool.WellTyped constant) : pool'.WellTyped constant where
  hasKind reference hmem := (htyped.hasKind reference hmem).of_kept hkept (Constant.kind_ne_string hmem)
  handleKind := htyped.handleKind

end

end ConstantPool

namespace PoolExtension

open ConstantPool

variable {source : ConstantPool} {extension : PoolExtension}

theorem Over.kept (hover : Over source extension) {index : UInt16} {constant : Constant}
    (hget : source.get? index = some constant) (hother : ∀ text, constant ≠ .string text) :
    extension.pool.get? index = some constant :=
  get?_pool_of_base (hover.get?_source hget hother)

theorem Over.isUtf8 (hover : Over source extension) {index : UInt16} (hutf8 : source.isUtf8 index = true) :
    extension.pool.isUtf8 index = true :=
  (checks_iff _ _).1.mpr (((checks_iff _ _).1.mp hutf8).of_kept hover.kept nofun)

theorem Over.textAt?_kept (hover : Over source extension) {index : UInt16} {text : String}
    (htext : source.textAt? index = some text) : extension.pool.textAt? index = some text := by
  obtain ⟨bytes, hget, hdecoded⟩ := textAt?_eq_some.mp htext
  exact textAt?_eq_some.mpr ⟨bytes, hover.kept hget nofun, hdecoded⟩

/-- A slot that names the same constant as before shows the same text. -/
theorem Over.shownText?_kept (hover : Over source extension) {kind : SlotKind} {index : UInt16} {text : String}
    (hsame : extension.pool.get? index = source.get? index) (htext : source.shownText? kind index = some text) :
    extension.pool.shownText? kind index = some text := by
  cases kind with
  | narrowString | wideString =>
    obtain ⟨textIndex, hstring, hshown⟩ := (shownText?_string rfl).mp htext
    exact (shownText?_string rfl).mpr ⟨textIndex, hsame.trans hstring, hover.textAt?_kept hshown⟩
  | utf8 => exact hover.textAt?_kept htext

theorem Over.sameSlots (hover : Over source extension) :
    List.Forall₂ SameSlot source.slots.toList extension.base.slots.toList := by
  refine List.forall₂_iff_get.mpr ⟨?_, fun i hold hnew => ?_⟩
  · rw [Array.length_toList, Array.length_toList, hover.size_eq]
  · rw [Array.length_toList] at hold hnew
    rcases hover.slots i with hkept | ⟨old, new, holdSlot, hnewSlot, -⟩
    · rw [Array.getElem?_eq_getElem hold, Array.getElem?_eq_getElem hnew] at hkept
      exact .inl (Option.some.inj hkept)
    · rw [Array.getElem?_eq_getElem hold] at holdSlot
      rw [Array.getElem?_eq_getElem hnew] at hnewSlot
      exact .inr ⟨old, new, Option.some.inj holdSlot, Option.some.inj hnewSlot⟩

theorem Fresh.filled {pool : ConstantPool} {added : List Constant}
    (hadded : ∀ constant ∈ added, Fresh pool constant) : Filled (added.map some) := by
  induction added with
  | nil => exact .nil
  | cons constant added ih =>
    have hrest := ih fun other hother => hadded other (List.mem_cons_of_mem _ hother)
    rcases hadded constant List.mem_cons_self with ⟨bytes, rfl, hshort⟩ | ⟨text, rfl, -⟩
    · refine .narrow ?_ rfl hrest
      rintro _ ⟨⟩
      exact hshort
    · exact .narrow nofun rfl hrest

theorem Over.readable (hover : Over source extension) (hsource : source.Readable) :
    extension.pool.Readable where
  filled := by
    obtain ⟨slots, hslots, hfilled⟩ := hsource.filled
    have hsame := hover.sameSlots
    rw [hslots] at hsame
    obtain ⟨first, rest, hfirst, hrest, hbase⟩ := List.forall₂_cons_left_iff.mp hsame
    refine ⟨rest ++ extension.added.toList.map some, ?_, (hfilled.same hrest).append ?_⟩
    · rw [pool, Array.toList_append, hbase, hfirst.of_none, Array.toList_map, List.cons_append]
    · exact Fresh.filled fun constant hconstant => hover.added constant (Array.mem_toList_iff.mp hconstant)
  size_le := by
    have hfits := hover.fits
    rw [slotCount, maxSlots] at hfits
    simpa [pool] using hfits
  unbroken := by
    rw [firstBroken?_eq_none]
    intro constant hmem
    rcases Array.mem_append.mp hmem with hbase | hadded
    · obtain ⟨i, hi⟩ := Array.getElem?_of_mem hbase
      rcases hover.slots i with hkept | ⟨old, new, -, hnew, hutf8⟩
      · rw [hi] at hkept
        have htyped := firstBroken?_eq_none.mp hsource.unbroken constant (Array.mem_of_getElem? hkept.symm)
        exact refersWell_iff.mpr ((refersWell_iff.mp htyped).of_kept hover.kept)
      · rw [hi] at hnew
        cases hnew
        exact hutf8
    · obtain ⟨other, hother, hsome⟩ := Array.mem_map.mp hadded
      cases hsome
      rcases hover.added constant hother with ⟨bytes, rfl, -⟩ | ⟨text, rfl, hutf8⟩
      · rfl
      · exact hutf8

theorem Over.length_toBytes_le (hover : Over source extension) :
    source.toBytes.length ≤ extension.pool.toBytes.length := by
  have happend : entriesToBytes extension.pool.slots.toList
      = entriesToBytes extension.base.slots.toList ++ entriesToBytes (extension.added.map some).toList := by
    rw [pool, Array.toList_append, entriesToBytes, List.flatMap_append]
    rfl
  rw [toBytes, toBytes, List.length_append, List.length_append, happend, List.length_append,
    length_entriesToBytes_same hover.sameSlots]
  simp only [BigEndian.length_bytes16]
  omega

end PoolExtension

end Retoken
