import Retoken.Proofs.PoolExtension.Growth

/-!
# What requests do to a pool

A request finds what it is asked for, or puts it behind the others, or is refused because there is no slot left or a text is too long. Each step keeps the extended pool `Over` the original one: only string constants differ in the slots of the original pool, and what was added is a text short enough to be written or a string that names a text.
-/

namespace Retoken

open Text

namespace PoolExtension

variable {source : ConstantPool} {extension extension' : PoolExtension} {index : UInt16}
  {constant : Constant} {text : String}

def Fresh (pool : ConstantPool) (constant : Constant) : Prop :=
  (∃ bytes, constant = .utf8 bytes ∧ bytes.length ≤ maxTextSize)
    ∨ ∃ text, constant = .string text ∧ pool.isUtf8 text = true

theorem Fresh.grows (hfresh : Fresh extension.pool constant) (hgrows : extension.Grows extension') :
    Fresh extension'.pool constant := by
  rcases hfresh with hbytes | ⟨text, hstring, hutf8⟩
  · exact .inl hbytes
  · exact .inr ⟨text, hstring, hgrows.isUtf8 hutf8⟩

structure Over (source : ConstantPool) (extension : PoolExtension) : Prop where
  size_eq : extension.base.slots.size = source.slots.size
  slots : ∀ i : Nat, extension.base.slots[i]? = source.slots[i]?
    ∨ ∃ old new, source.slots[i]? = some (some (Constant.string old))
      ∧ extension.base.slots[i]? = some (some (Constant.string new)) ∧ extension.pool.isUtf8 new = true
  added : ∀ constant ∈ extension.added, Fresh extension.pool constant
  fits : extension.slotCount ≤ maxSlots

theorem Over.start (hsize : source.slots.size ≤ maxSlots) : Over source { base := source } where
  size_eq := rfl
  slots _ := .inl rfl
  added constant hconstant := absurd hconstant (Array.not_mem_empty constant)
  fits := hsize

theorem Over.get?_source (hover : Over source extension) (hget : source.get? index = some constant)
    (hother : ∀ text, constant ≠ .string text) : extension.base.get? index = some constant := by
  rw [ConstantPool.get?] at hget ⊢
  rcases hover.slots index.toNat with hsame | ⟨old, new, hold, -, -⟩
  · rw [hsame, hget]
  · rw [hold] at hget
    exact absurd (Option.some.inj hget).symm (hother old)

theorem Over.get?_string {old : UInt16} (hover : Over source extension)
    (hget : source.get? index = some (.string old)) :
    ∃ new, extension.base.get? index = some (.string new) := by
  rw [ConstantPool.get?] at hget
  simp only [ConstantPool.get?]
  rcases hover.slots index.toNat with hsame | ⟨old', new, hold, hnew, -⟩
  · exact ⟨old, by rw [hsame, hget]⟩
  · exact ⟨new, by rw [hnew]; rfl⟩

/-! ### Adding -/

def pushed (extension : PoolExtension) (constant : Constant) : PoolExtension :=
  { extension with added := extension.added.push constant }

theorem adds_pushed (extension : PoolExtension) (constant : Constant) : extension.Adds (extension.pushed constant) :=
  ⟨rfl, rfl, ⟨#[constant], Array.push_eq_append⟩, fun _ _ hget _ => hget⟩

theorem Over.pushed (hover : Over source extension) (hfresh : Fresh extension.pool constant)
    (hroom : extension.slotCount < maxSlots) : Over source (extension.pushed constant) where
  size_eq := hover.size_eq
  slots i := by
    rcases hover.slots i with hsame | ⟨old, new, hold, hnew, hutf8⟩
    · exact .inl hsame
    · exact .inr ⟨old, new, hold, hnew, (adds_pushed extension constant).2.isUtf8 hutf8⟩
  added other hother := by
    rcases Array.mem_push.mp hother with hmem | rfl
    · exact (hover.added other hmem).grows (adds_pushed extension constant).2
    · exact hfresh.grows (adds_pushed extension _).2
  fits := by
    rw [slotCount] at hroom ⊢
    simp only [PoolExtension.pushed, Array.size_push]
    omega

theorem addedIndex?_pushed (habsent : extension.addedIndex? constant = none) :
    (extension.pushed constant).addedIndex? constant = some (UInt16.ofNat extension.slotCount) := by
  have hnone : extension.added.findIdx? (· == constant) = none := Option.map_eq_none_iff.mp habsent
  rw [addedIndex?, pushed, Array.push_eq_append, Array.findIdx?_append, hnone]
  simp [slotCount]

theorem textIndex?_pushed (habsent : extension.textIndex? text = none) :
    (extension.pushed (.utf8 (ModifiedUtf8.ofString text))).textIndex? text
      = some (UInt16.ofNat extension.slotCount) := by
  obtain ⟨hnew, hunadded⟩ := textIndex?_eq_none.mp habsent
  rw [textIndex?, (adds_pushed extension _).1, hnew]
  exact addedIndex?_pushed hunadded

/-! ### What a request comes to -/

theorem run_get_bind {α : Type} (extension : PoolExtension) (next : PoolExtension → Extending α) :
    ((get : Extending PoolExtension) >>= next) extension = next extension extension :=
  rfl

theorem allocate_eq (extension : PoolExtension) (constant : Constant) :
    allocate constant extension
      = if maxSlots ≤ extension.slotCount then .error .poolOverflow
        else .ok (UInt16.ofNat extension.slotCount, extension.pushed constant) := by
  rw [allocate, run_get_bind]
  by_cases hfull : maxSlots ≤ extension.slotCount
  · rw [if_pos hfull, if_pos hfull]
    rfl
  · rw [if_neg hfull, if_neg hfull]
    rfl

theorem intern_eq (extension : PoolExtension) (constant : Constant) :
    intern constant extension
      = match extension.addedIndex? constant with
        | some index => .ok (index, extension)
        | none => allocate constant extension := by
  rw [addedIndex?, intern, run_get_bind]
  cases extension.added.findIdx? (· == constant) with
  | some i => rfl
  | none => rfl

theorem utf8_eq (extension : PoolExtension) (text : String) :
    utf8 text extension
      = if maxTextSize < (ModifiedUtf8.ofString text).length then
          .error (.stringTooLong (ModifiedUtf8.ofString text).length)
        else match extension.textIndex? text with
          | some index => .ok (index, extension)
          | none => allocate (.utf8 (ModifiedUtf8.ofString text)) extension := by
  by_cases hlong : maxTextSize < (ModifiedUtf8.ofString text).length
  · simp only [utf8, if_pos hlong]
    rfl
  · simp only [utf8, if_neg hlong]
    rw [run_get_bind, textIndex?]
    cases extension.base.findUtf8? (ModifiedUtf8.ofString text) with
    | some i => rfl
    | none => exact intern_eq extension _

theorem string_eq (extension : PoolExtension) (text : String) :
    string text extension
      = match utf8 text extension with
        | .ok (index, next) => stringNaming index next
        | .error error => .error error := by
  change (utf8 text extension).bind (fun result => stringNaming result.1 result.2) = _
  cases utf8 text extension with
  | ok result => rfl
  | error error => rfl

section

variable {after : UInt16 → PoolExtension → Prop} {fails : ClassError → Prop}

theorem allocate_meets
    (hadded : extension.slotCount < maxSlots → after (UInt16.ofNat extension.slotCount) (extension.pushed constant))
    (hfull : maxSlots ≤ extension.slotCount → fails .poolOverflow) :
    Meets (allocate constant) extension after fails := by
  rw [Meets, allocate_eq]
  by_cases hroom : maxSlots ≤ extension.slotCount
  · rw [if_pos hroom]
    exact hfull hroom
  · rw [if_neg hroom]
    exact hadded (Nat.lt_of_not_le hroom)

theorem intern_meets (hfound : ∀ index, extension.addedIndex? constant = some index → after index extension)
    (hadded : extension.addedIndex? constant = none → extension.slotCount < maxSlots →
      after (UInt16.ofNat extension.slotCount) (extension.pushed constant))
    (hfull : extension.addedIndex? constant = none → maxSlots ≤ extension.slotCount → fails .poolOverflow) :
    Meets (intern constant) extension after fails := by
  rw [Meets, intern_eq]
  cases hindex : extension.addedIndex? constant with
  | some index => exact hfound index hindex
  | none => exact allocate_meets (hadded hindex) (hfull hindex)

theorem utf8_meets
    (hlong : maxTextSize < (ModifiedUtf8.ofString text).length →
      fails (.stringTooLong (ModifiedUtf8.ofString text).length))
    (hfound : (ModifiedUtf8.ofString text).length ≤ maxTextSize → ∀ index, extension.textIndex? text = some index →
      after index extension)
    (hadded : (ModifiedUtf8.ofString text).length ≤ maxTextSize → extension.textIndex? text = none →
      extension.slotCount < maxSlots →
      after (UInt16.ofNat extension.slotCount) (extension.pushed (.utf8 (ModifiedUtf8.ofString text))))
    (hfull : extension.textIndex? text = none → maxSlots ≤ extension.slotCount → fails .poolOverflow) :
    Meets (utf8 text) extension after fails := by
  rw [Meets, utf8_eq]
  by_cases hsize : maxTextSize < (ModifiedUtf8.ofString text).length
  · rw [if_pos hsize]
    exact hlong hsize
  · rw [if_neg hsize]
    have hshort := Nat.le_of_not_lt hsize
    cases hindex : extension.textIndex? text with
    | some index => exact hfound hshort index hindex
    | none => exact allocate_meets (hadded hshort hindex) (hfull hindex)

end

/-! ### The pool after a request -/

theorem intern_over (hover : Over source extension) (hfresh : Fresh extension.pool constant) :
    Meets (intern constant) extension
      (fun index extension' => Over source extension' ∧ extension.Adds extension'
        ∧ extension'.addedIndex? constant = some index)
      (· = .poolOverflow) := by
  refine intern_meets (fun index hindex => ⟨hover, .refl extension, hindex⟩) (fun habsent hroom => ?_) fun _ _ => rfl
  exact ⟨hover.pushed hfresh hroom, adds_pushed extension constant, addedIndex?_pushed habsent⟩

def TextFails (text : String) (error : ClassError) : Prop :=
  error = .poolOverflow
    ∨ maxTextSize < (ModifiedUtf8.ofString text).length
      ∧ error = .stringTooLong (ModifiedUtf8.ofString text).length

theorem utf8_over (hover : Over source extension) :
    Meets (utf8 text) extension
      (fun index extension' => Over source extension' ∧ extension.Adds extension'
        ∧ extension'.textIndex? text = some index
        ∧ (ModifiedUtf8.ofString text).length ≤ maxTextSize)
      (TextFails text) := by
  refine utf8_meets (fun hlong => .inr ⟨hlong, rfl⟩)
    (fun hshort index hindex => ⟨hover, .refl extension, hindex, hshort⟩) (fun hshort habsent hroom => ?_)
    fun _ _ => .inl rfl
  have hfresh : Fresh extension.pool (.utf8 (ModifiedUtf8.ofString text)) := .inl ⟨_, rfl, hshort⟩
  exact ⟨hover.pushed hfresh hroom, adds_pushed extension _, textIndex?_pushed habsent, hshort⟩

theorem stringNaming_over (hover : Over source extension) (hutf8 : extension.pool.isUtf8 index = true) :
    Meets (stringNaming index) extension
      (fun found extension' => Over source extension' ∧ extension.Adds extension'
        ∧ extension'.addedIndex? (.string index) = some found)
      (· = .poolOverflow) :=
  intern_over hover (.inr ⟨index, rfl, hutf8⟩)

/-! ### What is found -/

theorem get?_of_textIndex? (hover : Over source extension) (hindex : extension.textIndex? text = some index) :
    extension.pool.get? index = some (.utf8 (ModifiedUtf8.ofString text)) := by
  rw [textIndex?] at hindex
  cases hfind : extension.base.findUtf8? (ModifiedUtf8.ofString text) with
  | none =>
    rw [hfind] at hindex
    exact (get?_of_addedIndex? hover.fits hindex).2
  | some i =>
    rw [hfind] at hindex
    obtain ⟨hlt, hfound, -⟩ := Array.findIdx?_eq_some_iff_getElem.mp hfind
    have hfits := hover.fits
    rw [slotCount, maxSlots] at hfits
    have hword : index.toNat = i := by
      rw [← Option.some.inj hindex, UInt16.toNat_ofNat']
      omega
    refine get?_pool_of_base ?_
    rw [ConstantPool.get?, hword, Array.getElem?_eq_getElem hlt, eq_of_beq hfound]
    rfl

theorem string_over (hover : Over source extension) :
    Meets (string text) extension
      (fun found extension' => Over source extension' ∧ extension.Adds extension'
        ∧ (∃ index, extension'.textIndex? text = some index
          ∧ extension'.addedIndex? (.string index) = some found)
        ∧ (ModifiedUtf8.ofString text).length ≤ maxTextSize)
      (TextFails text) := by
  refine Meets.bind (utf8_over hover) ?_
  rintro index middle ⟨hoverMiddle, hadds, hindex, hshort⟩
  have hutf8 : middle.pool.isUtf8 index = true := by
    rw [ConstantPool.isUtf8, get?_of_textIndex? hoverMiddle hindex]
  refine (stringNaming_over hoverMiddle hutf8).imp ?_ fun error => .inl
  rintro found extension' ⟨hover', hadds', hfound⟩
  exact ⟨hover', hadds.trans hadds', ⟨index, hadds'.textIndex? hindex, hfound⟩, hshort⟩

/-! ### Repointing -/

def repointed (extension : PoolExtension) (index text : UInt16) : PoolExtension :=
  { extension with base := ⟨extension.base.slots.setIfInBounds index.toNat (some (.string text))⟩ }

theorem repoint_meets {text : UInt16} {after : Unit → PoolExtension → Prop} {fails : ClassError → Prop}
    (hafter : after () (extension.repointed index text)) :
    Meets (repoint index text) extension after fails :=
  hafter

theorem get?_repointed_same {text : UInt16} (hget : extension.base.get? index = some constant) :
    (extension.repointed index text).base.get? index = some (.string text) := by
  simp only [repointed, ConstantPool.get?]
  rw [Array.getElem?_setIfInBounds_self_of_lt (lt_of_get?_base hget)]
  rfl

theorem get?_repointed_of_ne {text other : UInt16} (hne : other ≠ index) :
    (extension.repointed index text).base.get? other = extension.base.get? other := by
  simp only [repointed, ConstantPool.get?]
  rw [Array.getElem?_setIfInBounds_ne fun h => hne (UInt16.toNat_inj.mp h.symm)]

theorem grows_repointed {text old : UInt16} (hget : extension.base.get? index = some (.string old)) :
    extension.Grows (extension.repointed index text) where
  size_eq := Array.size_setIfInBounds
  added := ⟨#[], Array.append_empty.symm⟩
  kept other constant hother hnotString := by
    have hne : other ≠ index := by
      rintro rfl
      rw [hget] at hother
      exact hnotString old (Option.some.inj hother).symm
    rw [get?_repointed_of_ne hne, hother]

theorem Over.repointed {text old : UInt16} (hover : Over source extension)
    (hget : source.get? index = some (.string old)) (hutf8 : extension.pool.isUtf8 text = true) :
    Over source (extension.repointed index text) := by
  obtain ⟨current, hcurrent⟩ := hover.get?_string hget
  have hgrows : extension.Grows (extension.repointed index text) := grows_repointed hcurrent
  refine ⟨hgrows.size_eq.trans hover.size_eq, fun i => ?_, fun constant hconstant =>
    (hover.added constant hconstant).grows hgrows, ?_⟩
  · by_cases hi : index.toNat = i
    · subst hi
      refine .inr ⟨old, text, Option.join_eq_some_iff.mp hget, ?_, hgrows.isUtf8 hutf8⟩
      exact Array.getElem?_setIfInBounds_self_of_lt (lt_of_get?_base hcurrent)
    · have hsame : (extension.repointed index text).base.slots[i]? = extension.base.slots[i]? :=
        Array.getElem?_setIfInBounds_ne hi
      rw [hsame]
      rcases hover.slots i with hkept | ⟨before, new, hbefore, hnew, hnewUtf8⟩
      · exact .inl hkept
      · exact .inr ⟨before, new, hbefore, hnew, hgrows.isUtf8 hnewUtf8⟩
  · have hfits := hover.fits
    rw [slotCount] at hfits ⊢
    rw [hgrows.size_eq]
    exact hfits

end PoolExtension

end Retoken
