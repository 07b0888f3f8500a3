import Retoken.Proofs.PoolExtension.Requests
import Retoken.Proofs.Relinking.Patches
import Retoken.Proofs.Text.ModifiedUtf8

/-!
# Giving a reference a constant of its own

A reference that cannot keep its constant is answered with the index of an added string. The answer depends only on the text that is asked for, so references that want the same text are given the same index, and a patch is refused only where two references at one position want different texts.
-/

namespace Retoken

open Text

namespace PoolExtension

variable {source : ConstantPool} {extension extension' : PoolExtension} {storedText index : UInt16}
  {wanted? : Option String}

def ownIndex? (extension : PoolExtension) (storedText : UInt16) : Option String → Option UInt16
  | some text => (extension.textIndex? text).bind fun index => extension.addedIndex? (.string index)
  | none => extension.addedIndex? (.string storedText)

theorem Adds.ownIndex? (hadds : extension.Adds extension')
    (hindex : extension.ownIndex? storedText wanted? = some index) :
    extension'.ownIndex? storedText wanted? = some index := by
  cases wanted? with
  | none => exact hadds.2.addedIndex? hindex
  | some text =>
    obtain ⟨textIndex, htext, hstring⟩ := Option.bind_eq_some_iff.mp hindex
    exact Option.bind_eq_some_iff.mpr ⟨textIndex, hadds.textIndex? htext, hadds.2.addedIndex? hstring⟩

def Shows (extension : PoolExtension) (index : UInt16) (text : String) : Prop :=
  ∃ textIndex, extension.addedIndex? (.string textIndex) = some index
    ∧ extension.pool.textAt? textIndex = some text

theorem Shows.grows {text : String} (hshows : extension.Shows index text)
    (hgrows : extension.Grows extension') : extension'.Shows index text := by
  obtain ⟨textIndex, hindex, htext⟩ := hshows
  exact ⟨textIndex, hgrows.addedIndex? hindex, hgrows.textAt? htext⟩

theorem Shows.shownText? {kind : SlotKind} {text : String} (hshows : extension.Shows index text)
    (hfits : extension.slotCount ≤ maxSlots) (hkind : kind.namesString = true) :
    extension.pool.shownText? kind index = some text := by
  obtain ⟨textIndex, hindex, htext⟩ := hshows
  exact (ConstantPool.shownText?_string hkind).mpr ⟨textIndex, (get?_of_addedIndex? hfits hindex).2, htext⟩

theorem textAt?_of_get? {text : String}
    (hget : extension.pool.get? index = some (.utf8 (ModifiedUtf8.ofString text))) :
    extension.pool.textAt? index = some text :=
  ConstantPool.textAt?_eq_some.mpr ⟨_, hget, ModifiedUtf8.toString?_ofString text⟩

theorem shows_of_ownIndex? (hover : Over source extension) {stored : String}
    (hstored : extension.pool.textAt? storedText = some stored)
    (hindex : extension.ownIndex? storedText wanted? = some index) :
    extension.Shows index (wanted?.getD stored) := by
  cases wanted? with
  | none => exact ⟨storedText, hindex, hstored⟩
  | some text =>
    obtain ⟨textIndex, htext, hstring⟩ := Option.bind_eq_some_iff.mp hindex
    exact ⟨textIndex, hstring, textAt?_of_get? (get?_of_textIndex? hover htext)⟩

end PoolExtension

namespace Relinking

open PoolExtension

variable {source : ConstantPool} {relinking : Relinking} {reference : Reference} {storedText : UInt16}

theorem extending_meets {α : Type} {step : Extending α} {after : α → PoolExtension → Prop}
    {fails : ClassError → Prop} (hstep : Meets step relinking.extension after fails) :
    Meets (extending step) relinking
      (fun a relinking' => after a relinking'.extension ∧ relinking'.patches = relinking.patches) fails := by
  refine Meets.get_bind ?_
  cases hrun : step relinking.extension with
  | error error => exact Meets.of_error hstep hrun
  | ok result => exact ⟨Meets.of_ok hstep hrun, rfl⟩

theorem patch_meets {slot : Slot} {index : UInt16} :
    Meets (patch slot index) relinking
      (fun _ relinking' => relinking'.extension = relinking.extension
        ∧ relinking'.patches = relinking.patches.insert slot.position ⟨slot.kind, index⟩
        ∧ ∀ previous, relinking.patches[slot.position]? = some previous → previous.index = index)
      (fun error => error = .conflictingSlot slot.position
        ∧ ∃ previous, relinking.patches[slot.position]? = some previous ∧ previous.index ≠ index) := by
  refine Meets.get_bind ?_
  have hadded : Meets (liftM (relinking.patches.add slot.position ⟨slot.kind, index⟩) : RelinkingM Patches)
      relinking (fun patches relinking' => relinking' = relinking
        ∧ relinking.patches.add slot.position ⟨slot.kind, index⟩ = .ok patches) _ :=
    Meets.lift (fun patches hadd => ⟨rfl, hadd⟩) fun error herror => Patches.add_eq_error herror
  refine Meets.bind hadded ?_
  rintro patches _ ⟨rfl, hadd⟩
  obtain ⟨hinsert, hagree⟩ := Patches.add_eq_ok hadd
  exact ⟨rfl, hinsert, hagree⟩

inductive RedirectFails (relinking : Relinking) (storedText : UInt16) (reference : Reference) :
    ClassError → Prop where
  | pool : RedirectFails relinking storedText reference .poolOverflow
  | text {text : String} (hwanted : reference.wanted? = some text)
      (hlong : maxTextSize < (ModifiedUtf8.ofString text).length) :
      RedirectFails relinking storedText reference (.stringTooLong (ModifiedUtf8.ofString text).length)
  | narrow {index : UInt16} (hnarrow : reference.slot.kind = .narrowString) :
      RedirectFails relinking storedText reference (.narrowIndexOverflow reference.slot.position index)
  | conflict {extension : PoolExtension} {index : UInt16} {previous : Patch}
      (hadds : relinking.extension.Adds extension)
      (hindex : extension.ownIndex? storedText reference.wanted? = some index)
      (hprevious : relinking.patches[reference.slot.position]? = some previous)
      (hdiffers : previous.index ≠ index) :
      RedirectFails relinking storedText reference (.conflictingSlot reference.slot.position)

structure Redirected (relinking : Relinking) (storedText : UInt16) (reference : Reference) (index : UInt16)
    (relinking' : Relinking) : Prop where
  adds : relinking.extension.Adds relinking'.extension
  index_eq : relinking'.extension.ownIndex? storedText reference.wanted? = some index
  narrow : reference.slot.kind = .narrowString → index.toNat ≤ 0xFF
  patches_eq : relinking'.patches = relinking.patches.insert reference.slot.position ⟨reference.slot.kind, index⟩
  agrees : ∀ previous, relinking.patches[reference.slot.position]? = some previous → previous.index = index
  short : ∀ text, reference.wanted? = some text → (ModifiedUtf8.ofString text).length ≤ maxTextSize

def request (storedText : UInt16) : Option String → Extending UInt16
  | some text => PoolExtension.string text
  | none => PoolExtension.stringNaming storedText

theorem request_meets {extension : PoolExtension} {wanted? : Option String} (hover : Over source extension)
    (hstored : extension.pool.isUtf8 storedText = true) :
    Meets (request storedText wanted?) extension
      (fun index extension' => Over source extension' ∧ extension.Adds extension'
        ∧ extension'.ownIndex? storedText wanted? = some index
        ∧ ∀ text, wanted? = some text → (ModifiedUtf8.ofString text).length ≤ maxTextSize)
      (fun error => error = .poolOverflow ∨ ∃ text, wanted? = some text
        ∧ maxTextSize < (ModifiedUtf8.ofString text).length
        ∧ error = .stringTooLong (ModifiedUtf8.ofString text).length) := by
  cases wanted? with
  | none =>
    refine (stringNaming_over hover hstored).imp ?_ fun error => .inl
    rintro index extension' ⟨hover', hadds, hindex⟩
    exact ⟨hover', hadds, hindex, nofun⟩
  | some text =>
    refine (string_over hover).imp ?_ ?_
    · rintro index extension' ⟨hover', hadds, ⟨textIndex, htext, hstring⟩, hshort⟩
      refine ⟨hover', hadds, Option.bind_eq_some_iff.mpr ⟨textIndex, htext, hstring⟩, ?_⟩
      rintro _ ⟨⟩
      exact hshort
    · rintro error (hpool | ⟨hlong, htooLong⟩)
      · exact .inl hpool
      · exact .inr ⟨text, rfl, hlong, htooLong⟩

theorem redirect_meets (hover : Over source relinking.extension)
    (hstored : relinking.extension.pool.isUtf8 storedText = true) :
    Meets (redirect storedText reference) relinking
      (fun _ relinking' => Over source relinking'.extension
        ∧ ∃ index, Redirected relinking storedText reference index relinking')
      (RedirectFails relinking storedText reference) := by
  have hrequest : Meets (extending (request storedText reference.wanted?)) relinking _ _ :=
    extending_meets (request_meets hover hstored)
  refine Meets.bind (hrequest.imp (fun _ _ h => h) ?_) ?_
  · rintro error (rfl | ⟨text, hwanted, hlong, rfl⟩)
    · exact .pool
    · exact .text hwanted hlong
  rintro index middle ⟨⟨hover', hadds, hindex, hshort⟩, hpatches⟩
  simp only
  by_cases hnarrow : reference.slot.kind = .narrowString ∧ 0xFF < index.toNat
  · rw [if_pos hnarrow]
    exact Meets.throw_bind (.narrow hnarrow.1)
  · rw [if_neg hnarrow]
    refine patch_meets.imp ?_ ?_
    · rintro _ relinking' ⟨hextension, hinsert, hagree⟩
      rw [hextension]
      refine ⟨hover', index, ?_⟩
      rw [hpatches] at hinsert hagree
      refine ⟨by rwa [hextension], by rwa [hextension], fun hkind => ?_, hinsert, hagree, hshort⟩
      exact Nat.le_of_not_lt fun hlt => hnarrow ⟨hkind, hlt⟩
    · rintro error ⟨rfl, previous, hprevious, hdiffers⟩
      rw [hpatches] at hprevious
      exact .conflict hadds hindex hprevious hdiffers

end Relinking

end Retoken
