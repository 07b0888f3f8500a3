import Retoken.Proofs.Relinking.Written

/-!
# Why a file cannot be written

There are four reasons not to write a file: no room in the pool, a text that is too long, two loads of one byte that want different texts from one constant, and two sites at one bootstrap argument that both want another text than their constant takes. The last is less than what could be asked for: if one of the two wants what the constant takes, the file is written, and the site is made to name the text that the other one wants.
-/

namespace Retoken

open Text PoolExtension

namespace ClassFile

open Relinking

inductive Refusal (file : ClassFile) : ClassError → Prop where
  | pool : Refusal file .poolOverflow
  | long {site : StringSite} (hsite : site ∈ file.declaration.sites) (hmodified : site.isModified = true)
      (hlong : maxTextSize < (ModifiedUtf8.ofString site.text).length) :
      Refusal file (.stringTooLong (ModifiedUtf8.ofString site.text).length)
  | narrow {one other : StringSite} {index : UInt16} (hone : one ∈ file.declaration.sites)
      (hother : other ∈ file.declaration.sites) (hnarrow : one.slot.kind = .narrowString)
      (hnarrowOther : other.slot.kind = .narrowString) (hindex : one.slot.index = other.slot.index)
      (hdiffers : one.text ≠ other.text) : Refusal file (.narrowIndexOverflow one.slot.position index)
  | conflict {one other : StringSite} (hone : one ∈ file.declaration.callArguments)
      (hother : other ∈ file.declaration.callArguments) (hposition : one.slot.position = other.slot.position)
      (hdiffers : one.text ≠ other.text)
      (hredirected : one.wanted? ≠ primaryOf file.stringReferences one.slot.index)
      (hredirectedOther : other.wanted? ≠ primaryOf file.stringReferences other.slot.index) :
      Refusal file (.conflictingSlot one.slot.position)

variable {file : ClassFile} {methods : List BootstrapMethod} {held : List Slot} {site one other : StringSite}
  {reference : Reference} {error : ClassError}

theorem exists_site_of_wanted {text : String} (hmem : reference ∈ file.stringReferences)
    (hwanted : reference.wanted? = some text) : ∃ site ∈ file.declaration.sites, .ofSite site = reference := by
  rcases mem_stringReferences.mp hmem with ⟨site, hsite, -, heq⟩ | ⟨slot, -, rfl, -⟩
  · exact ⟨site, hsite, heq⟩
  · cases hwanted

theorem Refusal.of_wanted {text : String} (hsite : site ∈ file.declaration.sites)
    (hwanted : site.wanted? = some text) (hlong : maxTextSize < (ModifiedUtf8.ofString text).length) :
    Refusal file (.stringTooLong (ModifiedUtf8.ofString text).length) := by
  obtain ⟨hmodified, rfl⟩ := StringSite.wanted?_eq_some hwanted
  exact .long hsite hmodified hlong

namespace Legible

variable (hlegible : file.Legible methods held)

include hlegible

/-- Sites that show one text want the same if they have the same text. -/
theorem text_ne_of_wanted?_ne (hone : one ∈ file.declaration.sites) (hother : other ∈ file.declaration.sites)
    (hkind : one.slot.kind = other.slot.kind) (hindex : one.slot.index = other.slot.index)
    (hdiffers : one.wanted? ≠ other.wanted?) : one.text ≠ other.text := by
  intro htext
  have hstored := hlegible.stored_eq_of_index hone hother hkind hindex
  exact hdiffers ((StringSite.wanted?_eq_iff hstored).mpr htext)

theorem refusal_of_obstacle (hobstacle : Obstacle file.stringReferences error) : Refusal file error := by
  cases hobstacle with
  | pool => exact .pool
  | text hmem hwanted hlong =>
    obtain ⟨site, hsite, rfl⟩ := exists_site_of_wanted hmem hwanted
    exact .of_wanted hsite hwanted hlong
  | @narrow reference other index hmem hother hnarrow hnarrowOther hindex hdiffers =>
    have hsites : ∀ reference ∈ file.stringReferences, reference.slot.kind = .narrowString →
        ∃ site ∈ file.declaration.sites, .ofSite site = reference := by
      intro reference hmem hnarrow
      rcases mem_stringReferences.mp hmem with ⟨site, hsite, -, heq⟩ | ⟨slot, hslot, rfl, -⟩
      · exact ⟨site, hsite, heq⟩
      · rw [(hlegible.bootstrapStrings_held hslot).2.1] at hnarrow
        cases hnarrow
    obtain ⟨one, hone, rfl⟩ := hsites _ hmem hnarrow
    obtain ⟨two, htwo, rfl⟩ := hsites _ hother hnarrowOther
    exact .narrow hone htwo hnarrow hnarrowOther hindex
      (hlegible.text_ne_of_wanted?_ne hone htwo (hnarrow.trans hnarrowOther.symm) hindex hdiffers)
  | @conflict reference other hmem hother hposition hdiffers hredirected hredirectedOther =>
    rcases mem_stringReferences.mp hmem with ⟨one, hone, hkind, rfl⟩ | ⟨slot, -, rfl, huncovered⟩
    · rcases mem_stringReferences.mp hother with ⟨two, htwo, -, rfl⟩ | ⟨slot, -, rfl, huncovered⟩
      · have hslot := hlegible.slot_eq_of_position hone htwo hposition
        have htext := hlegible.text_ne_of_wanted?_ne hone htwo (congrArg Slot.kind hslot)
          (congrArg Slot.index hslot) hdiffers
        obtain ⟨hargument, hargumentOther⟩ := hlegible.callArguments_of_position hone htwo hposition
          fun hsame => htext (congrArg StringSite.text hsame)
        exact .conflict hargument hargumentOther hposition htext hredirected hredirectedOther
      · exact absurd hposition (huncovered one hone hkind)
    · rcases mem_stringReferences.mp hother with ⟨two, htwo, hkind, rfl⟩ | ⟨slot, -, rfl, -⟩
      · exact absurd hposition.symm (huncovered two htwo hkind)
      · exact absurd rfl hdiffers

theorem refusal_of_toBytes (herror : file.toBytes = .error error) : Refusal file error := by
  cases unsettled_of_relink hlegible.relinkable (toBytes_eq_error.mp herror).2 with
  | string hobstacle => exact hlegible.refusal_of_obstacle hobstacle
  | text hmem hwanted hfails =>
    obtain ⟨site, hsite, -, rfl⟩ := mem_textReferences.mp hmem
    rcases hfails with rfl | ⟨hlong, rfl⟩
    · exact .pool
    · exact .of_wanted hsite hwanted hlong

theorem length_le_of_toBytes {out : List UInt8} (hout : file.toBytes = .ok out)
    (hsite : site ∈ file.declaration.sites) (hmodified : site.isModified = true) :
    (ModifiedUtf8.ofString site.text).length ≤ maxTextSize := by
  obtain ⟨relinking, hrelinked, -⟩ := hlegible.relinked_of_toBytes hout hsite hmodified
  refine hrelinked.short (.ofSite site) ?_ _ (StringSite.wanted?_of_isModified hmodified)
  cases hkind : site.slot.kind.namesString with
  | true => exact List.mem_append_left _ (mem_stringReferences.mpr (.inl ⟨site, hsite, hkind, rfl⟩))
  | false => exact List.mem_append_right _ (mem_textReferences.mpr ⟨site, hsite, hkind, rfl⟩)

end Legible

end ClassFile

end Retoken
