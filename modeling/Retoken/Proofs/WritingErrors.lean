import Retoken.Proofs.Relinking.Refusals
import Retoken.Proofs.Retokening
import Retoken.Proofs.SharedArguments

/-!
# Errors of writing

Which errors an edit can lead to is settled by the reasons not to write a file. Replacing tokens leaves only two of them, since loads of one byte are all open and sites at one bootstrap argument are open together, so that neither comes to disagree.
-/

namespace Retoken.ClassFile

open Declaration PoolExtension Text

variable {file : ClassFile} {bytes : List UInt8} {edited : Declaration StringSite} {tokens : TokenTable}
  {error : ClassError}

theorem refusal_of_edited (hfile : ofBytes bytes = .ok file)
    (hedited : edited.map StringSite.reverted = file.declaration)
    (herror : ({ file with declaration := edited } : ClassFile).toBytes = .error error) :
    Refusal { file with declaration := edited } error := by
  obtain ⟨-, methods, held, hlegible⟩ := exists_legible hfile hedited
  exact hlegible.refusal_of_toBytes herror

theorem mem_ownSites_of_narrow {site : StringSite} (hfile : ofBytes bytes = .ok file)
    (hedited : edited.map StringSite.reverted = file.declaration) (hsite : site ∈ edited.sites)
    (hnarrow : site.slot.kind = .narrowString) : site ∈ edited.ownSites := by
  obtain ⟨-, methods, held, hlegible⟩ := exists_legible hfile hedited
  refine hlegible.mem_ownSites_of_kind hsite ?_
  rw [hnarrow]
  decide

theorem retokened_narrow_agree {one other : StringSite} (hfile : ofBytes bytes = .ok file)
    (hone : one ∈ (file.declaration.mapOpen (retokened tokens)).sites)
    (hother : other ∈ (file.declaration.mapOpen (retokened tokens)).sites)
    (hnarrow : one.slot.kind = .narrowString) (hnarrowOther : other.slot.kind = .narrowString)
    (hindex : one.slot.index = other.slot.index) : one.text = other.text := by
  have hreverted := retokened_reverted hfile tokens
  have hown := mem_ownSites_of_narrow hfile hreverted hone hnarrow
  have hownOther := mem_ownSites_of_narrow hfile hreverted hother hnarrowOther
  rw [ownSites_mapOpen] at hown hownOther
  obtain ⟨site, hsite, rfl⟩ := List.mem_map.mp hown
  obtain ⟨site', hsite', rfl⟩ := List.mem_map.mp hownOther
  rw [slot_retokened] at hnarrow hnarrowOther hindex
  rw [slot_retokened] at hindex
  refine text_retokened_congr tokens true ?_
  exact text_eq_of_index hfile (mem_sites.mpr (.inl hsite)) (mem_sites.mpr (.inl hsite'))
    (hnarrow.trans hnarrowOther.symm) hindex

theorem refusal_of_retoken (hfile : ofBytes bytes = .ok file) (hretoken : retoken tokens bytes = .error error) :
    Refusal { file with declaration := file.declaration.mapOpen (retokened tokens) } error := by
  rw [retoken_of_ofBytes hfile] at hretoken
  simp only [ClassFile.replaceTokens, replaceTokens_eq] at hretoken
  split at hretoken
  case isFalse => cases hretoken
  case isTrue =>
    refine refusal_of_edited hfile (retokened_reverted hfile tokens) ?_
    cases hout : ({ file with declaration := file.declaration.mapOpen (retokened tokens) } : ClassFile).toBytes with
    | error other =>
      rw [hout] at hretoken
      cases hretoken
      rfl
    | ok out =>
      rw [hout] at hretoken
      cases hretoken

/-- What each error of writing an edited file says about the edit. Replacing tokens fails only at a text that is too long or a full pool. -/
theorem writing_errors (hfile : ofBytes bytes = .ok file) :
    (∀ edited : Declaration StringSite, edited.map StringSite.reverted = file.declaration →
      (∀ position index,
        ({ file with declaration := edited } : ClassFile).toBytes = .error (.narrowIndexOverflow position index) →
          ∃ one ∈ edited.sites, ∃ other ∈ edited.sites,
            one.slot.kind = .narrowString ∧ other.slot.kind = .narrowString
              ∧ one.slot.index = other.slot.index ∧ one.text ≠ other.text)
      ∧ (∀ position,
        ({ file with declaration := edited } : ClassFile).toBytes = .error (.conflictingSlot position) →
          ∃ one ∈ edited.callArguments, ∃ other ∈ edited.callArguments,
            one.slot.position = position ∧ other.slot.position = position ∧ one.text ≠ other.text)
      ∧ ((∃ site ∈ edited.sites, site.isModified = true ∧ 65535 < (ModifiedUtf8.ofString site.text).length) →
        ∃ error, ({ file with declaration := edited } : ClassFile).toBytes = .error error)
      ∧ ∀ size, ({ file with declaration := edited } : ClassFile).toBytes = .error (.stringTooLong size) →
        ∃ site ∈ edited.sites, site.isModified = true ∧ 65535 < (ModifiedUtf8.ofString site.text).length)
    ∧ ∀ tokens error, retoken tokens bytes = .error error →
      (∃ size, error = .stringTooLong size) ∨ error = .poolOverflow := by
  refine ⟨fun edited hedited => ⟨fun position index herror => ?_, fun position herror => ?_, ?_, fun size herror => ?_⟩,
    fun tokens error hretoken => ?_⟩
  · cases refusal_of_edited hfile hedited herror with
    | narrow hone hother hnarrow hnarrowOther hindex hdiffers =>
      exact ⟨_, hone, _, hother, hnarrow, hnarrowOther, hindex, hdiffers⟩
  · cases refusal_of_edited hfile hedited herror with
    | conflict hone hother hposition hdiffers => exact ⟨_, hone, _, hother, rfl, hposition.symm, hdiffers⟩
  · rintro ⟨site, hsite, hmodified, hlong⟩
    obtain ⟨-, methods, held, hlegible⟩ := exists_legible hfile hedited
    cases hrun : ({ file with declaration := edited } : ClassFile).toBytes with
    | error error => exact ⟨error, rfl⟩
    | ok out => exact absurd (hlegible.length_le_of_toBytes hrun hsite hmodified) (Nat.not_le_of_lt hlong)
  · cases refusal_of_edited hfile hedited herror with
    | long hsite hmodified hlong => exact ⟨_, hsite, hmodified, hlong⟩
  · cases refusal_of_retoken hfile hretoken with
    | pool => exact .inr rfl
    | long => exact .inl ⟨_, rfl⟩
    | narrow hone hother hnarrow hnarrowOther hindex hdiffers =>
      exact absurd (retokened_narrow_agree hfile hone hother hnarrow hnarrowOther hindex) hdiffers
    | conflict hone hother hposition hdiffers =>
      exact absurd (retokened_agree hfile tokens _ hone _ hother hposition) hdiffers

/-- Two calls through one bootstrap method are given different texts, neither of which is the one that was read. -/
theorem writing_errors_sharedClass : ∃ file edited, ofBytes sharedClass = .ok file
    ∧ ({ file with declaration := edited } : ClassFile).toBytes = .error (.conflictingSlot 129)
    ∧ ∃ one ∈ edited.callArguments, ∃ other ∈ edited.callArguments,
      one.slot.position = 129 ∧ other.slot.position = 129 ∧ one.text ≠ other.text := by
  have hrun : (ofBytes sharedClass).map (fun file => (file.declaration.setArgument? 0 1 0 "y").bind fun first =>
      (first.setArgument? 0 2 0 "z").map fun edited =>
        ({ file with declaration := edited } : ClassFile).toBytes)
      = .ok (some (.error (.conflictingSlot 129))) := by
    decide +kernel
  obtain ⟨file, hfile, hrun⟩ := except_map_eq_ok.mp hrun
  obtain ⟨first, hfirst, hrun⟩ := Option.bind_eq_some_iff.mp hrun
  obtain ⟨edited, hsecond, herror⟩ := Option.map_eq_some_iff.mp hrun
  have hedited : edited.map StringSite.reverted = file.declaration := by
    rw [setArgument?_reverted hsecond, setArgument?_reverted hfirst, map_reverted hfile]
  exact ⟨file, edited, hfile, herror, ((writing_errors hfile).1 edited hedited).2.1 129 herror⟩

end Retoken.ClassFile
