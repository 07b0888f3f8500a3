import Retoken.Proofs.Retokening
import Retoken.Proofs.Substitution

/-!
# When writing changes no byte

There are three ways to ask whether a class changes: whether some step of replacing its tokens led away from a text, whether some site wants another text than it was read with, and whether other bytes are written. The second and the third come to the same. A site that wants another text either shows it afterwards or wants what its string constant takes, and then the load of one byte that decides what the constant takes shows it. The first may hold without them, when a later token leads back to the text.
-/

namespace Retoken

namespace Declaration

variable {declaration : Declaration StringSite} {tokens : TokenTable}

theorem isModified_eq_false_iff :
    declaration.isModified = false ↔ ∀ site ∈ declaration.sites, site.text = site.stored := by
  rw [isModified, List.any_eq_false]
  simp [StringSite.isModified]

/-- Replacing tokens leaves every site with the text it was read with if it does so at the sites that are listed. -/
theorem retokened_unmodified_iff (hreverted : ∀ site ∈ declaration.sites, site.reverted = site) :
    (declaration.mapOpen (retokened tokens)).isModified = false
      ↔ ∀ record ∈ declaration.records, (tokens.substitute record.text).1 = record.text := by
  have hstored : ∀ marked ∈ declaration.located.sites, marked.2.stored = marked.2.text := by
    intro marked hmarked
    have hsite : marked.2 ∈ declaration.sites := by
      rw [← located_map_snd declaration, sites_map]
      exact List.mem_map_of_mem hmarked
    exact congrArg StringSite.text (hreverted _ hsite)
  rw [isModified_eq_false_iff, ← located_map_isSome, sites_map, records_eq]
  constructor
  · intro hsame record hrecord
    obtain ⟨⟨place?, site⟩, hmarked, hrecord⟩ := List.mem_filterMap.mp hrecord
    obtain ⟨place, rfl, rfl⟩ := Option.map_eq_some_iff.mp hrecord
    have htext := hsame _ (List.mem_map_of_mem hmarked)
    exact htext.trans (hstored _ hmarked)
  · intro hsame site hsite
    obtain ⟨⟨place?, read⟩, hmarked, rfl⟩ := List.mem_map.mp hsite
    have hread : read.stored = read.text := hstored (place?, read) hmarked
    cases place? with
    | none => exact hread.symm
    | some place =>
      have hrecord : (⟨place, read.text⟩ : SiteRecord) ∈ declaration.located.sites.filterMap recordOf :=
        List.mem_filterMap.mpr ⟨(some place, read), hmarked, rfl⟩
      exact (hsame _ hrecord).trans hread.symm

end Declaration

namespace ClassFile

open Declaration Relinking

variable {file : ClassFile} {bytes out : List UInt8} {edited : Declaration StringSite} {tokens : TokenTable}

namespace Legible

variable {methods : List BootstrapMethod} {held : List Slot} {relinking : Relinking} {site : StringSite}
  (hlegible : file.Legible methods held) (hrelinked : file.Relinked relinking)

include hlegible

/-- A site that is no argument of a dynamic call shows the text that it wants. -/
theorem text_of_own (hown : site ∈ file.declaration.ownSites) :
    (relinking.relocation hrelinked.extended).text site.slot = site.text := by
  have hsite := mem_sites.mpr (.inl hown)
  apply hlegible.text_of_agreeing hrelinked hsite
  intro other hother hposition
  rw [hlegible.eq_of_position_own hown hother hposition.symm]

/-- If some site wants another text than it was read with, then some such site shows the text that it wants. -/
theorem exists_changed (hsite : site ∈ file.declaration.sites) (hmodified : site.isModified = true) :
    ∃ other ∈ file.declaration.sites, other.isModified = true
      ∧ (relinking.relocation hrelinked.extended).text other.slot = other.text := by
  by_cases hown : site ∈ file.declaration.ownSites
  · exact ⟨site, hsite, hmodified, hlegible.text_of_own hrelinked hown⟩
  · have hkind : site.slot.kind = .wideString := by
      by_contra hkind
      exact hown (hlegible.mem_ownSites_of_kind hsite hkind)
    have hnames : site.slot.kind.namesString = true := by
      rw [hkind]
      rfl
    by_cases hprimary : site.wanted? = primaryOf file.stringReferences site.slot.index
    · rw [StringSite.wanted?_of_isModified hmodified] at hprimary
      obtain ⟨load, hload, hnarrow, -, hwanted⟩ := exists_narrow_of_primaryOf hprimary.symm
      have hloadOwn := hlegible.mem_ownSites_of_kind hload (by rw [hnarrow]; decide)
      exact ⟨load, hload, (StringSite.wanted?_eq_some hwanted).1, hlegible.text_of_own hrelinked hloadOwn⟩
    · exact ⟨site, hsite, hmodified, hlegible.text_of_redirected hrelinked hsite hnames hprimary⟩

end Legible

/-- The bytes that were read are written again exactly if no site wants another text. -/
theorem toBytes_eq_iff (hfile : ofBytes bytes = .ok file)
    (hedited : edited.map StringSite.reverted = file.declaration)
    (hout : ({ file with declaration := edited } : ClassFile).toBytes = .ok out) :
    out = bytes ↔ edited.isModified = false := by
  obtain ⟨hbytes, methods, held, hlegible⟩ := exists_legible hfile hedited
  rcases toBytes_eq_ok.mp hout with ⟨hunmodified, rfl⟩ | ⟨hmodified, relinking, hrelink, rfl⟩
  · exact ⟨fun _ => hunmodified, fun _ => hbytes⟩
  · have hrelinked := settled_of_relink hlegible.relinkable hrelink
    constructor
    · intro hsame
      obtain ⟨site, hsite, hsiteModified⟩ := List.any_eq_true.mp hmodified
      obtain ⟨other, hother, hotherModified, htext⟩ := hlegible.exists_changed hrelinked hsite hsiteModified
      obtain ⟨file', hread, hdeclaration⟩ := hlegible.ofBytes_assemble hrelinked
      rw [hsame, hfile] at hread
      cases hread
      -- Both declarations were read from the same bytes, so each site shows what it was read with.
      have hsites := congrArg Declaration.sites (hedited.trans hdeclaration)
      rw [sites_map, sites_map] at hsites
      have hstored := congrArg StringSite.text (List.map_inj_left.mp hsites other hother)
      change other.stored = (relinking.relocation hrelinked.extended).text other.slot at hstored
      rw [htext] at hstored
      simp [StringSite.isModified, hstored] at hotherModified
    · intro hunmodified
      rw [hmodified] at hunmodified
      cases hunmodified

/-- No change is counted exactly if no listed text is reported as changed. -/
theorem changed_replaceTokens_eq_false_iff :
    (file.replaceTokens tokens).2.changed = false
      ↔ ∀ record ∈ file.declaration.records, (tokens.substitute record.text).2 = false := by
  have htally : (file.replaceTokens tokens).2.replaced
      = file.declaration.records.countP fun record => (tokens.substitute record.text).2 := by
    rw [ClassFile.replaceTokens, replaceTokens_eq]
  rw [Tally.changed, htally, decide_eq_false_iff_not, Nat.not_lt, Nat.le_zero, List.countP_eq_zero]
  simp only [Bool.not_eq_true]

theorem declaration_replaceTokens (file : ClassFile) (tokens : TokenTable) :
    (file.replaceTokens tokens).1
      = { file with declaration := file.declaration.mapOpen (retokened tokens) } := by
  rw [ClassFile.replaceTokens, replaceTokens_eq]

/-- A class in which no change is counted has its tokens replaced by themselves. -/
theorem isModified_replaceTokens (hfile : ofBytes bytes = .ok file)
    (hunchanged : (file.replaceTokens tokens).2.changed = false) :
    (file.declaration.mapOpen (retokened tokens)).isModified = false := by
  rw [retokened_unmodified_iff fun site hsite => reverted_of_mem hfile hsite]
  intro record hrecord
  exact TokenTable.fst_substitute_of_unchanged (changed_replaceTokens_eq_false_iff.mp hunchanged record hrecord)

/-- No bytes are given for a class exactly if no listed text is reported as changed, and then writing the class would give its own bytes. If bytes are given, they are its own exactly if every site ends with the text it was read with; and so it is with any edit that can be written. -/
theorem unchanged_iff (hfile : ofBytes bytes = .ok file) :
    (∀ tokens,
      ((∃ tally, retoken tokens bytes = .ok ⟨tally, none⟩)
        ↔ ∀ record ∈ file.declaration.records, (tokens.substitute record.text).2 = false)
      ∧ (∀ tally, retoken tokens bytes = .ok ⟨tally, none⟩ → (file.replaceTokens tokens).1.toBytes = .ok bytes)
      ∧ ∀ tally out, retoken tokens bytes = .ok ⟨tally, some out⟩ →
        (out = bytes ↔ ∀ site ∈ (file.replaceTokens tokens).1.declaration.sites, site.text = site.stored))
    ∧ ∀ edited out, edited.map StringSite.reverted = file.declaration →
      ({ file with declaration := edited } : ClassFile).toBytes = .ok out →
        (out = bytes ↔ ∀ site ∈ edited.sites, site.text = site.stored) := by
  have hgeneral : ∀ edited out, edited.map StringSite.reverted = file.declaration →
      ({ file with declaration := edited } : ClassFile).toBytes = .ok out →
        (out = bytes ↔ ∀ site ∈ edited.sites, site.text = site.stored) := by
    intro edited out hedited hout
    rw [toBytes_eq_iff hfile hedited hout, isModified_eq_false_iff]
  refine ⟨fun tokens => ?_, hgeneral⟩
  rw [retoken_of_ofBytes hfile, ← changed_replaceTokens_eq_false_iff, declaration_replaceTokens]
  cases hchanged : (file.replaceTokens tokens).2.changed with
  | false =>
    refine ⟨⟨fun _ => rfl, fun _ => ⟨_, rfl⟩⟩, fun tally _ => ?_, fun tally out hsome => by cases hsome⟩
    have hbytes := (exists_legible hfile (retokened_reverted hfile tokens)).1
    rw [← hbytes]
    exact toBytes_eq_ok.mpr (.inl ⟨isModified_replaceTokens hfile hchanged, rfl⟩)
  | true =>
    refine ⟨⟨fun ⟨tally, hnone⟩ => ?_, nofun⟩, fun tally hnone => ?_, fun tally out hsome => ?_⟩
    · obtain ⟨out, -, hresult⟩ := except_map_eq_ok.mp hnone
      cases hresult
    · obtain ⟨out, -, hresult⟩ := except_map_eq_ok.mp hnone
      cases hresult
    · obtain ⟨written, hout, hresult⟩ := except_map_eq_ok.mp hsome
      cases hresult
      exact hgeneral _ out (retokened_reverted hfile tokens) hout

/-- A token leads away from the text of a load and the next one back to it: a change is counted, and the bytes are the same. -/
theorem unchanged_iff_sharedClass : ∃ file, ofBytes sharedClass = .ok file
    ∧ (file.declaration.records.map fun record =>
        (TokenTable.substitute ⟨[("x", "y"), ("y", "x")]⟩ record.text)) = [("x", true)]
    ∧ retoken ⟨[("x", "y"), ("y", "x")]⟩ sharedClass = .ok ⟨⟨1, 1⟩, some sharedClass⟩ := by
  let tokens : TokenTable := ⟨[("x", "y"), ("y", "x")]⟩
  have hread : (ofBytes sharedClass).map (fun file =>
      ((file.declaration.records.map fun record => tokens.substitute record.text),
        (file.replaceTokens tokens).1.declaration.isModified)) = .ok ([("x", true)], false) := by
    decide +kernel
  have hrun : (retoken tokens sharedClass).map (fun retokened => (retokened.tally, retokened.bytes?.isSome))
      = .ok (⟨1, 1⟩, true) := by
    decide +kernel
  obtain ⟨file, hfile, hfound⟩ := except_map_eq_ok.mp hread
  obtain ⟨hsubstituted, hunmodified⟩ := Prod.mk.inj hfound
  obtain ⟨⟨tally, bytes?⟩, hretoken, hresult⟩ := except_map_eq_ok.mp hrun
  cases bytes? with
  | none => cases hresult
  | some out =>
    obtain rfl : tally = ⟨1, 1⟩ := congrArg Prod.fst hresult
    have hsame := ((unchanged_iff hfile).1 tokens).2.2 _ out hretoken
    obtain rfl := hsame.mpr (isModified_eq_false_iff.mp hunmodified)
    exact ⟨file, hfile, hsubstituted, hretoken⟩

end ClassFile

end Retoken
