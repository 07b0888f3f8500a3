import Retoken.Proofs.Relinking.References

/-!
# A relinked file is a relocated one

Writing the changes of a relinking overwrites the file at the slots of references only, and puts the extended pool in front. Each slot shows a readable text afterwards or what it showed before, so the file can be read again. A site that was given a constant of its own shows the text it wants, and so does every site that wants what its constant says, unless another site at the same slot was given a constant of its own.
-/

namespace Retoken

open PoolExtension

namespace StringSite

variable {site other : StringSite} {text : String}

theorem getD_wanted? (site : StringSite) : site.wanted?.getD site.stored = site.text := by
  rw [wanted?, isModified]
  split
  case isTrue => rfl
  case isFalse hsame => simpa using Eq.symm (by simpa using hsame)

theorem wanted?_eq_iff (hstored : site.stored = other.stored) :
    site.wanted? = other.wanted? ↔ site.text = other.text := by
  constructor
  · intro hwanted
    rw [← site.getD_wanted?, ← other.getD_wanted?, hwanted, hstored]
  · intro htext
    rw [wanted?, wanted?, isModified, isModified, htext, hstored]

theorem wanted?_eq_some (hwanted : site.wanted? = some text) : site.isModified = true ∧ site.text = text := by
  rw [wanted?] at hwanted
  split at hwanted
  case isTrue hmodified => exact ⟨hmodified, Option.some.inj hwanted⟩
  case isFalse => cases hwanted

theorem ne_of_wanted? (hwanted : site.wanted? = some text) : text ≠ site.stored := by
  obtain ⟨hmodified, rfl⟩ := wanted?_eq_some hwanted
  simpa [isModified] using hmodified

theorem wanted?_of_isModified (hmodified : site.isModified = true) : site.wanted? = some site.text := by
  rw [wanted?, if_pos hmodified]

end StringSite

namespace Relinking

def indexAt (relinking : Relinking) (slot : Slot) : UInt16 :=
  (relinking.patches[slot.position]?.map (·.index)).getD slot.index

/-- What writing the changes does to the file. A slot that shows no text is given an arbitrary one. -/
def relocation {source : ConstantPool} (relinking : Relinking) (hover : Over source relinking.extension) :
    Relocation where
  source := source
  target := relinking.extension.pool
  shift := relinking.extension.pool.toBytes.length - source.toBytes.length
  written position := relinking.patches.bytes[position]?
  text slot := (relinking.extension.pool.shownText? slot.kind (relinking.indexAt slot)).getD ""
  kept := hover.kept

end Relinking

namespace ClassFile

open Relinking

abbrev Relinked (file : ClassFile) (relinking : Relinking) : Prop :=
  Settled file.pool (primaryOf file.stringReferences) file.stringReferences file.textReferences relinking

namespace Legible

variable {file : ClassFile} {methods : List BootstrapMethod} {held : List Slot} {relinking : Relinking}
  {slot : Slot} {site : StringSite} {reference : Reference} {patch : Patch} {position : Nat}
  (hlegible : file.Legible methods held) (hrelinked : file.Relinked relinking)

theorem exists_narrow_of_primaryOf {index : UInt16} {text : String}
    (hprimary : primaryOf file.stringReferences index = some text) :
    ∃ site ∈ file.declaration.sites, site.slot.kind = .narrowString ∧ site.slot.index = index
      ∧ site.wanted? = some text := by
  obtain ⟨reference, hmem, hnarrow, hwanted⟩ := exists_of_primary? hprimary
  obtain ⟨hmem, hindex⟩ := mem_group.mp hmem
  rcases mem_stringReferences.mp hmem with ⟨site, hsite, -, rfl⟩ | ⟨slot, -, rfl, -⟩
  · exact ⟨site, hsite, hnarrow, hindex, hwanted⟩
  · cases hwanted

theorem exists_site_of_primaryOf {index : UInt16} {text : String}
    (hprimary : primaryOf file.stringReferences index = some text) :
    ∃ site ∈ file.declaration.sites, site.slot.kind.namesString = true ∧ site.slot.index = index
      ∧ site.wanted? = some text := by
  obtain ⟨site, hsite, hnarrow, hindex, hwanted⟩ := exists_narrow_of_primaryOf hprimary
  exact ⟨site, hsite, by rw [hnarrow]; rfl, hindex, hwanted⟩

section

include hrelinked

theorem assemble_eq : file.assemble relinking
    = file.bytes.take poolStart ++ relinking.extension.pool.toBytes
      ++ (relinking.relocation hrelinked.extended).overwrite file.poolEnd (file.bytes.drop file.poolEnd) := by
  rw [assemble, Patches.apply, Relocation.overwrite]
  simp only [Std.TreeMap.getD_eq_getD_getElem?]
  rfl

theorem text_relocation {text : String}
    (hshown : (relinking.relocation hrelinked.extended).target.shownText? slot.kind
      (relinking.indexAt slot) = some text) :
    (relinking.relocation hrelinked.extended).text slot = text := by
  change (relinking.extension.pool.shownText? slot.kind (relinking.indexAt slot)).getD "" = text
  change relinking.extension.pool.shownText? slot.kind (relinking.indexAt slot) = some text at hshown
  rw [hshown, Option.getD_some]

theorem shown_in_extension {stored : String} (hkind : slot.kind.namesString = true)
    (hstored : file.pool.shownText? slot.kind slot.index = some stored) :
    relinking.extension.pool.shownText? slot.kind slot.index
      = some ((primaryOf file.stringReferences slot.index).getD stored) := by
  cases hprimary : primaryOf file.stringReferences slot.index with
  | none =>
    refine hrelinked.extended.shownText?_kept ?_ hstored
    obtain ⟨textIndex, hstring, -⟩ := (ConstantPool.shownText?_string hkind).mp hstored
    rw [hstring]
    exact get?_pool_of_base ((hrelinked.unclaimed _ hprimary).trans hstring)
  | some text =>
    obtain ⟨site, hsite, hsiteKind, hindex, -⟩ := exists_site_of_primaryOf hprimary
    have hmem : Reference.ofSite site ∈ file.stringReferences :=
      mem_stringReferences.mpr (.inl ⟨site, hsite, hsiteKind, rfl⟩)
    rw [← hindex] at hprimary
    obtain ⟨named, hnamed, hshown⟩ := hrelinked.claimed _ hmem text hprimary
    rw [← hindex]
    exact (ConstantPool.shownText?_string hkind).mpr ⟨named, get?_pool_of_base hnamed, hshown⟩

/-- What a slot shows that still names a string constant by its old index. -/
theorem shown_of_unpatched {stored : String} (hkind : slot.kind.namesString = true)
    (hpatch : relinking.patches[slot.position]? = none)
    (hstored : file.pool.shownText? slot.kind slot.index = some stored) :
    relinking.extension.pool.shownText? slot.kind (relinking.indexAt slot)
      = some ((primaryOf file.stringReferences slot.index).getD stored) := by
  rw [indexAt, hpatch, Option.map_none, Option.getD_none]
  exact shown_in_extension hrelinked hkind hstored

end

include hlegible

theorem exists_shown_of_redirected (hmem : reference ∈ file.stringReferences)
    (hdiffers : reference.wanted? ≠ primaryOf file.stringReferences reference.slot.index) :
    ∃ stored, file.pool.shownText? reference.slot.kind reference.slot.index = some stored := by
  rcases mem_stringReferences.mp hmem with ⟨site, hsite, -, rfl⟩ | ⟨slot, hslot, rfl, -⟩
  · exact ⟨site.stored, hlegible.shown site hsite⟩
  · obtain ⟨text, htext⟩ := Option.ne_none_iff_exists'.mp hdiffers.symm
    obtain ⟨site, hsite, hkind, hindex, -⟩ := exists_site_of_primaryOf htext
    have hshown := hlegible.shown site hsite
    rw [hindex] at hshown
    refine ⟨site.stored, Eq.trans ?_ hshown⟩
    exact ConstantPool.shownText?_congr (hlegible.stringSlot_held hmem).2.1 hkind

include hrelinked

/-! ### Patches -/

theorem exists_slot_of_patch (hpatch : relinking.patches[position]? = some patch) :
    ∃ slot ∈ held, slot.position = position ∧ slot.kind = patch.kind := by
  rcases hrelinked.origin position patch hpatch with ⟨reference, hmem, -, hrest⟩ | ⟨reference, hmem, -, hrest⟩
  · exact ⟨reference.slot, (hlegible.stringSlot_held hmem).1, hrest⟩
  · exact ⟨reference.slot, (hlegible.textSlot_held hmem).1, hrest⟩

theorem kind_of_patch (hslot : slot ∈ held) (hpatch : relinking.patches[slot.position]? = some patch) :
    patch.kind = slot.kind := by
  obtain ⟨other, hother, hposition, hkind⟩ := hlegible.exists_slot_of_patch hrelinked hpatch
  rw [hlegible.spread.eq_of_position hother hslot hposition] at hkind
  exact hkind.symm

/-- Whatever is written at a slot belongs to the patch at that slot. -/
theorem patch_of_covers {other : Nat} (hslot : slot ∈ held) (hcovers : slot.Covers other)
    (hpatch : relinking.patches[position]? = some patch) (hlow : position ≤ other)
    (hhigh : other < position + patch.kind.width) : slot.position = position := by
  obtain ⟨found, hfound, hposition, hkind⟩ := hlegible.exists_slot_of_patch hrelinked hpatch
  have hcoversFound : found.Covers other := by
    rw [Slot.Covers, Slot.stop, hposition, hkind]
    exact ⟨hlow, hhigh⟩
  rw [hlegible.spread.eq_of_covers hslot hfound hcovers hcoversFound, hposition]

theorem patches_disjoint : relinking.patches.Disjoint := by
  intro position patch position' patch' other hpatch hpatch' hlow hhigh hlow' hhigh'
  obtain ⟨slot, hslot, rfl, hkind⟩ := hlegible.exists_slot_of_patch hrelinked hpatch
  have hcovers : slot.Covers other := by
    rw [Slot.Covers, Slot.stop, hkind]
    exact ⟨hlow, hhigh⟩
  exact hlegible.patch_of_covers hrelinked hslot hcovers hpatch' hlow' hhigh'

theorem narrow_of_patch (hpatch : relinking.patches[position]? = some patch) (hnarrow : patch.kind = .narrowString) :
    patch.index.toNat ≤ 0xFF := by
  rcases hrelinked.origin position patch hpatch with ⟨reference, hmem, hdiffers, rfl, hkind⟩ |
    ⟨reference, hmem, -, -, hkind⟩
  · obtain ⟨found, hfound, hfits, -⟩ := hrelinked.redirected reference hmem hdiffers
    rw [hpatch] at hfound
    cases hfound
    exact hfits hnarrow
  · have hnames := (hlegible.textSlot_held hmem).2
    rw [hkind, hnarrow] at hnames
    cases hnames

/-- The relocated file has at each slot the index that was to be written there. -/
theorem index_relocation (hslot : slot ∈ held) :
    (relinking.relocation hrelinked.extended).index slot = relinking.indexAt slot := by
  cases hpatch : relinking.patches[slot.position]? with
  | none =>
    rw [indexAt, hpatch]
    refine Relocation.index_of_clean fun q hcovers => ?_
    by_contra hwritten
    obtain ⟨position, patch, hfound, hlow, hhigh⟩ := Patches.exists_of_getElem?_bytes hwritten
    rw [← hlegible.patch_of_covers hrelinked hslot hcovers hfound hlow hhigh, hpatch] at hfound
    cases hfound
  | some patch =>
    have hkind := hlegible.kind_of_patch hrelinked hslot hpatch
    have hbytes : ∀ i byte, patch.bytes[i]? = some byte →
        (relinking.relocation hrelinked.extended).written (slot.position + i) = some byte := by
      intro i byte hbyte
      rw [← Patch.byteAt?_add patch slot.position i] at hbyte
      exact Patches.getElem?_bytes (hlegible.patches_disjoint hrelinked) hpatch hbyte
    rw [indexAt, hpatch, Option.map_some, Option.getD_some]
    obtain ⟨kind, index⟩ := patch
    obtain rfl : kind = slot.kind := hkind
    rw [Relocation.index]
    cases hslotKind : slot.kind with
    | narrowString =>
      have hsmall := hlegible.narrow_of_patch hrelinked hpatch hslotKind
      simp only [hslotKind, Patch.bytes] at hbytes
      have hfirst := hbytes 0 _ rfl
      rw [Nat.add_zero] at hfirst
      simp only [hfirst, Option.map_some, Option.getD_some]
      refine UInt16.toNat_inj.mp ?_
      rw [UInt8.toNat_toUInt16, UInt8.toNat_ofNat']
      exact Nat.mod_eq_of_lt (Nat.lt_succ_of_le hsmall)
    | wideString | utf8 =>
      simp only [hslotKind, Patch.bytes, BigEndian.bytes16] at hbytes
      have hfirst := hbytes 0 _ rfl
      rw [Nat.add_zero] at hfirst
      have hsecond := hbytes 1 _ rfl
      simp only [hfirst, hsecond, Option.getD_some]
      exact BigEndian.word16_bytes index

/-! ### Texts -/

theorem shown_of_redirected {stored : String} (hmem : reference ∈ file.stringReferences)
    (hdiffers : reference.wanted? ≠ primaryOf file.stringReferences reference.slot.index)
    (hstored : file.pool.shownText? reference.slot.kind reference.slot.index = some stored) :
    relinking.extension.pool.shownText? reference.slot.kind (relinking.indexAt reference.slot)
      = some (reference.wanted?.getD stored) := by
  obtain ⟨found, hpatch, -, hshows⟩ := hrelinked.redirected reference hmem hdiffers
  rw [indexAt, hpatch, Option.map_some, Option.getD_some]
  exact (hshows stored hstored).shownText? hrelinked.extended.fits (hlegible.stringSlot_held hmem).2.1

theorem shown_of_renamed {text : String} (hmem : reference ∈ file.textReferences)
    (hwanted : reference.wanted? = some text) :
    relinking.extension.pool.shownText? reference.slot.kind (relinking.indexAt reference.slot) = some text := by
  obtain ⟨found, hpatch, hshown⟩ := hrelinked.renamed reference hmem text hwanted
  rw [indexAt, hpatch, Option.map_some, Option.getD_some, ConstantPool.shownText?,
    (hlegible.textSlot_held hmem).2]
  exact hshown

/-! ### The relocation -/

theorem keeps_of_get? (hslot : slot ∈ held) (hpatch : relinking.patches[slot.position]? = none)
    (hsame : relinking.extension.pool.get? slot.index = file.pool.get? slot.index) :
    (relinking.relocation hrelinked.extended).Keeps slot := by
  have hindex : relinking.indexAt slot = slot.index := by rw [indexAt, hpatch]; rfl
  refine .inl ⟨?_, fun text htext => ?_⟩
  · rw [hlegible.index_relocation hrelinked hslot, hindex]
    exact hsame
  · refine text_relocation hrelinked ?_
    rw [hindex]
    exact hrelinked.extended.shownText?_kept hsame htext

theorem keeps_of_shown {stored text : String} (hslot : slot ∈ held)
    (hstored : file.pool.shownText? slot.kind slot.index = some stored)
    (hshown : relinking.extension.pool.shownText? slot.kind (relinking.indexAt slot) = some text) :
    (relinking.relocation hrelinked.extended).Keeps slot := by
  refine .inr ⟨⟨stored, hstored⟩, ?_⟩
  rw [hlegible.index_relocation hrelinked hslot, text_relocation hrelinked hshown]
  exact hshown

theorem keeps_relocation (hslot : slot ∈ held) (hsuits : file.pool.Suits slot) :
    (relinking.relocation hrelinked.extended).Keeps slot := by
  -- A patched slot shows the text asked for. One without a patch still names its constant, which may itself have
  -- been given another text.
  cases hpatch : relinking.patches[slot.position]? with
  | some patch =>
    rcases hrelinked.origin _ _ hpatch with ⟨reference, hmem, hdiffers, hposition, -⟩ |
      ⟨reference, hmem, hwanted, hposition, -⟩
    · obtain rfl : reference.slot = slot :=
        hlegible.spread.eq_of_position (hlegible.stringSlot_held hmem).1 hslot hposition
      obtain ⟨stored, hstored⟩ := hlegible.exists_shown_of_redirected hmem hdiffers
      exact hlegible.keeps_of_shown hrelinked hslot hstored
        (hlegible.shown_of_redirected hrelinked hmem hdiffers hstored)
    · obtain rfl : reference.slot = slot :=
        hlegible.spread.eq_of_position (hlegible.textSlot_held hmem).1 hslot hposition
      obtain ⟨text, htext⟩ := Option.ne_none_iff_exists'.mp hwanted
      obtain ⟨site, hsite, -, rfl⟩ := mem_textReferences.mp hmem
      exact hlegible.keeps_of_shown hrelinked hslot (hlegible.shown site hsite)
        (hlegible.shown_of_renamed hrelinked hmem htext)
  | none =>
    obtain ⟨constant, hget, hkindOnly⟩ := hsuits
    by_cases hstring : ∃ text, constant = .string text
    · obtain ⟨textIndex, rfl⟩ := hstring
      have hkind : slot.kind.namesString = true := by
        cases hslotKind : slot.kind with
        | narrowString | wideString => rfl
        | utf8 =>
          obtain ⟨_, hbytes⟩ := hkindOnly hslotKind
          cases hbytes
      cases hprimary : primaryOf file.stringReferences slot.index with
      | none =>
        refine hlegible.keeps_of_get? hrelinked hslot hpatch ?_
        rw [hget]
        exact get?_pool_of_base ((hrelinked.unclaimed _ hprimary).trans hget)
      | some text =>
        obtain ⟨site, hsite, hsiteKind, hindex, -⟩ := exists_site_of_primaryOf hprimary
        have hstored := hlegible.shown site hsite
        rw [hindex, ConstantPool.shownText?_congr hsiteKind hkind] at hstored
        exact hlegible.keeps_of_shown hrelinked hslot hstored
          (shown_of_unpatched hrelinked hkind hpatch hstored)
    · refine hlegible.keeps_of_get? hrelinked hslot hpatch ?_
      rw [hget]
      exact hrelinked.extended.kept hget fun text htext => hstring ⟨text, htext⟩

theorem fits_relocation : (relinking.relocation hrelinked.extended).Fits file.poolEnd file.bytes.length held where
  confined position _ _ hwritten := by
    obtain ⟨start, patch, hpatch, hlow, hhigh⟩ := Patches.exists_of_getElem?_bytes hwritten
    obtain ⟨slot, hslot, rfl, hkind⟩ := hlegible.exists_slot_of_patch hrelinked hpatch
    refine ⟨slot, hslot, hlow, ?_⟩
    rwa [Slot.stop, hkind]
  keeps _ hslot hsuits := hlegible.keeps_relocation hrelinked hslot hsuits

/-- The relinked file can be read with the extended pool, and declares the same with other texts. -/
theorem exists_reread : ∃ file', ofBytes (file.assemble relinking) = .ok file'
    ∧ file'.pool = relinking.extension.pool
    ∧ file'.declaration = file.declaration.map (relinking.relocation hrelinked.extended).site := by
  rw [assemble_eq hrelinked]
  refine hlegible.reread (relinking.relocation hrelinked.extended) rfl ?_ ?_ (hlegible.fits_relocation hrelinked)
  · exact (Nat.add_sub_cancel' hrelinked.extended.length_toBytes_le).symm
  · exact hrelinked.extended.readable hlegible.readable

theorem ofBytes_assemble : ∃ file', ofBytes (file.assemble relinking) = .ok file'
    ∧ file'.declaration = file.declaration.map (relinking.relocation hrelinked.extended).site := by
  obtain ⟨file', hread, -, hdeclaration⟩ := hlegible.exists_reread hrelinked
  exact ⟨file', hread, hdeclaration⟩

/-! ### The texts of sites -/

/-- A site shows the text that it wants if it was given a constant of its own. -/
theorem text_of_redirected (hsite : site ∈ file.declaration.sites) (hkind : site.slot.kind.namesString = true)
    (hdiffers : site.wanted? ≠ primaryOf file.stringReferences site.slot.index) :
    (relinking.relocation hrelinked.extended).text site.slot = site.text := by
  have hmem : Reference.ofSite site ∈ file.stringReferences :=
    mem_stringReferences.mpr (.inl ⟨site, hsite, hkind, rfl⟩)
  have hshown := hlegible.shown_of_redirected hrelinked hmem hdiffers (hlegible.shown site hsite)
  exact (text_relocation hrelinked hshown).trans site.getD_wanted?

theorem exists_site_of_patch (hsite : site ∈ file.declaration.sites)
    (hpatch : relinking.patches[site.slot.position]? = some patch) :
    ∃ other ∈ file.declaration.sites, other.slot = site.slot
      ∧ (site.slot.kind.namesString = true
          ∧ other.wanted? ≠ primaryOf file.stringReferences site.slot.index
        ∨ site.slot.kind.namesString = false ∧ other.wanted? ≠ none) := by
  rcases hrelinked.origin _ _ hpatch with ⟨reference, hmem, hdiffers, hposition, -⟩ |
    ⟨reference, hmem, hwanted, hposition, -⟩
  · obtain ⟨hheld, hkind, -⟩ := hlegible.stringSlot_held hmem
    have hslot := hlegible.spread.eq_of_position hheld (hlegible.slot_mem_held hsite) hposition
    rw [hslot] at hkind hdiffers
    rcases mem_stringReferences.mp hmem with ⟨other, hother, -, rfl⟩ | ⟨slot, -, rfl, huncovered⟩
    · exact ⟨other, hother, hslot, .inl ⟨hkind, hdiffers⟩⟩
    · exact absurd hposition.symm (huncovered site hsite hkind)
  · obtain ⟨hheld, hkind⟩ := hlegible.textSlot_held hmem
    have hslot := hlegible.spread.eq_of_position hheld (hlegible.slot_mem_held hsite) hposition
    rw [hslot] at hkind
    obtain ⟨other, hother, -, rfl⟩ := mem_textReferences.mp hmem
    exact ⟨other, hother, hslot, .inr ⟨hkind, hwanted⟩⟩

/-- A site shows the text that it wants if all sites at its slot want that text. -/
theorem text_of_agreeing (hsite : site ∈ file.declaration.sites)
    (hagree : ∀ other ∈ file.declaration.sites, other.slot.position = site.slot.position → other.text = site.text) :
    (relinking.relocation hrelinked.extended).text site.slot = site.text := by
  have hstored := hlegible.shown site hsite
  have hwantedOther : ∀ other ∈ file.declaration.sites, other.slot = site.slot →
      other.wanted? = site.wanted? := by
    intro other hother hslot
    have hsame := hlegible.stored_eq_of_index hother hsite (congrArg Slot.kind hslot) (congrArg Slot.index hslot)
    exact (StringSite.wanted?_eq_iff hsame).mpr (hagree other hother (congrArg Slot.position hslot))
  cases hpatch : relinking.patches[site.slot.position]? with
  | some patch =>
    obtain ⟨other, hother, hslot, hdiffers⟩ := hlegible.exists_site_of_patch hrelinked hsite hpatch
    rw [hwantedOther other hother hslot] at hdiffers
    rcases hdiffers with ⟨hkind, hdiffers⟩ | ⟨hkind, hwanted⟩
    · exact hlegible.text_of_redirected hrelinked hsite hkind hdiffers
    · obtain ⟨text, htext⟩ := Option.ne_none_iff_exists'.mp hwanted
      have hmem : Reference.ofSite site ∈ file.textReferences := mem_textReferences.mpr ⟨site, hsite, hkind, rfl⟩
      have hshown := hlegible.shown_of_renamed hrelinked hmem htext
      rw [← site.getD_wanted?, htext]
      exact text_relocation hrelinked hshown
  | none =>
    cases hkind : site.slot.kind.namesString with
    | true =>
      by_cases hdiffers : site.wanted? = primaryOf file.stringReferences site.slot.index
      · have hshown := shown_of_unpatched hrelinked hkind hpatch hstored
        rw [← hdiffers, site.getD_wanted?] at hshown
        exact text_relocation hrelinked hshown
      · exact hlegible.text_of_redirected hrelinked hsite hkind hdiffers
    | false =>
      have hwanted : site.wanted? = none := by
        by_contra hsome
        obtain ⟨text, htext⟩ := Option.ne_none_iff_exists'.mp hsome
        have hmem : Reference.ofSite site ∈ file.textReferences := mem_textReferences.mpr ⟨site, hsite, hkind, rfl⟩
        obtain ⟨found, hfound, -⟩ := hrelinked.renamed _ hmem text htext
        rw [Reference.ofSite, hpatch] at hfound
        cases hfound
      refine text_relocation hrelinked ?_
      rw [indexAt, hpatch, Option.map_none, Option.getD_none, ← site.getD_wanted?, hwanted, Option.getD_none]
      rw [ConstantPool.shownText?, hkind] at hstored ⊢
      exact hrelinked.extended.textAt?_kept hstored

end Legible

/-! ### Bytes -/

variable {file : ClassFile}

theorem toBytes_eq_ok {out : List UInt8} :
    file.toBytes = .ok out
      ↔ file.declaration.isModified = false ∧ out = file.bytes
        ∨ file.declaration.isModified = true
          ∧ ∃ relinking, file.relink = .ok relinking ∧ out = file.assemble relinking := by
  rw [toBytes]
  cases file.declaration.isModified with
  | false => simp [pure, Except.pure, eq_comm]
  | true =>
    cases file.relink with
    | error error => simp [bind, Except.bind]
    | ok relinking => simp [bind, Except.bind, pure, Except.pure, eq_comm]

theorem toBytes_eq_error {error : ClassError} :
    file.toBytes = .error error ↔ file.declaration.isModified = true ∧ file.relink = .error error := by
  rw [toBytes]
  cases file.declaration.isModified with
  | false => simp [pure, Except.pure]
  | true =>
    cases file.relink with
    | error other => simp [bind, Except.bind]
    | ok relinking => simp [bind, Except.bind, pure, Except.pure]

/-- What is written for a file in which some site wants another text. -/
theorem Legible.relinked_of_toBytes {methods : List BootstrapMethod} {held : List Slot} {site : StringSite}
    {out : List UInt8} (hlegible : file.Legible methods held) (hout : file.toBytes = .ok out)
    (hsite : site ∈ file.declaration.sites) (hmodified : site.isModified = true) :
    ∃ relinking, file.Relinked relinking ∧ out = file.assemble relinking := by
  rcases toBytes_eq_ok.mp hout with ⟨hunmodified, -⟩ | ⟨-, relinking, hrelink, hassemble⟩
  · rw [Declaration.isModified, List.any_eq_false] at hunmodified
    exact absurd hmodified (hunmodified site hsite)
  · exact ⟨relinking, settled_of_relink hlegible.relinkable hrelink, hassemble⟩

end ClassFile

end Retoken
