import Retoken.Proofs.Relocation.ClassFile

/-!
# Files with other texts at their sites

A freshly read file has at each site the text that its pool shows there. This is what rereading it without any change says: the declaration comes out as before, whatever text is put at a slot that shows none. Giving other texts to the sites changes nothing else about the file, so what is proved here for edited files holds of all that relinking has to deal with.
-/

namespace Retoken

def StringSite.reverted (site : StringSite) : StringSite :=
  { site with text := site.stored }

namespace Relocation

variable {relocation : Relocation} {slot : Slot}

theorem index_of_clean (hclean : ∀ q, slot.Covers q → relocation.written q = none) :
    relocation.index slot = slot.index := by
  have hfirst := hclean slot.position slot.covers_position
  obtain ⟨kind, position, index⟩ := slot
  rw [Relocation.index]
  cases kind with
  | narrowString => simp only [hfirst, Option.map_none, Option.getD_none]
  | wideString | utf8 =>
    have hsecond := hclean (position + 1) ⟨Nat.le_succ _, Nat.lt_succ_self _⟩
    simp only at hfirst
    simp only [hfirst, hsecond, Option.getD_none]
    exact BigEndian.word16_bytes index

/-- Nothing changes. A slot that shows no text is given an arbitrary one. -/
def still (pool : ConstantPool) (arbitrary : String) : Relocation where
  source := pool
  target := pool
  shift := 0
  written _ := none
  text slot := (pool.shownText? slot.kind slot.index).getD arbitrary
  kept hget _ := hget

theorem fits_still (pool : ConstantPool) (arbitrary : String) (low high : Nat) (slots : List Slot) :
    (still pool arbitrary).Fits low high slots where
  confined _ _ _ hwritten := absurd rfl hwritten
  keeps slot _ _ := by
    have hindex : (still pool arbitrary).index slot = slot.index := index_of_clean fun _ _ => rfl
    refine .inl ⟨by rw [hindex]; rfl, fun text htext => ?_⟩
    change pool.shownText? slot.kind slot.index = some text at htext
    change (pool.shownText? slot.kind slot.index).getD arbitrary = text
    rw [htext, Option.getD_some]

end Relocation

namespace ClassFile

variable {file : ClassFile} {methods : List BootstrapMethod} {held : List Slot}
  {edited : Declaration StringSite} {site : StringSite}

theorem Layout.site_eq (hlayout : file.Layout methods held) (hfile : ofBytes file.bytes = .ok file)
    (arbitrary : String) (hsite : site ∈ file.declaration.sites) :
    (Relocation.still file.pool arbitrary).site site = site := by
  have hoverwrite : (Relocation.still file.pool arbitrary).overwrite file.poolEnd
      (file.bytes.drop file.poolEnd) = file.bytes.drop file.poolEnd :=
    Relocation.overwrite_eq_self fun _ _ _ => rfl
  obtain ⟨file', hreread, -, hdeclaration⟩ := hlayout.reread (.still file.pool arbitrary) rfl rfl hlayout.readable
    (Relocation.fits_still _ _ _ _ _)
  rw [hoverwrite, List.append_assoc] at hreread
  change ofBytes (file.bytes.take poolStart ++ (file.pool.toBytes ++ file.bytes.drop file.poolEnd)) = _ at hreread
  rw [← hlayout.split, hfile] at hreread
  cases hreread
  have hsites := congrArg Declaration.sites hdeclaration
  rw [Declaration.sites_map] at hsites
  have hid : file.declaration.sites.map id
      = file.declaration.sites.map (Relocation.still file.pool arbitrary).site := by
    rw [List.map_id]
    exact hsites
  exact (List.map_inj_left.mp hid site hsite).symm

theorem Layout.shown (hlayout : file.Layout methods held) (hfile : ofBytes file.bytes = .ok file)
    (hsite : site ∈ file.declaration.sites) :
    file.pool.shownText? site.slot.kind site.slot.index = some site.stored := by
  have hempty := congrArg StringSite.stored (hlayout.site_eq hfile "" hsite)
  have hother := congrArg StringSite.stored (hlayout.site_eq hfile "other" hsite)
  cases hshown : file.pool.shownText? site.slot.kind site.slot.index with
  | some text =>
    simp only [Relocation.site, Relocation.still, StringSite.unedited, hshown, Option.getD_some] at hempty
    rw [hempty]
  | none =>
    simp only [Relocation.site, Relocation.still, StringSite.unedited, hshown, Option.getD_none] at hempty hother
    rw [← hother] at hempty
    exact absurd hempty (by decide)

theorem reverted_of_mem {bytes : List UInt8} (hfile : ofBytes bytes = .ok file)
    (hsite : site ∈ file.declaration.sites) : site.reverted = site := by
  obtain ⟨rfl, methods, held, hlayout⟩ := exists_layout hfile
  rw [← hlayout.site_eq hfile "" hsite]
  rfl

theorem map_reverted {bytes : List UInt8} (hfile : ofBytes bytes = .ok file) :
    file.declaration.map StringSite.reverted = file.declaration := by
  have hreverted : ∀ site ∈ file.declaration.sites, site.reverted = id site :=
    fun site hsite => reverted_of_mem hfile hsite
  rw [Declaration.map_congr hreverted, Declaration.map_id]

structure Legible (file : ClassFile) (methods : List BootstrapMethod) (held : List Slot) : Prop
    extends file.Layout methods held where
  shown : ∀ site ∈ file.declaration.sites,
    file.pool.shownText? site.slot.kind site.slot.index = some site.stored

/-- Sites of one kind that name one constant show one text. -/
theorem Legible.stored_eq_of_index (hlegible : file.Legible methods held) {other : StringSite}
    (hsite : site ∈ file.declaration.sites) (hother : other ∈ file.declaration.sites)
    (hkind : site.slot.kind = other.slot.kind) (hindex : site.slot.index = other.slot.index) :
    site.stored = other.stored := by
  have hshown := hlegible.shown site hsite
  rw [hkind, hindex, hlegible.shown other hother] at hshown
  exact (Option.some.inj hshown).symm

theorem exists_legible {bytes : List UInt8} (hfile : ofBytes bytes = .ok file)
    (hedited : edited.map StringSite.reverted = file.declaration) :
    file.bytes = bytes ∧ ∃ methods held, ({ file with declaration := edited } : ClassFile).Legible methods held := by
  obtain ⟨hbytes, methods, held, hlayout⟩ := exists_layout hfile
  rw [← hbytes] at hfile
  have hslots : ∀ sites : List StringSite, (sites.map StringSite.reverted).map (·.slot) = sites.map (·.slot) := by
    intro sites
    rw [List.map_map]
    rfl
  refine ⟨hbytes, methods, held, ?_, ?_⟩
  · refine ⟨hlayout.spread, ?_, ?_, hlayout.strings, hlayout.readable, hlayout.split, ?_⟩
    · have hown := hlayout.slots
      rw [← hedited, Declaration.ownSites_map, hslots] at hown
      exact hown
    · intro call hcall
      have hreverted : (call.1, call.2.map StringSite.reverted) ∈ file.declaration.calls := by
        rw [← hedited, Declaration.calls_map]
        exact List.mem_map_of_mem (f := fun call => (call.1, call.2.map StringSite.reverted)) hcall
      obtain ⟨method, hmethod, hhandle, harguments⟩ := hlayout.calls _ hreverted
      exact ⟨method, hmethod, hhandle, fun site hsite => harguments site.reverted (List.mem_map_of_mem hsite)⟩
    · intro relocation hsource hlength htarget hfits
      obtain ⟨file', hreread, hpool, hdeclaration⟩ := hlayout.reread relocation hsource hlength htarget hfits
      rw [← hedited, Declaration.map_map] at hdeclaration
      exact ⟨file', hreread, hpool, hdeclaration⟩
  · intro site hsite
    have hreverted : site.reverted ∈ file.declaration.sites := by
      rw [← hedited, Declaration.sites_map]
      exact List.mem_map_of_mem hsite
    have hshown := hlayout.shown hfile hreverted
    exact hshown

end ClassFile

end Retoken
