import Retoken.Proofs.PoolExtension.Bytes
import Retoken.Proofs.RoundTrip

/-!
# What writing leaves as it was

The bytes written for an edited file are those it was read from with some constants put behind its pool. A byte of the pool differs only in the index in a string constant that a load of one byte names whose text was changed. A byte behind the pool differs only at a slot that would not show the text wanted there if it kept its index.
-/

namespace Retoken

open BigEndian PoolExtension

def Reference.text? (pool : ConstantPool) (reference : Reference) : Option String :=
  reference.wanted?.or (pool.shownText? reference.slot.kind reference.slot.index)

namespace ClassFile

open Relinking

def entryStart (file : ClassFile) (index : UInt16) : Nat :=
  poolStart + 2 + file.pool.entryOffset index.toNat

/-- Whether a byte of the pool is part of the index in a string constant that a load of one byte names whose text was changed. -/
def Repointed (file : ClassFile) (position : Nat) : Prop :=
  ∃ site ∈ file.declaration.sites, site.slot.kind = .narrowString ∧ site.isModified = true
    ∧ (∃ text, file.pool.get? site.slot.index = some (.string text))
    ∧ (position = file.entryStart site.slot.index + 1 ∨ position = file.entryStart site.slot.index + 2)

/-- Whether in a file with the given pool a slot would not show the text wanted there if it kept its index. -/
def Misled (file : ClassFile) (pool : ConstantPool) (slot : Slot) : Prop :=
  ∃ reference ∈ file.stringReferences ++ file.textReferences, reference.slot = slot
    ∧ pool.shownText? slot.kind slot.index ≠ reference.text? file.pool

/-- How the bytes written for a file, which are read with the given pool, differ from those it was read from. -/
structure Frame (file : ClassFile) (out : List UInt8) (pool : ConstantPool) (added : List Constant) : Prop where
  textual : ∀ constant ∈ added, (∃ content, constant = .utf8 content) ∨ ∃ text, constant = .string text
  length_eq : out.length = file.bytes.length + (added.flatMap Constant.toBytes).length
  header : out.take poolStart = file.bytes.take poolStart
  countBefore : (file.bytes.drop poolStart).take 2 = bytes16 (UInt16.ofNat file.pool.slots.size)
  count : (out.drop poolStart).take 2 = bytes16 (UInt16.ofNat (file.pool.slots.size + added.length))
  count_le : file.pool.slots.size + added.length ≤ maxSlots
  inserted : (out.drop file.poolEnd).take (out.length - file.bytes.length) = added.flatMap Constant.toBytes
  inPool : ∀ position, poolStart + 2 ≤ position → position < file.poolEnd → ¬ file.Repointed position →
    out[position]? = file.bytes[position]?
  behind : ∀ position, file.poolEnd ≤ position → (∀ slot, slot.Covers position → ¬ file.Misled pool slot) →
    out[position + (out.length - file.bytes.length)]? = file.bytes[position]?
  within : ∀ slot, file.Misled pool slot → file.poolEnd ≤ slot.position ∧ slot.stop ≤ file.bytes.length
  apart : ∀ slot other, file.Misled pool slot → file.Misled pool other →
    ∀ position, slot.Covers position → other.Covers position → slot = other
  /-- Constants that are not strings are as they were. -/
  constants : ∀ index constant, file.pool.get? index = some constant → (∀ text, constant ≠ .string text) →
    (out.drop (file.entryStart index)).take constant.toBytes.length = constant.toBytes
  /-- Annotations whose texts were not changed are as they were. -/
  annotations : ∀ site ∈ file.declaration.sites, site.slot.kind = .utf8 → site.isModified = false →
    ∀ position, site.slot.Covers position →
      out[position + (out.length - file.bytes.length)]? = file.bytes[position]?

variable {file : ClassFile} {bytes out : List UInt8} {edited : Declaration StringSite}

/-! ### Bytes around a pool -/

section

variable {head rest : List UInt8} {pool : ConstantPool} (hhead : head.length = poolStart)

include hhead

theorem take_count : ((head ++ (pool.toBytes ++ rest)).drop poolStart).take 2
    = bytes16 (UInt16.ofNat pool.slots.size) := by
  rw [← hhead, List.drop_left, ConstantPool.toBytes, List.append_assoc]
  exact List.take_left' (length_bytes16 _)

theorem drop_entries (offset : Nat) : (head ++ (pool.toBytes ++ rest)).drop (poolStart + 2 + offset)
    = (ConstantPool.entriesToBytes pool.slots.toList ++ rest).drop offset := by
  rw [← List.drop_drop, ← List.drop_drop, ← hhead, List.drop_left, ConstantPool.toBytes, List.append_assoc,
    List.drop_left' (length_bytes16 _)]

theorem getElem?_entries {offset : Nat}
    (hlt : offset < (ConstantPool.entriesToBytes pool.slots.toList).length) :
    (head ++ (pool.toBytes ++ rest))[poolStart + 2 + offset]?
      = (ConstantPool.entriesToBytes pool.slots.toList)[offset]? := by
  rw [← List.head?_drop, drop_entries hhead, List.head?_drop, List.getElem?_append_left hlt]

theorem take_entry {index : UInt16} {constant : Constant} (hget : pool.get? index = some constant) :
    ((head ++ (pool.toBytes ++ rest)).drop (poolStart + 2 + pool.entryOffset index.toNat)).take constant.toBytes.length
      = constant.toBytes := by
  have hentry := ConstantPool.take_drop_entry hget
  have hlength := congrArg List.length hentry
  rw [List.length_take, List.length_drop] at hlength
  have hpositive : 0 < constant.toBytes.length := Nat.succ_pos _
  rw [drop_entries hhead, List.drop_append_of_le_length (by omega), List.take_append_of_le_length, hentry]
  rw [List.length_drop]
  omega

theorem getElem?_behind (position : Nat) :
    (head ++ (pool.toBytes ++ rest))[poolStart + pool.toBytes.length + position]? = rest[position]? := by
  rw [← hhead, ← List.append_assoc, ← List.length_append, List.getElem?_append_right (Nat.le_add_right _ _),
    Nat.add_sub_cancel_left]

end

namespace Legible

variable {methods : List BootstrapMethod} {held : List Slot} {relinking : Relinking} {reference : Reference}
  {slot : Slot} (hlegible : file.Legible methods held) (hrelinked : file.Relinked relinking)

include hlegible

theorem length_header : (file.bytes.take poolStart).length = poolStart := by
  have hle := hlegible.spread.le
  rw [poolEnd] at hle
  rw [List.length_take, Nat.min_eq_left]
  omega

theorem primary_ne_shown {text stored : String} (hkind : slot.kind.namesString = true)
    (hprimary : primaryOf file.stringReferences slot.index = some text)
    (hstored : file.pool.shownText? slot.kind slot.index = some stored) : text ≠ stored := by
  obtain ⟨site, hsite, hsiteKind, hindex, hwanted⟩ := exists_site_of_primaryOf hprimary
  have hshown := hlegible.shown site hsite
  rw [hindex, ConstantPool.shownText?_congr hsiteKind hkind, hstored] at hshown
  rw [Option.some.inj hshown]
  exact StringSite.ne_of_wanted? hwanted

theorem wanted_ne_shown {text stored : String} (hmem : reference ∈ file.stringReferences ++ file.textReferences)
    (hwanted : reference.wanted? = some text)
    (hstored : file.pool.shownText? reference.slot.kind reference.slot.index = some stored) : text ≠ stored := by
  have hsite : ∃ site ∈ file.declaration.sites, .ofSite site = reference := by
    rcases List.mem_append.mp hmem with hstring | htext
    · rcases mem_stringReferences.mp hstring with ⟨site, hsite, -, heq⟩ | ⟨slot, -, rfl, -⟩
      · exact ⟨site, hsite, heq⟩
      · cases hwanted
    · obtain ⟨site, hsite, -, heq⟩ := mem_textReferences.mp htext
      exact ⟨site, hsite, heq⟩
  obtain ⟨site, hsite, rfl⟩ := hsite
  have hshown := hlegible.shown site hsite
  obtain rfl : site.stored = stored := Option.some.inj (hshown.symm.trans hstored)
  exact StringSite.ne_of_wanted? hwanted

include hrelinked

/-! ### The pool -/

/-- A byte of the original pool that was changed belongs to a string constant that a load of one byte names. -/
theorem repointed_of_differing {offset : Nat}
    (hdiffers : (ConstantPool.entriesToBytes relinking.extension.base.slots.toList)[offset]?
      ≠ (ConstantPool.entriesToBytes file.pool.slots.toList)[offset]?) :
    file.Repointed (poolStart + 2 + offset) := by
  obtain ⟨index, hne, hoffset⟩ := hrelinked.extended.exists_repointed hdiffers
  have hclaimed : primaryOf file.stringReferences index ≠ none := fun hnone => hne (hrelinked.unclaimed index hnone)
  obtain ⟨text, htext⟩ := Option.ne_none_iff_exists'.mp hclaimed
  obtain ⟨site, hsite, hnarrow, hindex, hwanted⟩ := exists_narrow_of_primaryOf htext
  have hkind : site.slot.kind.namesString = true := by
    rw [hnarrow]
    rfl
  obtain ⟨textIndex, hstring, -⟩ := (ConstantPool.shownText?_string hkind).mp (hlegible.shown site hsite)
  refine ⟨site, hsite, hnarrow, (StringSite.wanted?_eq_some hwanted).1, ⟨textIndex, hstring⟩, ?_⟩
  rw [entryStart, hindex]
  omega

/-! ### Slots -/

/-- A slot is written only if it would show another text than the one wanted there. -/
theorem exists_misled_of_patch {position : Nat} {patch : Patch}
    (hpatch : relinking.patches[position]? = some patch) :
    ∃ slot, slot.position = position ∧ slot.kind = patch.kind ∧ file.Misled relinking.extension.pool slot := by
  rcases hrelinked.origin position patch hpatch with ⟨reference, hmem, hdiffers, hposition, hkind⟩ |
    ⟨reference, hmem, hwanted, hposition, hkind⟩
  · have hmemAll := List.mem_append_left file.textReferences hmem
    refine ⟨reference.slot, hposition, hkind, reference, hmemAll, rfl, ?_⟩
    obtain ⟨-, hnames, -⟩ := hlegible.stringSlot_held hmem
    obtain ⟨stored, hstored⟩ := hlegible.exists_shown_of_redirected hmem hdiffers
    rw [shown_in_extension hrelinked hnames hstored, Reference.text?, hstored]
    intro hsame
    -- What the constant takes and what the reference wants are not the same, and neither is the stored text.
    cases hprimary : primaryOf file.stringReferences reference.slot.index with
    | none =>
      rw [hprimary] at hdiffers hsame
      obtain ⟨text, htext⟩ := Option.ne_none_iff_exists'.mp hdiffers
      rw [htext] at hsame
      exact hlegible.wanted_ne_shown hmemAll htext hstored (Option.some.inj hsame).symm
    | some taken =>
      rw [hprimary] at hdiffers hsame
      cases hwanted : reference.wanted? with
      | none =>
        rw [hwanted] at hsame
        exact hlegible.primary_ne_shown hnames hprimary hstored (Option.some.inj hsame)
      | some text =>
        rw [hwanted] at hsame hdiffers
        exact hdiffers hsame.symm
  · have hmemAll := List.mem_append_right file.stringReferences hmem
    refine ⟨reference.slot, hposition, hkind, reference, hmemAll, rfl, ?_⟩
    obtain ⟨text, htext⟩ := Option.ne_none_iff_exists'.mp hwanted
    obtain ⟨site, hsite, hnames, rfl⟩ := mem_textReferences.mp hmem
    have hstored : file.pool.textAt? site.slot.index = some site.stored := by
      have hshown := hlegible.shown site hsite
      rwa [ConstantPool.shownText?, hnames] at hshown
    rw [Reference.text?, htext]
    intro hsame
    have hkept := hrelinked.extended.textAt?_kept hstored
    have hshown : relinking.extension.pool.shownText? site.slot.kind site.slot.index = some site.stored := by
      rwa [ConstantPool.shownText?, hnames]
    exact hlegible.wanted_ne_shown hmemAll htext (hlegible.shown site hsite)
      (Option.some.inj (hsame.symm.trans hshown))

theorem written_eq_none {position : Nat}
    (hclear : ∀ slot, slot.Covers position → ¬ file.Misled relinking.extension.pool slot) :
    (relinking.relocation hrelinked.extended).written position = none := by
  by_contra hwritten
  obtain ⟨start, patch, hpatch, hlow, hhigh⟩ := Patches.exists_of_getElem?_bytes hwritten
  obtain ⟨slot, rfl, hkind, hmisled⟩ := hlegible.exists_misled_of_patch hrelinked hpatch
  refine hclear slot ⟨hlow, ?_⟩ hmisled
  rwa [Slot.stop, hkind]

/-! ### The whole file -/

omit hlegible in
theorem assemble_split : file.assemble relinking
    = file.bytes.take poolStart ++ (relinking.extension.pool.toBytes
      ++ (relinking.relocation hrelinked.extended).overwrite file.poolEnd (file.bytes.drop file.poolEnd)) := by
  rw [assemble_eq hrelinked, List.append_assoc]

theorem length_assemble : (file.assemble relinking).length
    = file.bytes.length + (relinking.extension.added.toList.flatMap Constant.toBytes).length := by
  have hle := hlegible.spread.le
  rw [assemble_split hrelinked, List.length_append, List.length_append, hlegible.length_header,
    Relocation.length_overwrite, List.length_drop, hrelinked.extended.length_toBytes]
  rw [poolEnd] at hle ⊢
  omega

theorem getElem?_assemble_inPool {position : Nat} (hlow : poolStart + 2 ≤ position) (hhigh : position < file.poolEnd)
    (hkept : ¬ file.Repointed position) : (file.assemble relinking)[position]? = file.bytes[position]? := by
  obtain ⟨offset, rfl⟩ := Nat.exists_eq_add_of_le hlow
  have hlt : offset < (ConstantPool.entriesToBytes file.pool.slots.toList).length := by
    rw [poolEnd, ConstantPool.toBytes, List.length_append, length_bytes16] at hhigh
    omega
  have hltBase : offset < (ConstantPool.entriesToBytes relinking.extension.base.slots.toList).length := by
    rwa [ConstantPool.length_entriesToBytes_same hrelinked.extended.sameSlots]
  have hnew : (file.assemble relinking)[poolStart + 2 + offset]?
      = (ConstantPool.entriesToBytes relinking.extension.base.slots.toList)[offset]? := by
    rw [assemble_split hrelinked, getElem?_entries hlegible.length_header, entriesToBytes_pool,
      List.getElem?_append_left hltBase]
    rw [entriesToBytes_pool, List.length_append]
    omega
  have hold : file.bytes[poolStart + 2 + offset]?
      = (ConstantPool.entriesToBytes file.pool.slots.toList)[offset]? := by
    rw [hlegible.split, getElem?_entries hlegible.length_header hlt]
  rw [hnew, hold]
  by_contra hdiffers
  exact hkept (hlegible.repointed_of_differing hrelinked hdiffers)

/-- A byte behind the pool is found as far behind the new pool, unless another one is written there. -/
theorem getElem?_assemble_moved {position : Nat} (hlow : file.poolEnd ≤ position) :
    (file.assemble relinking)[position + (relinking.extension.added.toList.flatMap Constant.toBytes).length]?
      = file.bytes[position]?.map ((relinking.relocation hrelinked.extended).written position).getD := by
  obtain ⟨offset, rfl⟩ := Nat.exists_eq_add_of_le hlow
  have hmoved : file.poolEnd + offset + (relinking.extension.added.toList.flatMap Constant.toBytes).length
      = poolStart + relinking.extension.pool.toBytes.length + offset := by
    rw [poolEnd, hrelinked.extended.length_toBytes]
    omega
  rw [hmoved, assemble_split hrelinked, getElem?_behind hlegible.length_header, Relocation.overwrite,
    List.getElem?_mapIdx, List.getElem?_drop]

theorem getElem?_assemble_behind {position : Nat} (hlow : file.poolEnd ≤ position)
    (hclear : ∀ slot, slot.Covers position → ¬ file.Misled relinking.extension.pool slot) :
    (file.assemble relinking)[position + (relinking.extension.added.toList.flatMap Constant.toBytes).length]?
      = file.bytes[position]? := by
  rw [hlegible.getElem?_assemble_moved hrelinked hlow, hlegible.written_eq_none hrelinked hclear]
  exact Option.map_id'

omit hrelinked in
theorem mem_held_of_misled {pool : ConstantPool} (hmisled : file.Misled pool slot) : slot ∈ held := by
  obtain ⟨reference, hmem, rfl, -⟩ := hmisled
  rcases List.mem_append.mp hmem with hstring | htext
  · exact (hlegible.stringSlot_held hstring).1
  · exact (hlegible.textSlot_held htext).1

/-- An annotation whose text was not changed shows it by its index. -/
theorem not_misled_of_annotation {site : StringSite} (hsite : site ∈ file.declaration.sites)
    (hkind : site.slot.kind = .utf8) (hunmodified : site.isModified = false) {position : Nat}
    (hcovers : site.slot.Covers position) (slot : Slot) (hcoversSlot : slot.Covers position) :
    ¬ file.Misled relinking.extension.pool slot := by
  intro hmisled
  have hslot := hlegible.spread.eq_of_covers (hlegible.mem_held_of_misled hmisled) (hlegible.slot_mem_held hsite)
    hcoversSlot hcovers
  obtain ⟨reference, hmem, rfl, hdiffers⟩ := hmisled
  have hnames : site.slot.kind.namesString = false := by
    rw [hkind]
    rfl
  have htext : reference ∈ file.textReferences := by
    rcases List.mem_append.mp hmem with hstring | htext
    · obtain ⟨-, hnamesString, -⟩ := hlegible.stringSlot_held hstring
      rw [hslot, hnames] at hnamesString
      cases hnamesString
    · exact htext
  obtain ⟨other, hother, -, rfl⟩ := mem_textReferences.mp htext
  have hown := hlegible.mem_ownSites_of_kind hsite (by rw [hkind]; decide)
  obtain rfl := hlegible.eq_of_position_own hown hother (congrArg Slot.position hslot.symm)
  have hshown := hlegible.shown site hsite
  rw [Reference.text?, Reference.ofSite, StringSite.wanted?, hunmodified] at hdiffers
  refine hdiffers (Eq.trans ?_ hshown.symm)
  rw [ConstantPool.shownText?, hnames] at hshown ⊢
  exact hrelinked.extended.textAt?_kept hshown

theorem frame :
    file.Frame (file.assemble relinking) relinking.extension.pool relinking.extension.added.toList where
  textual constant hconstant := by
    rcases hrelinked.extended.added constant (Array.mem_toList_iff.mp hconstant) with
      ⟨content, hcontent, -⟩ | ⟨text, htext, -⟩
    · exact .inl ⟨content, hcontent⟩
    · exact .inr ⟨text, htext⟩
  length_eq := hlegible.length_assemble hrelinked
  header := by
    rw [assemble_split hrelinked]
    exact List.take_left' hlegible.length_header
  countBefore := by
    rw [hlegible.split]
    exact take_count hlegible.length_header
  count := by
    have hsize : relinking.extension.pool.slots.size
        = file.pool.slots.size + relinking.extension.added.toList.length := by
      rw [PoolExtension.pool, Array.size_append, Array.size_map, hrelinked.extended.size_eq, Array.length_toList]
    rw [assemble_split hrelinked, take_count hlegible.length_header, hsize]
  count_le := by
    have hfits := hrelinked.extended.fits
    rwa [slotCount, hrelinked.extended.size_eq] at hfits
  inserted := by
    have hend : file.poolEnd
        = poolStart + 2 + (ConstantPool.entriesToBytes relinking.extension.base.slots.toList).length := by
      rw [poolEnd, ConstantPool.toBytes, List.length_append, length_bytes16, ← Nat.add_assoc,
        ConstantPool.length_entriesToBytes_same hrelinked.extended.sameSlots]
    rw [hlegible.length_assemble hrelinked, Nat.add_sub_cancel_left, assemble_split hrelinked, hend,
      drop_entries hlegible.length_header, entriesToBytes_pool, List.append_assoc, List.drop_left, List.take_left]
  inPool position hlow hhigh hkept := hlegible.getElem?_assemble_inPool hrelinked hlow hhigh hkept
  behind position hlow hclear := by
    rw [hlegible.length_assemble hrelinked, Nat.add_sub_cancel_left]
    exact hlegible.getElem?_assemble_behind hrelinked hlow hclear
  within slot hmisled := hlegible.spread.bounds (hlegible.mem_held_of_misled hmisled)
  apart slot other hmisled hmisledOther position hcovers hcoversOther :=
    hlegible.spread.eq_of_covers (hlegible.mem_held_of_misled hmisled) (hlegible.mem_held_of_misled hmisledOther)
      hcovers hcoversOther
  constants index constant hget hother := by
    have hindex := ConstantPool.lt_of_get? hget
    rw [Array.length_toList] at hindex
    rw [entryStart, ← hrelinked.extended.entryOffset_eq (Nat.le_of_lt hindex), assemble_split hrelinked]
    exact take_entry hlegible.length_header (hrelinked.extended.kept hget hother)
  annotations site hsite hkind hunmodified position hcovers := by
    have hbounds := hlegible.spread.bounds (hlegible.slot_mem_held hsite)
    rw [hlegible.length_assemble hrelinked, Nat.add_sub_cancel_left]
    exact hlegible.getElem?_assemble_behind hrelinked (Nat.le_trans hbounds.1 hcovers.1)
      (hlegible.not_misled_of_annotation hrelinked hsite hkind hunmodified hcovers)

end Legible

/-- Writing an edited file adds constants behind the pool, and changes the file nowhere but in the indices of those slots and string constants that would lead to another text than the one wanted. -/
theorem toBytes_frame (hfile : ofBytes bytes = .ok file)
    (hedited : edited.map StringSite.reverted = file.declaration) (hmodified : edited.isModified = true)
    (hout : ({ file with declaration := edited } : ClassFile).toBytes = .ok out) :
    file.bytes = bytes ∧ ∃ (file' : ClassFile) (added : List Constant), ofBytes out = .ok file'
      ∧ file'.declaration.map (fun _ => ()) = edited.map (fun _ => ())
      ∧ ({ file with declaration := edited } : ClassFile).Frame out file'.pool added := by
  obtain ⟨hbytes, methods, held, hlegible⟩ := exists_legible hfile hedited
  rcases toBytes_eq_ok.mp hout with ⟨hunmodified, -⟩ | ⟨-, relinking, hrelink, rfl⟩
  · rw [hmodified] at hunmodified
    cases hunmodified
  · have hrelinked := settled_of_relink hlegible.relinkable hrelink
    obtain ⟨file', hread, hpool, hdeclaration⟩ := hlegible.exists_reread hrelinked
    refine ⟨hbytes, file', relinking.extension.added.toList, hread, ?_, ?_⟩
    · rw [hdeclaration, Declaration.map_map]
    · rw [hpool]
      exact hlegible.frame hrelinked

/-- A load of one byte and two calls that share its string constant are given different texts: the constant is made to name the one, and a constant is added for the other. -/
theorem toBytes_frame_sharedClass : ∃ (file file' : ClassFile) (edited : Declaration StringSite) (out : List UInt8)
    (added : List Constant), ofBytes sharedClass = .ok file ∧ edited.sites.map (·.text) = ["y", "z", "z"]
      ∧ ({ file with declaration := edited } : ClassFile).toBytes = .ok out
      ∧ out.length = sharedClass.length + 11 ∧ ofBytes out = .ok file'
      ∧ ({ file with declaration := edited } : ClassFile).Frame out file'.pool added := by
  have hrun : ((ofBytes sharedClass).bind fun file =>
      (({ file with declaration := file.declaration.map sharedEdit } : ClassFile).toBytes).map fun out =>
        ((file.declaration.map sharedEdit).sites.map (·.text),
          (file.declaration.map sharedEdit).isModified, out.length))
      = .ok (["y", "z", "z"], true, sharedClass.length + 11) := by
    decide +kernel
  obtain ⟨file, hfile, hrun⟩ := except_bind_eq_ok.mp hrun
  obtain ⟨out, hout, hfound⟩ := except_map_eq_ok.mp hrun
  obtain ⟨htexts, hfound⟩ := Prod.mk.inj hfound
  obtain ⟨hmodified, hlength⟩ := Prod.mk.inj hfound
  obtain ⟨-, file', added, hread, -, hframe⟩ := toBytes_frame hfile (reverted_sharedEdit hfile) hmodified hout
  exact ⟨file, file', _, out, added, hfile, htexts, hout, hlength, hread, hframe⟩

end ClassFile

end Retoken
