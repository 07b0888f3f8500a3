import Retoken.Proofs.Format.Layout
import Retoken.Proofs.Relocation.Annotations

/-!
# Annotations and their layouts

An annotation that is read has the layout that `ElementLayout` and `AnnotationLayout` give, and its sites are those for the slots that the layout lists. The induction is on the levels that are left, as in the reader: the values inside one value are undone if each of the readers for them is.
-/

namespace Retoken

open BigEndian Reader

variable {pool : ConstantPool} {start stop : Cursor}

theorem indexed_spells {α : Type} {look : UInt16 → Except ClassError α} {a : α}
    (hread : indexed look start = .ok (a, stop)) : ∃ index, start.Spells (bytes16 index) stop ∧ look index = .ok a := by
  obtain ⟨index, hindex, hlook⟩ := indexed_eq_ok.mp hread
  exact ⟨index, u16_eq_ok.mp hindex, hlook⟩

namespace ElementLayout

def memberToBytes (member : UInt16 × ElementLayout) : List UInt8 :=
  bytes16 member.1 ++ member.2.toBytes

theorem itemsToBytes_eq (items : List ElementLayout) : itemsToBytes items = items.flatMap toBytes := by
  induction items with
  | nil => rfl
  | cons item items ih => rw [itemsToBytes, ih, List.flatMap_cons]

theorem membersToBytes_eq (members : List (UInt16 × ElementLayout)) :
    membersToBytes members = members.flatMap memberToBytes := by
  induction members with
  | nil => rfl
  | cons member members ih => rw [membersToBytes, ih, List.flatMap_cons, memberToBytes]

theorem itemsSlots_eq (position : Nat) (items : List ElementLayout) :
    itemsSlots position items = inRow toBytes slots position items := by
  induction items generalizing position with
  | nil => rfl
  | cons item items ih => rw [itemsSlots, ih, inRow]

theorem membersSlots_eq (position : Nat) (members : List (UInt16 × ElementLayout)) :
    membersSlots position members
      = inRow memberToBytes (fun position member => slots (position + 2) member.2) position members := by
  induction members generalizing position with
  | nil => rfl
  | cons member members ih =>
    rw [membersSlots, ih, inRow, memberToBytes, List.length_append, length_bytes16, Nat.add_assoc]

theorem tagByte_ofNat (tag : UInt8) : tagByte (Char.ofNat tag.toNat) = tag := by
  have hlt := tag.toNat_lt
  have hvalid : tag.toNat.isValidChar := .inl (by omega)
  rw [tagByte, Char.ofNat, dif_pos hvalid]
  exact UInt8.ofNat_toNat

/-- A value with its layout: the sites in it are those for the slots. -/
def Describes (pool : ConstantPool) (position : Nat) (layout : ElementLayout)
    (value : ElementValue StringSite) : Prop :=
  layout.WellFormed ∧ value.sites = (layout.slots position).filterMap pool.siteAt?

end ElementLayout

namespace ElementValue

open ElementLayout

theorem readNumber_undoes {tag : UInt8} {value : ElementValue StringSite}
    (hread : readNumber pool tag start = .ok (value, stop)) :
    ∃ index, start.Spells (bytes16 index) stop ∧ value.sites = [] := by
  obtain ⟨index, _, _, hindex, -, -, rfl⟩ := readNumber_eq_ok.mp hread
  exact ⟨index, u16_eq_ok.mp hindex, rfl⟩

theorem sites_ofSite? (site? : Option StringSite) : (ofSite? site?).sites = site?.toList := by
  cases site? <;> rfl

theorem readString_undoes {value : ElementValue StringSite} (hread : readString pool start = .ok (value, stop)) :
    ∃ index, start.Spells (bytes16 index) stop
      ∧ value.sites = [(⟨.utf8, start.position, index⟩ : Slot)].filterMap pool.siteAt? := by
  obtain ⟨index, bytes, hindex, hbytes, rfl⟩ := readString_eq_ok.mp hread
  refine ⟨index, u16_eq_ok.mp hindex, ?_⟩
  have htext : pool.textAt? index = Text.ModifiedUtf8.toString? bytes := by
    rw [ConstantPool.textAt?, ConstantPool.utf8Bytes_eq_ok.mp hbytes]
  have hsite : pool.siteAt? ⟨.utf8, start.position, index⟩
      = StringSite.ofBytes? bytes ⟨.utf8, start.position, index⟩ := by
    rw [ConstantPool.siteAt?, ConstantPool.shownText?_utf8, htext, StringSite.ofBytes?]
  rw [sites_ofSite?, ← hsite, filterMap_singleton]

section Levels

variable {item memberValue : Reader (ElementValue StringSite)}

theorem readMember_undoes (hvalue : Undoes memberValue ElementLayout.toBytes (Describes pool)) :
    Undoes (readMember pool memberValue) memberToBytes fun position layout member =>
      Describes pool (position + 2) layout.2 member.2 := by
  intro start stop member hread
  obtain ⟨middle, hname, hread⟩ := readMember_eq_ok.mp hread
  obtain ⟨index, hindex, -⟩ := indexed_spells hname
  obtain ⟨layout, hspells, hdescribes⟩ := hvalue _ _ _ hread
  rw [hindex.2] at hdescribes
  exact ⟨(index, layout), hindex.append hspells, hdescribes⟩

theorem members_undoes (hvalue : Undoes memberValue ElementLayout.toBytes (Describes pool)) :
    Undoes (Reader.counted (readMember pool memberValue)) (fun layouts => countBytes layouts ++ membersToBytes layouts)
      fun position layouts members => layouts.length ≤ maxCount ∧ (∀ layout ∈ layouts, layout.2.WellFormed)
        ∧ memberSites members = (membersSlots (position + 2) layouts).filterMap pool.siteAt? := by
  intro start stop members hread
  obtain ⟨layouts, hspells, hcount, hrow⟩ := (readMember_undoes hvalue).counted _ _ _ hread
  refine ⟨layouts, ?_, hcount, hrow.forall_layouts fun _ _ _ hdescribes => hdescribes.1, ?_⟩
  · simp only [membersToBytes_eq]
    exact hspells
  · rw [memberSites_eq, membersSlots_eq, inRow_filterMap]
    exact hrow.flatMap_eq fun _ _ _ hdescribes => hdescribes.2

theorem readWith_undoes (hitem : Undoes item ElementLayout.toBytes (Describes pool))
    (hvalue : Undoes memberValue ElementLayout.toBytes (Describes pool)) :
    Undoes (readWith pool item memberValue) ElementLayout.toBytes (Describes pool) := by
  intro start stop value hread
  obtain ⟨tag, afterTag, htag, htagged⟩ := exists_taggedRead hread
  have htagSpelled : start.Spells [tagByte (Char.ofNat tag.toNat)] afterTag := by
    rw [tagByte_ofNat]
    exact Cursor.Spells.u8_iff.mp htag
  have hposition : afterTag.position = start.position + 1 := htagSpelled.2
  -- The cases are those of the tag. The position behind it is where the slots of the value are counted from.
  generalize Char.ofNat tag.toNat = kind at htagged htagSpelled
  cases htagged with
  | number hkind hnumber =>
    obtain ⟨index, hindex, hsites⟩ := readNumber_undoes hnumber
    exact ⟨.number _ index, htagSpelled.append hindex, .number hkind, hsites⟩
  | string hstring =>
    obtain ⟨index, hindex, hsites⟩ := readString_undoes hstring
    rw [hposition] at hsites
    exact ⟨.string index, htagSpelled.append hindex, .string, hsites⟩
  | enumConstant htype hname =>
    obtain ⟨typeIndex, htypeIndex, -⟩ := indexed_spells htype
    obtain ⟨nameIndex, hnameIndex, -⟩ := indexed_spells hname
    exact ⟨.enumConstant typeIndex nameIndex, htagSpelled.append (htypeIndex.append hnameIndex), .enumConstant, rfl⟩
  | classRef hdescriptor =>
    obtain ⟨index, hindex, -⟩ := indexed_spells hdescriptor
    exact ⟨.classRef index, htagSpelled.append hindex, .classRef, rfl⟩
  | nested htype hmembers =>
    obtain ⟨typeIndex, htypeIndex, -⟩ := indexed_spells htype
    obtain ⟨layouts, hspells, hcount, hlayouts, hsites⟩ := members_undoes hvalue _ _ _ hmembers
    rw [htypeIndex.2, hposition] at hsites
    refine ⟨.nested typeIndex layouts, ?_, .nested hcount hlayouts, hsites⟩
    rw [ElementLayout.toBytes, List.append_assoc]
    exact htagSpelled.append (htypeIndex.append hspells)
  | array hvalues =>
    obtain ⟨layouts, hspells, hcount, hrow⟩ := hitem.counted _ _ _ hvalues
    rw [hposition] at hrow
    refine ⟨.array layouts, ?_, .array hcount (hrow.forall_layouts fun _ _ _ hdescribes => hdescribes.1), ?_⟩
    · rw [ElementLayout.toBytes, itemsToBytes_eq]
      exact htagSpelled.append hspells
    · rw [sites, itemSites_eq, ElementLayout.slots, itemsSlots_eq, inRow_filterMap]
      exact hrow.flatMap_eq fun _ _ _ hdescribes => hdescribes.2

end Levels

theorem readLevels_undoes : ∀ levels : Nat, Undoes (readLevels pool levels) ElementLayout.toBytes (Describes pool)
  | 0 => fun _ _ _ hread => absurd hread fail_ne_ok
  | 1 => readWith_undoes (fun _ _ _ hread => absurd hread fail_ne_ok) fun _ _ _ hread => absurd hread fail_ne_ok
  | levels + 2 => readWith_undoes (readLevels_undoes (levels + 1)) (readLevels_undoes levels)

theorem read_undoes (depth : Nat) : Undoes (read pool depth) ElementLayout.toBytes (Describes pool) :=
  readLevels_undoes _

end ElementValue

namespace AnnotationLayout

def Describes (pool : ConstantPool) (position : Nat) (layout : AnnotationLayout)
    (use : AnnotationUse StringSite) : Prop :=
  layout.WellFormed ∧ use.sites = (layout.slots position).filterMap pool.siteAt?

end AnnotationLayout

namespace AnnotationUse

theorem read_undoes : Undoes (read pool) AnnotationLayout.toBytes (AnnotationLayout.Describes pool) := by
  intro start stop use hread
  obtain ⟨middle, htype, hmembers⟩ := read_eq_ok.mp hread
  obtain ⟨index, hindex, -⟩ := indexed_spells htype
  obtain ⟨layouts, hspells, hcount, hlayouts, hsites⟩ :=
    ElementValue.members_undoes (ElementValue.read_undoes 1) _ _ _ hmembers
  rw [hindex.2] at hsites
  refine ⟨⟨index, layouts⟩, ?_, ⟨hcount, hlayouts⟩, hsites⟩
  rw [AnnotationLayout.toBytes, List.append_assoc]
  exact hindex.append hspells

theorem readAll_undoes : Undoes (readAll pool) (countedToBytes AnnotationLayout.toBytes) fun position layouts uses =>
    layouts.length ≤ maxCount
      ∧ Row AnnotationLayout.toBytes (AnnotationLayout.Describes pool) (position + 2) layouts uses :=
  read_undoes.counted

theorem readPerParameter_undoes : Undoes (readPerParameter pool)
    (fun layouts => UInt8.ofNat layouts.length :: layouts.flatMap (countedToBytes AnnotationLayout.toBytes))
    fun position layouts uses => layouts.length ≤ 255
      ∧ Row (countedToBytes AnnotationLayout.toBytes) (fun position layouts uses => layouts.length ≤ maxCount
        ∧ Row AnnotationLayout.toBytes (AnnotationLayout.Describes pool) (position + 2) layouts uses)
        (position + 1) layouts uses := by
  intro start stop uses hread
  obtain ⟨count, afterCount, hcount, hread⟩ := bind_eq_ok.mp hread
  obtain ⟨layouts, hspells, hlength, hrow⟩ := readAll_undoes.times _ _ _ _ hread
  have hcountSpelled := Cursor.Spells.u8_iff.mp hcount
  have hposition : afterCount.position = start.position + 1 := hcountSpelled.2
  rw [hposition] at hrow
  refine ⟨layouts, ?_, ?_, hrow⟩
  · simp only [hlength, UInt8.ofNat_toNat]
    exact hcountSpelled.append hspells
  · have hlt := count.toNat_lt
    rw [hlength]
    omega

end AnnotationUse

end Retoken
