import Mathlib.Algebra.GroupWithZero.Nat
import Retoken.Proofs.Text.Groups
import Retoken.Proofs.Text.Utf16

/-!
# The language of modified UTF-8

There are two layers, groups of bytes for units and units for characters. Bytes are read exactly if they split into groups whose units have no surrogate alone, and the text is the one that is written in these units in UTF-16. What is written for a text is read back as this text, and it is made of the shortest groups; a text that was read is written in the same bytes exactly if those groups were the shortest ones.
-/

namespace Retoken.Text.ModifiedUtf8

theorem ofGroups?_eq_some_iff {bytes : List UInt8} {text : String} :
    ofGroups? bytes = some text
      ↔ ∃ groups : List Group, groups.flatMap Group.toBytes = bytes ∧ groups.map Group.unit = Utf16.ofText text := by
  rw [ofGroups?]
  simp only [Option.bind_eq_bind, Option.bind_eq_some_iff, units?_eq_some_iff,
    Utf16.chars?_eq_some_iff, Option.pure_def, Option.some.injEq]
  constructor
  · rintro ⟨_, ⟨groups, hbytes, rfl⟩, chars, hchars, rfl⟩
    exact ⟨groups, hbytes, by rw [Utf16.ofText, String.toList_ofList, hchars]⟩
  · rintro ⟨groups, hbytes, hunits⟩
    exact ⟨_, ⟨groups, hbytes, hunits⟩, text.toList, rfl, String.ofList_toList⟩

theorem unitsAfter_plain (read : List UInt16) {bytes : List UInt8} (hplain : bytes.all isPlain = true) :
    unitsAfter read bytes = some (read.reverse ++ bytes.map UInt8.toUInt16) := by
  induction bytes generalizing read with
  | nil => simp [unitsAfter]
  | cons byte bytes ih =>
    rw [List.all_cons, Bool.and_eq_true] at hplain
    rw [unitsAfter.eq_def]
    simp [hplain.1, ih _ hplain.2]

theorem charsAfter_plain (read : List Char) {bytes : List UInt8} (hplain : bytes.all isPlain = true) :
    Utf16.charsAfter read (bytes.map UInt8.toUInt16)
      = some (read.reverse ++ bytes.map fun byte => Char.ofNat byte.toNat) := by
  induction bytes generalizing read with
  | nil => simp [Utf16.charsAfter]
  | cons byte bytes ih =>
    rw [List.all_cons, Bool.and_eq_true] at hplain
    have hlt := byte.toNat_lt
    have hhigh : Utf16.isHigh byte.toUInt16 = false := Utf16.isHigh_eq_false (by rw [UInt8.toNat_toUInt16]; omega)
    have hlow : Utf16.isLow byte.toUInt16 = false := Utf16.isLow_eq_false (by rw [UInt8.toNat_toUInt16]; omega)
    rw [List.map_cons, Utf16.charsAfter_plain hhigh hlow, ih _ hplain.2]
    simp

/-- Reading group by group gives the same for plain bytes as the short cut. -/
theorem ofGroups?_of_plain {bytes : List UInt8} (hplain : bytes.all isPlain = true) :
    ofGroups? bytes = some (ofPlain bytes) := by
  have hunits : units? bytes = some (bytes.map UInt8.toUInt16) := unitsAfter_plain [] hplain
  have hchars : Utf16.chars? (bytes.map UInt8.toUInt16) = some (bytes.map fun byte => Char.ofNat byte.toNat) :=
    charsAfter_plain [] hplain
  simp [ofGroups?, hunits, hchars, ofPlain]

theorem toString?_eq_ofGroups? (bytes : List UInt8) : toString? bytes = ofGroups? bytes := by
  rw [toString?]
  split
  case isTrue hplain => rw [ofGroups?_of_plain hplain]
  case isFalse => rfl

theorem toString?_eq_some_iff {bytes : List UInt8} {text : String} :
    toString? bytes = some text
      ↔ ∃ groups : List Group, groups.flatMap Group.toBytes = bytes ∧ groups.map Group.unit = Utf16.ofText text := by
  rw [toString?_eq_ofGroups?, ofGroups?_eq_some_iff]

/-- A text is read exactly from the bytes that split into groups in which no surrogate stands alone. The split is the only one, the text is the one whose units the groups denote, and for plain bytes the short cut gives the same text as reading group by group. -/
theorem reads_language (bytes : List UInt8) :
    ((∃ text, toString? bytes = some text)
        ↔ ∃ groups : List Group, groups.flatMap Group.toBytes = bytes ∧ Utf16.Paired (groups.map Group.unit))
      ∧ (∀ groups : List Group, groups.flatMap Group.toBytes = bytes →
        (∀ groups' : List Group, groups'.flatMap Group.toBytes = bytes → groups' = groups)
          ∧ ∀ text, toString? bytes = some text ↔ Utf16.ofText text = groups.map Group.unit)
      ∧ (bytes.all isPlain = true → some (ofPlain bytes) = ofGroups? bytes) := by
  refine ⟨⟨?_, ?_⟩, fun groups hbytes => ⟨fun groups' hbytes' => ?_, fun text => ⟨?_, ?_⟩⟩, fun hplain => ?_⟩
  · rintro ⟨text, htext⟩
    obtain ⟨groups, hbytes, hunits⟩ := toString?_eq_some_iff.mp htext
    exact ⟨groups, hbytes, Utf16.exists_ofText_iff.mp ⟨text, hunits.symm⟩⟩
  · rintro ⟨groups, hbytes, hpaired⟩
    obtain ⟨text, hunits⟩ := Utf16.exists_ofText_iff.mpr hpaired
    exact ⟨text, toString?_eq_some_iff.mpr ⟨groups, hbytes, hunits.symm⟩⟩
  · exact Group.eq_of_flatMap_toBytes (hbytes'.trans hbytes.symm)
  · intro htext
    obtain ⟨groups', hbytes', hunits⟩ := toString?_eq_some_iff.mp htext
    rw [Group.eq_of_flatMap_toBytes (hbytes'.trans hbytes.symm)] at hunits
    exact hunits.symm
  · intro hunits
    exact toString?_eq_some_iff.mpr ⟨groups, hbytes, hunits.symm⟩
  · exact (ofGroups?_of_plain hplain).symm

/-- A character above the first 65536 is read from the two groups of its surrogates, and plain bytes are read either way. -/
theorem reads_language_surrogates :
    (∃ groups : List Group, groups.flatMap Group.toBytes = [0xED, 0xA0, 0xBD, 0xED, 0xB8, 0x80]
        ∧ (∀ text, toString? [0xED, 0xA0, 0xBD, 0xED, 0xB8, 0x80] = some text
          ↔ Utf16.ofText text = groups.map Group.unit)
        ∧ groups.map Group.unit = [0xD83D, 0xDE00])
      ∧ [0x61, 0x7F].all isPlain = true ∧ some (ofPlain [0x61, 0x7F]) = ofGroups? [0x61, 0x7F] := by
  have hplain : [0x61, 0x7F].all isPlain = true := rfl
  let groups : List Group := [.three 0xED 0xA0 0xBD (by decide) (by decide) (by decide),
    .three 0xED 0xB8 0x80 (by decide) (by decide) (by decide)]
  have hbytes : groups.flatMap Group.toBytes = [0xED, 0xA0, 0xBD, 0xED, 0xB8, 0x80] := rfl
  refine ⟨⟨groups, hbytes, ?_, rfl⟩, hplain, (reads_language _).2.2 hplain⟩
  exact ((reads_language _).2.1 groups hbytes).2

theorem ofString_eq_groups (text : String) : ofString text = (Utf16.ofText text).flatMap group := by
  rw [ofString, Utf16.ofText, List.flatMap_assoc]

theorem exists_groups_ofString (text : String) :
    ∃ groups : List Group, groups.flatMap Group.toBytes = ofString text
      ∧ groups.map Group.unit = Utf16.ofText text := by
  obtain ⟨groups, hbytes, hunits, -⟩ := Group.exists_written (Utf16.ofText text)
  exact ⟨groups, by rw [hbytes, ofString_eq_groups], hunits⟩

theorem toString?_ofString (text : String) : toString? (ofString text) = some text :=
  toString?_eq_some_iff.mpr (exists_groups_ofString text)

def encodedLength (c : Char) : Nat :=
  if 0x01 ≤ c.toNat ∧ c.toNat ≤ 0x7F then 1
  else if c.toNat ≤ 0x7FF then 2
  else if c.toNat ≤ 0xFFFF then 3
  else 6

theorem length_group (unit : UInt16) :
    (group unit).length = if 0x01 ≤ unit.toNat ∧ unit.toNat ≤ 0x7F then 1 else if unit.toNat ≤ 0x7FF then 2 else 3 := by
  rw [group]
  split
  · rfl
  · split <;> rfl

theorem length_group_of_high {unit : UInt16} (hunit : 0x800 ≤ unit.toNat) : (group unit).length = 3 := by
  rw [length_group, if_neg (by omega), if_neg (by omega)]

theorem length_units (c : Char) : ((Utf16.units c).flatMap group).length = encodedLength c := by
  have hlt := Utf16.toNat_char_lt c
  rw [encodedLength]
  by_cases hbmp : c.toNat < 0x10000
  · rw [Utf16.units_single hbmp, List.flatMap_singleton, length_group, Utf16.toNat_ofNat_unit hbmp,
      if_pos (show c.toNat ≤ 0xFFFF by omega)]
  · rw [Utf16.units_pair (by omega), if_neg (by omega), if_neg (by omega), if_neg (by omega)]
    have hhigh : (group (UInt16.ofNat (0xD800 + (c.toNat - 0x10000) / 0x400))).length = 3 :=
      length_group_of_high (by rw [Utf16.toNat_ofNat_unit (by omega)]; omega)
    have hlow : (group (UInt16.ofNat (0xDC00 + (c.toNat - 0x10000) % 0x400))).length = 3 :=
      length_group_of_high (by rw [Utf16.toNat_ofNat_unit (by omega)]; omega)
    rw [List.flatMap_cons, List.flatMap_singleton, List.length_append, hhigh, hlow]

theorem length_ofString (text : String) : (ofString text).length = (text.toList.map encodedLength).sum := by
  rw [ofString, List.length_flatMap]
  simp only [length_units]

theorem bounds_of_mem_ofString {text : String} {byte : UInt8} (hbyte : byte ∈ ofString text) :
    0x00 < byte.toNat ∧ byte.toNat < 0xF0 := by
  obtain ⟨groups, hbytes, -⟩ := exists_groups_ofString text
  rw [← hbytes, List.mem_flatMap] at hbyte
  obtain ⟨group, -, hmem⟩ := hbyte
  exact Group.bounds_of_mem_toBytes hmem

/-- Every text is read back from the bytes that are written for it. These hold no zero byte and none from 0xF0 on, and are as many as the characters take. Bytes that were read are written again for their text exactly if each of their groups is the shortest one. -/
theorem writes_shortest :
    (∀ text, toString? (ofString text) = some text
        ∧ (∀ byte ∈ ofString text, byte ≠ 0x00 ∧ byte < 0xF0)
        ∧ (ofString text).length = (text.toList.map encodedLength).sum)
      ∧ ∀ bytes text, toString? bytes = some text →
        ∃ groups : List Group, groups.flatMap Group.toBytes = bytes
          ∧ (∀ groups' : List Group, groups'.flatMap Group.toBytes = bytes → groups' = groups)
          ∧ (ofString text = bytes ↔ ∀ group ∈ groups, group.Shortest) := by
  constructor
  · intro text
    refine ⟨toString?_ofString text, fun byte hbyte => ?_, length_ofString text⟩
    obtain ⟨hpositive, hlt⟩ := bounds_of_mem_ofString hbyte
    constructor
    · rintro rfl
      exact absurd hpositive (by decide)
    · exact UInt8.lt_iff_toNat_lt.mpr hlt
  · intro bytes text hread
    obtain ⟨groups, rfl, hunits⟩ := toString?_eq_some_iff.mp hread
    refine ⟨groups, rfl, fun groups' hbytes => Group.eq_of_flatMap_toBytes hbytes, ?_⟩
    rw [ofString_eq_groups, ← hunits]
    exact Group.written_iff

/-- A letter in a group of two bytes is read but not written again like this. -/
theorem writes_shortest_overlong : toString? [0x61, 0xC1, 0x81] = some "aA" ∧ ofString "aA" ≠ [0x61, 0xC1, 0x81]
    ∧ (∀ byte ∈ ofString "aA", byte ≠ 0x00 ∧ byte < 0xF0) := by
  have hread : toString? [0x61, 0xC1, 0x81] = some "aA" := by decide +kernel
  obtain ⟨groups, -, hunique, hwritten⟩ := writes_shortest.2 _ _ hread
  let overlong : Group := .two 0xC1 0x81 (by decide) (by decide)
  refine ⟨hread, fun hsame => ?_, (writes_shortest.1 "aA").2.1⟩
  have hshortest := hwritten.mp hsame overlong (by
    rw [← hunique [.one 0x61 (by decide), overlong] rfl]
    simp)
  exact absurd hshortest (by unfold overlong; rw [Group.Shortest]; decide)

end Retoken.Text.ModifiedUtf8
