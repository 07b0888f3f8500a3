import Retoken.Text.ModifiedUtf8
import Mathlib.Data.List.Basic

/-!
# Groups of bytes

Modified UTF-8 is made of groups of one, two or three bytes, told apart by their first byte, and each group denotes a unit by the bits that its bytes carry. Bytes can be split into groups in one way at most, and reading gives the units of that split. Of the groups that denote a unit one is the shortest, and that is the one that is written.
-/

namespace Retoken.Text.ModifiedUtf8

inductive Group where
  | one (a : UInt8) (ha : 0x01 ≤ a.toNat ∧ a.toNat ≤ 0x7F)
  | two (a b : UInt8) (ha : 0xC0 ≤ a.toNat ∧ a.toNat ≤ 0xDF) (hb : 0x80 ≤ b.toNat ∧ b.toNat ≤ 0xBF)
  | three (a b c : UInt8) (ha : 0xE0 ≤ a.toNat ∧ a.toNat ≤ 0xEF) (hb : 0x80 ≤ b.toNat ∧ b.toNat ≤ 0xBF)
    (hc : 0x80 ≤ c.toNat ∧ c.toNat ≤ 0xBF)

namespace Group

def toBytes : Group → List UInt8
  | one a _ => [a]
  | two a b .. => [a, b]
  | three a b c .. => [a, b, c]

/-- The bits that the bytes carry: seven in a single byte, else those behind the mark that tells the length, and six in each byte that follows. -/
def value : Group → Nat
  | one a _ => a.toNat % 0x80
  | two a b .. => a.toNat % 0x20 * 0x40 + b.toNat % 0x40
  | three a b c .. => a.toNat % 0x10 * 0x1000 + b.toNat % 0x40 * 0x40 + c.toNat % 0x40

def unit (group : Group) : UInt16 :=
  UInt16.ofNat group.value

/-- Whether no shorter group denotes the same unit. Zero is denoted by two bytes at least. -/
def Shortest : Group → Prop
  | one .. => True
  | group@(two ..) => group.value = 0 ∨ 0x80 ≤ group.value
  | group@(three ..) => 0x800 ≤ group.value

theorem value_lt (group : Group) : group.value < 0x10000 := by
  cases group with
  | one a => simp only [value]; omega
  | two a b => simp only [value]; omega
  | three a b c => simp only [value]; omega

theorem toNat_unit (group : Group) : group.unit.toNat = group.value := by
  have hlt := group.value_lt
  rw [unit, UInt16.toNat_ofNat']
  omega

theorem toBytes_ne_nil (group : Group) : group.toBytes ≠ [] := by
  cases group <;> simp [toBytes]

/-- The first byte of a group tells how long it is, so no group is the beginning of another one. -/
theorem eq_of_append {group group' : Group} {rest rest' : List UInt8}
    (heq : group.toBytes ++ rest = group'.toBytes ++ rest') : group = group' ∧ rest = rest' := by
  cases group <;> cases group' <;> simp [toBytes] at heq <;> grind

/-- The split into groups is the only one. -/
theorem eq_of_flatMap_toBytes {groups groups' : List Group} (heq : groups.flatMap toBytes = groups'.flatMap toBytes) :
    groups = groups' := by
  induction groups generalizing groups' with
  | nil =>
    cases groups' with
    | nil => rfl
    | cons group groups' => simp [toBytes_ne_nil] at heq
  | cons group groups ih =>
    cases groups' with
    | nil => simp [toBytes_ne_nil] at heq
    | cons group' groups' =>
      rw [List.flatMap_cons, List.flatMap_cons] at heq
      obtain ⟨rfl, hrest⟩ := eq_of_append heq
      rw [ih hrest]

end Group

/-! ### Reading -/

theorem isPlain_iff {byte : UInt8} : isPlain byte = true ↔ 0x01 ≤ byte.toNat ∧ byte.toNat ≤ 0x7F := by
  simp [isPlain, UInt8.le_iff_toNat_le]

theorem isContinuation_iff {byte : UInt8} : isContinuation byte = true ↔ 0x80 ≤ byte.toNat ∧ byte.toNat ≤ 0xBF := by
  simp [isContinuation, UInt8.le_iff_toNat_le]

theorem leadsTwo_iff {byte : UInt8} : (0xC0 ≤ byte && byte ≤ 0xDF) = true ↔ 0xC0 ≤ byte.toNat ∧ byte.toNat ≤ 0xDF := by
  simp [UInt8.le_iff_toNat_le]

theorem leadsThree_iff {byte : UInt8} :
    (0xE0 ≤ byte && byte ≤ 0xEF) = true ↔ 0xE0 ≤ byte.toNat ∧ byte.toNat ≤ 0xEF := by
  simp [UInt8.le_iff_toNat_le]

namespace Group

theorem unit_one {a : UInt8} (ha : 0x01 ≤ a.toNat ∧ a.toNat ≤ 0x7F) : (one a ha).unit = a.toUInt16 := by
  apply UInt16.toNat_inj.mp
  rw [toNat_unit, value, UInt8.toNat_toUInt16]
  omega

theorem unit_two {a b : UInt8} (ha : 0xC0 ≤ a.toNat ∧ a.toNat ≤ 0xDF) (hb : 0x80 ≤ b.toNat ∧ b.toNat ≤ 0xBF) :
    (two a b ha hb).unit = unit2 a b := by
  refine congrArg UInt16.ofNat ?_
  rw [value]
  omega

theorem unit_three {a b c : UInt8} (ha : 0xE0 ≤ a.toNat ∧ a.toNat ≤ 0xEF) (hb : 0x80 ≤ b.toNat ∧ b.toNat ≤ 0xBF)
    (hc : 0x80 ≤ c.toNat ∧ c.toNat ≤ 0xBF) : (three a b c ha hb hc).unit = unit3 a b c := by
  refine congrArg UInt16.ofNat ?_
  rw [value]
  omega

end Group

theorem unitsAfter_toBytes (read : List UInt16) (group : Group) (rest : List UInt8) :
    unitsAfter read (group.toBytes ++ rest) = unitsAfter (group.unit :: read) rest := by
  cases group with
  | one a ha =>
    have hplain : isPlain a = true := isPlain_iff.mpr ha
    rw [Group.unit_one, Group.toBytes, List.singleton_append, unitsAfter.eq_def]
    simp [hplain]
  | two a b ha hb =>
    have hplain : ¬ isPlain a = true := by rw [isPlain_iff]; omega
    have hleads := leadsTwo_iff.mpr ha
    rw [Group.unit_two, Group.toBytes, List.cons_append, List.singleton_append, unitsAfter.eq_def]
    simp only [hplain, hleads, isContinuation_iff.mpr hb]
    rfl
  | three a b c ha hb hc =>
    have hplain : ¬ isPlain a = true := by rw [isPlain_iff]; omega
    have hother : ¬ (0xC0 ≤ a && a ≤ 0xDF) = true := by rw [leadsTwo_iff]; omega
    have hleads := leadsThree_iff.mpr ha
    rw [Group.unit_three, Group.toBytes, List.cons_append, List.cons_append, List.singleton_append, unitsAfter.eq_def]
    simp only [hplain, hother, hleads, isContinuation_iff.mpr hb, isContinuation_iff.mpr hc]
    rfl

theorem unitsAfter_flatMap (read : List UInt16) (groups : List Group) :
    unitsAfter read (groups.flatMap Group.toBytes) = some (read.reverse ++ groups.map Group.unit) := by
  induction groups generalizing read with
  | nil => simp [unitsAfter]
  | cons group groups ih => simp [unitsAfter_toBytes, ih]

theorem exists_groups_of_unitsAfter {read units : List UInt16} {bytes : List UInt8}
    (hread : unitsAfter read bytes = some units) :
    ∃ groups : List Group, groups.flatMap Group.toBytes = bytes ∧ units = read.reverse ++ groups.map Group.unit := by
  fun_induction unitsAfter read bytes with
  | case1 read => exact ⟨[], rfl, by simpa using hread.symm⟩
  | case2 read a rest hplain ih =>
    obtain ⟨groups, rfl, rfl⟩ := ih hread
    exact ⟨.one a (isPlain_iff.mp hplain) :: groups, rfl, by simp [Group.unit_one]⟩
  | case3 read a hplain hleads b rest hb ih =>
    obtain ⟨groups, rfl, rfl⟩ := ih hread
    exact ⟨.two a b (leadsTwo_iff.mp hleads) (isContinuation_iff.mp hb) :: groups, rfl, by simp [Group.unit_two]⟩
  | case6 read a hplain hother hleads b c rest hcontinue ih =>
    obtain ⟨groups, rfl, rfl⟩ := ih hread
    obtain ⟨hb, hc⟩ := (Bool.and_eq_true _ _).mp hcontinue
    exact ⟨.three a b c (leadsThree_iff.mp hleads) (isContinuation_iff.mp hb) (isContinuation_iff.mp hc) :: groups, rfl,
      by simp [Group.unit_three]⟩
  | _ => cases hread

theorem units?_eq_some_iff {bytes : List UInt8} {units : List UInt16} :
    units? bytes = some units ↔ ∃ groups : List Group, groups.flatMap Group.toBytes = bytes
      ∧ groups.map Group.unit = units := by
  constructor
  · intro hread
    obtain ⟨groups, hbytes, hunits⟩ := exists_groups_of_unitsAfter hread
    exact ⟨groups, hbytes, hunits.symm⟩
  · rintro ⟨groups, rfl, rfl⟩
    exact unitsAfter_flatMap [] groups

/-! ### The shortest groups -/

namespace Group

theorem exists_shortest (unit : UInt16) : ∃ group : Group, group.unit = unit ∧ group.Shortest := by
  have hlt := unit.toNat_lt
  have hunit : ∀ {group : Group}, group.value = unit.toNat → group.unit = unit := fun hvalue =>
    UInt16.toNat_inj.mp (by rw [toNat_unit, hvalue])
  have hbyte : ∀ {n : Nat}, n < 0x100 → (UInt8.ofNat n).toNat = n := fun hn => by
    rw [UInt8.toNat_ofNat']
    omega
  by_cases hplain : 0x01 ≤ unit.toNat ∧ unit.toNat ≤ 0x7F
  · have ha := hbyte (n := unit.toNat) (by omega)
    refine ⟨one (UInt8.ofNat unit.toNat) (by omega), hunit ?_, trivial⟩
    rw [value, ha]
    omega
  · by_cases hshort : unit.toNat ≤ 0x7FF
    · have ha := hbyte (n := 0xC0 + unit.toNat / 0x40) (by omega)
      have hb := hbyte (n := 0x80 + unit.toNat % 0x40) (by omega)
      have hvalue : (two (UInt8.ofNat (0xC0 + unit.toNat / 0x40)) (UInt8.ofNat (0x80 + unit.toNat % 0x40))
          (by omega) (by omega)).value = unit.toNat := by
        rw [value, ha, hb]
        omega
      exact ⟨_, hunit hvalue, by rw [Shortest, hvalue]; omega⟩
    · have ha := hbyte (n := 0xE0 + unit.toNat / 0x1000) (by omega)
      have hb := hbyte (n := 0x80 + unit.toNat / 0x40 % 0x40) (by omega)
      have hc := hbyte (n := 0x80 + unit.toNat % 0x40) (by omega)
      have hvalue : (three (UInt8.ofNat (0xE0 + unit.toNat / 0x1000)) (UInt8.ofNat (0x80 + unit.toNat / 0x40 % 0x40))
          (UInt8.ofNat (0x80 + unit.toNat % 0x40)) (by omega) (by omega) (by omega)).value = unit.toNat := by
        rw [value, ha, hb, hc]
        omega
      exact ⟨_, hunit hvalue, by rw [Shortest, hvalue]; omega⟩

/-- The shortest group is the one that is written. -/
theorem toBytes_of_shortest {group : Group} (hshortest : group.Shortest) :
    group.toBytes = ModifiedUtf8.group group.unit := by
  have hvalue := group.toNat_unit
  cases group with
  | one a ha =>
    rw [value] at hvalue
    rw [ModifiedUtf8.group, hvalue, if_pos (by omega), toBytes, Nat.mod_eq_of_lt (by omega), UInt8.ofNat_toNat]
  | two a b ha hb =>
    rw [Shortest] at hshortest
    rw [ModifiedUtf8.group, hvalue, if_neg (by omega), if_pos (by rw [value]; omega), toBytes]
    have hfirst : 0xC0 + (two a b ha hb).value / 0x40 = a.toNat := by rw [value]; omega
    have hsecond : 0x80 + (two a b ha hb).value % 0x40 = b.toNat := by rw [value]; omega
    rw [hfirst, hsecond, UInt8.ofNat_toNat, UInt8.ofNat_toNat]
  | three a b c ha hb hc =>
    rw [Shortest] at hshortest
    rw [ModifiedUtf8.group, hvalue, if_neg (by omega), if_neg (by omega), toBytes]
    have hfirst : 0xE0 + (three a b c ha hb hc).value / 0x1000 = a.toNat := by rw [value]; omega
    have hsecond : 0x80 + (three a b c ha hb hc).value / 0x40 % 0x40 = b.toNat := by rw [value]; omega
    have hthird : 0x80 + (three a b c ha hb hc).value % 0x40 = c.toNat := by rw [value]; omega
    rw [hfirst, hsecond, hthird, UInt8.ofNat_toNat, UInt8.ofNat_toNat, UInt8.ofNat_toNat]

theorem exists_written (units : List UInt16) :
    ∃ groups : List Group, groups.flatMap toBytes = units.flatMap ModifiedUtf8.group ∧ groups.map unit = units
      ∧ ∀ group ∈ groups, group.Shortest := by
  induction units with
  | nil => exact ⟨[], rfl, rfl, by simp⟩
  | cons unit units ih =>
    obtain ⟨group, rfl, hshortest⟩ := exists_shortest unit
    obtain ⟨groups, hbytes, hunits, hall⟩ := ih
    refine ⟨group :: groups, ?_, by rw [List.map_cons, hunits], List.forall_mem_cons.mpr ⟨hshortest, hall⟩⟩
    rw [List.flatMap_cons, List.flatMap_cons, hbytes, toBytes_of_shortest hshortest]

/-- Groups are the written ones for their units exactly if all of them are shortest. -/
theorem written_iff {groups : List Group} :
    (groups.map unit).flatMap ModifiedUtf8.group = groups.flatMap toBytes ↔ ∀ group ∈ groups, group.Shortest := by
  constructor
  · intro hwritten
    obtain ⟨shortest, hbytes, -, hall⟩ := exists_written (groups.map unit)
    rw [eq_of_flatMap_toBytes (hbytes.trans hwritten)] at hall
    exact hall
  · intro hall
    rw [List.flatMap_map]
    exact List.flatMap_congr fun group hgroup => (toBytes_of_shortest (hall group hgroup)).symm

/-- No byte of a group is zero, and none is above the marks of three bytes. -/
theorem bounds_of_mem_toBytes {group : Group} {byte : UInt8} (hbyte : byte ∈ group.toBytes) :
    0x00 < byte.toNat ∧ byte.toNat < 0xF0 := by
  cases group <;> simp only [toBytes, List.mem_cons, List.not_mem_nil, or_false] at hbyte
  case one a ha =>
    subst hbyte
    omega
  case two a b ha hb => rcases hbyte with rfl | rfl <;> omega
  case three a b c ha hb hc => rcases hbyte with rfl | rfl | rfl <;> omega

end Group

end Retoken.Text.ModifiedUtf8
