import Retoken.Text.Utf16

/-!
# Units of well-formed UTF-16

A text is written in UTF-16 by writing each of its characters in one or two units, and reading undoes exactly this. So the units that can be read are those that some text is written in, and these are told by their surrogates alone: each high one is followed by a low one at once, and each low one follows a high one.
-/

namespace Retoken.Text.Utf16

def ofText (text : String) : List UInt16 :=
  text.toList.flatMap units

structure Paired (units : List UInt16) : Prop where
  low_of_high : ∀ i unit, units[i]? = some unit → isHigh unit = true →
    ∃ next, units[i + 1]? = some next ∧ isLow next = true
  high_of_low : ∀ i unit, units[i]? = some unit → isLow unit = true →
    ∃ j previous, i = j + 1 ∧ units[j]? = some previous ∧ isHigh previous = true

/-! ### Surrogates -/

theorem toNat_ofNat_unit {n : Nat} (hn : n < 0x10000) : (UInt16.ofNat n).toNat = n := by
  rw [UInt16.toNat_ofNat']
  omega

theorem isHigh_iff {unit : UInt16} : isHigh unit = true ↔ 0xD800 ≤ unit.toNat ∧ unit.toNat ≤ 0xDBFF := by
  simp [isHigh, UInt16.le_iff_toNat_le]

theorem isLow_iff {unit : UInt16} : isLow unit = true ↔ 0xDC00 ≤ unit.toNat ∧ unit.toNat ≤ 0xDFFF := by
  simp [isLow, UInt16.le_iff_toNat_le]

theorem isHigh_eq_false {unit : UInt16} (hunit : unit.toNat < 0xD800 ∨ 0xDBFF < unit.toNat) : isHigh unit = false := by
  rw [Bool.eq_false_iff, ne_eq, isHigh_iff]
  omega

theorem isLow_eq_false {unit : UInt16} (hunit : unit.toNat < 0xDC00 ∨ 0xDFFF < unit.toNat) : isLow unit = false := by
  rw [Bool.eq_false_iff, ne_eq, isLow_iff]
  omega

theorem isLow_of_isHigh {unit : UInt16} (hhigh : isHigh unit = true) : isLow unit = false := by
  rw [isHigh_iff] at hhigh
  exact isLow_eq_false (by omega)

theorem isHigh_of_isLow {unit : UInt16} (hlow : isLow unit = true) : isHigh unit = false := by
  rw [isLow_iff] at hlow
  exact isHigh_eq_false (by omega)

theorem toNat_char_lt (c : Char) : c.toNat < 0x110000 := by
  rcases c.valid with hlow | ⟨-, hhigh⟩
  · exact Nat.lt_trans hlow (by decide)
  · exact hhigh

theorem not_surrogate (c : Char) : ¬ (0xD800 ≤ c.toNat ∧ c.toNat ≤ 0xDFFF) := by
  rintro ⟨hle, hge⟩
  rcases c.valid with hlow | ⟨hhigh, -⟩
  · exact absurd hlow (Nat.not_lt.mpr hle)
  · exact absurd hhigh (Nat.not_lt.mpr hge)

theorem toNat_ofNat_char {n : Nat} (hn : n < 0xD800 ∨ 0xDFFF < n ∧ n < 0x110000) : (Char.ofNat n).toNat = n := by
  have hvalid : n.isValidChar := hn
  rw [Char.ofNat, dif_pos hvalid]
  rfl

/-! ### One character -/

theorem units_single {c : Char} (hc : c.toNat < 0x10000) : units c = [UInt16.ofNat c.toNat] :=
  if_pos hc

theorem units_pair {c : Char} (hc : 0x10000 ≤ c.toNat) :
    units c = [UInt16.ofNat (0xD800 + (c.toNat - 0x10000) / 0x400),
      UInt16.ofNat (0xDC00 + (c.toNat - 0x10000) % 0x400)] :=
  if_neg (Nat.not_lt.mpr hc)

theorem units_of_plain {unit : UInt16} (hhigh : isHigh unit = false) (hlow : isLow unit = false) :
    units (Char.ofNat unit.toNat) = [unit] := by
  have hlt := unit.toNat_lt
  rw [Bool.eq_false_iff, ne_eq, isHigh_iff] at hhigh
  rw [Bool.eq_false_iff, ne_eq, isLow_iff] at hlow
  have hchar : (Char.ofNat unit.toNat).toNat = unit.toNat := toNat_ofNat_char (by omega)
  rw [units_single (by omega), hchar, UInt16.ofNat_toNat]

theorem toNat_paired {high low : UInt16} (hhigh : isHigh high = true) (hlow : isLow low = true) :
    (paired high low).toNat = 0x10000 + (high.toNat - 0xD800) * 0x400 + (low.toNat - 0xDC00) := by
  rw [isHigh_iff] at hhigh
  rw [isLow_iff] at hlow
  rw [paired, toNat_ofNat_char (by omega)]

theorem units_paired {high low : UInt16} (hhigh : isHigh high = true) (hlow : isLow low = true) :
    units (paired high low) = [high, low] := by
  have hpaired := toNat_paired hhigh hlow
  rw [isHigh_iff] at hhigh
  rw [isLow_iff] at hlow
  have hfirst : 0xD800 + ((paired high low).toNat - 0x10000) / 0x400 = high.toNat := by omega
  have hsecond : 0xDC00 + ((paired high low).toNat - 0x10000) % 0x400 = low.toNat := by omega
  rw [units_pair (by omega), hfirst, hsecond, UInt16.ofNat_toNat, UInt16.ofNat_toNat]

theorem paired_units {c : Char} (hc : 0x10000 ≤ c.toNat) :
    paired (UInt16.ofNat (0xD800 + (c.toNat - 0x10000) / 0x400))
      (UInt16.ofNat (0xDC00 + (c.toNat - 0x10000) % 0x400)) = c := by
  have hlt := toNat_char_lt c
  have hvalue : 0x10000 + (0xD800 + (c.toNat - 0x10000) / 0x400 - 0xD800) * 0x400
      + (0xDC00 + (c.toNat - 0x10000) % 0x400 - 0xDC00) = c.toNat := by omega
  rw [paired, toNat_ofNat_unit (by omega), toNat_ofNat_unit (by omega), hvalue, Char.ofNat_toNat]

/-- The units of a character are one that is no surrogate, or a high and a low one. -/
theorem units_cases (c : Char) :
    (∃ unit, units c = [unit] ∧ isHigh unit = false ∧ isLow unit = false ∧ Char.ofNat unit.toNat = c)
      ∨ ∃ high low, units c = [high, low] ∧ isHigh high = true ∧ isLow low = true ∧ paired high low = c := by
  have hlt := toNat_char_lt c
  have hnot := not_surrogate c
  by_cases hbmp : c.toNat < 0x10000
  · refine .inl ⟨_, units_single hbmp, isHigh_eq_false ?_, isLow_eq_false ?_, ?_⟩ <;> rw [toNat_ofNat_unit hbmp]
    · omega
    · omega
    · exact Char.ofNat_toNat c
  · have hc : 0x10000 ≤ c.toNat := Nat.not_lt.mp hbmp
    refine .inr ⟨_, _, units_pair hc, ?_, ?_, paired_units hc⟩
    · rw [isHigh_iff, toNat_ofNat_unit (by omega)]
      omega
    · rw [isLow_iff, toNat_ofNat_unit (by omega)]
      omega

/-! ### Reading -/

theorem charsAfter_plain {unit : UInt16} (hhigh : isHigh unit = false) (hlow : isLow unit = false) (read : List Char)
    (rest : List UInt16) : charsAfter read (unit :: rest) = charsAfter (Char.ofNat unit.toNat :: read) rest := by
  rw [charsAfter.eq_def]
  simp [hhigh, hlow]

theorem charsAfter_paired {high low : UInt16} (hhigh : isHigh high = true) (hlow : isLow low = true) (read : List Char)
    (rest : List UInt16) : charsAfter read (high :: low :: rest) = charsAfter (paired high low :: read) rest := by
  rw [charsAfter.eq_def]
  simp [hhigh, hlow]

theorem charsAfter_units (read : List Char) (c : Char) (rest : List UInt16) :
    charsAfter read (units c ++ rest) = charsAfter (c :: read) rest := by
  rcases units_cases c with ⟨unit, hunits, hhigh, hlow, hchar⟩ | ⟨high, low, hunits, hhigh, hlow, hchar⟩
  · rw [hunits, List.singleton_append, charsAfter_plain hhigh hlow, hchar]
  · rw [hunits, List.cons_append, List.singleton_append, charsAfter_paired hhigh hlow, hchar]

theorem charsAfter_flatMap (read text : List Char) :
    charsAfter read (text.flatMap units) = some (read.reverse ++ text) := by
  induction text generalizing read with
  | nil => simp [charsAfter]
  | cons c text ih => simp [charsAfter_units, ih]

/-- What is read continues what was read before by the characters that are written in the units. -/
theorem flatMap_of_charsAfter {read chars : List Char} {written : List UInt16}
    (hread : charsAfter read written = some chars) :
    ∃ text, chars = read.reverse ++ text ∧ text.flatMap units = written := by
  fun_induction charsAfter read written with
  | case1 read => exact ⟨[], by simpa using hread.symm, rfl⟩
  | case2 read high hhigh low rest hlow ih =>
    obtain ⟨text, rfl, rfl⟩ := ih hread
    exact ⟨paired high low :: text, by simp, by simp [units_paired hhigh hlow]⟩
  | case3 => cases hread
  | case4 => cases hread
  | case5 => cases hread
  | case6 read unit rest hhigh hlow ih =>
    obtain ⟨text, rfl, rfl⟩ := ih hread
    refine ⟨Char.ofNat unit.toNat :: text, by simp, ?_⟩
    simp [units_of_plain (Bool.eq_false_iff.mpr hhigh) (Bool.eq_false_iff.mpr hlow)]

theorem chars?_eq_some_iff {written : List UInt16} {text : List Char} :
    chars? written = some text ↔ text.flatMap units = written := by
  constructor
  · intro hread
    obtain ⟨_, rfl, hwritten⟩ := flatMap_of_charsAfter hread
    exact hwritten
  · rintro rfl
    exact charsAfter_flatMap [] text

/-! ### Surrogates in pairs -/

namespace Paired

variable {unit high low : UInt16} {rest : List UInt16}

theorem nil : Paired [] where
  low_of_high := by simp
  high_of_low := by simp

theorem cons_plain (hhigh : isHigh unit = false) (hlow : isLow unit = false) (hrest : Paired rest) :
    Paired (unit :: rest) where
  low_of_high i found hfound hfoundHigh := by
    cases i with
    | zero =>
      obtain rfl : unit = found := by simpa using hfound
      simp [hhigh] at hfoundHigh
    | succ i => exact hrest.low_of_high i found hfound hfoundHigh
  high_of_low i found hfound hfoundLow := by
    cases i with
    | zero =>
      obtain rfl : unit = found := by simpa using hfound
      simp [hlow] at hfoundLow
    | succ i =>
      obtain ⟨j, previous, rfl, hprevious, hpreviousHigh⟩ := hrest.high_of_low i found hfound hfoundLow
      exact ⟨j + 1, previous, rfl, hprevious, hpreviousHigh⟩

theorem cons_pair (hhigh : isHigh high = true) (hlow : isLow low = true) (hrest : Paired rest) :
    Paired (high :: low :: rest) where
  low_of_high i found hfound hfoundHigh := by
    match i with
    | 0 => exact ⟨low, rfl, hlow⟩
    | 1 =>
      obtain rfl : low = found := by simpa using hfound
      simp [isHigh_of_isLow hlow] at hfoundHigh
    | i + 2 => exact hrest.low_of_high i found hfound hfoundHigh
  high_of_low i found hfound hfoundLow := by
    match i with
    | 0 =>
      obtain rfl : high = found := by simpa using hfound
      simp [isLow_of_isHigh hhigh] at hfoundLow
    | 1 => exact ⟨0, high, rfl, rfl, hhigh⟩
    | i + 2 =>
      obtain ⟨j, previous, rfl, hprevious, hpreviousHigh⟩ := hrest.high_of_low i found hfound hfoundLow
      exact ⟨j + 2, previous, rfl, hprevious, hpreviousHigh⟩

/-- What stands behind some units is in pairs by itself if the last of them is no high surrogate. -/
theorem drop {written : List UInt16} (hpaired : Paired written) {n : Nat}
    (hlast : ∀ unit, written[n]? = some unit → isHigh unit = false) : Paired (written.drop (n + 1)) where
  low_of_high i unit hunit hhigh := by
    rw [List.getElem?_drop] at hunit ⊢
    exact hpaired.low_of_high (n + 1 + i) unit hunit hhigh
  high_of_low i unit hunit hlow := by
    rw [List.getElem?_drop] at hunit
    obtain ⟨j, previous, hj, hprevious, hhigh⟩ := hpaired.high_of_low (n + 1 + i) unit hunit hlow
    obtain rfl : n + i = j := by omega
    cases i with
    | zero => simp [hlast previous hprevious] at hhigh
    | succ i =>
      refine ⟨i, previous, rfl, ?_, hhigh⟩
      rw [List.getElem?_drop, ← hprevious]
      congr 1
      omega

end Paired

/-- Units in which no surrogate stands alone can be read. -/
theorem exists_chars_of_paired (read : List Char) {written : List UInt16} (hpaired : Paired written) :
    ∃ chars, charsAfter read written = some chars := by
  fun_induction charsAfter read written with
  | case1 read => exact ⟨read.reverse, rfl⟩
  | case2 read high hhigh low rest hlow ih =>
    refine ih (hpaired.drop (n := 1) fun unit hunit => ?_)
    obtain rfl : low = unit := by simpa using hunit
    exact isHigh_of_isLow hlow
  | case3 read high hhigh next rest hlow =>
    obtain ⟨low, hnext, hisLow⟩ := hpaired.low_of_high 0 high rfl hhigh
    obtain rfl : next = low := by simpa using hnext
    exact absurd hisLow hlow
  | case4 read high hhigh =>
    obtain ⟨low, hnext, -⟩ := hpaired.low_of_high 0 high rfl hhigh
    simp at hnext
  | case5 read low rest hhigh hlow =>
    obtain ⟨j, previous, hj, -⟩ := hpaired.high_of_low 0 low rfl hlow
    simp at hj
  | case6 read unit rest hhigh hlow ih =>
    refine ih (hpaired.drop (n := 0) fun found hfound => ?_)
    obtain rfl : unit = found := by simpa using hfound
    exact Bool.eq_false_iff.mpr hhigh

theorem paired_flatMap_units (text : List Char) : Paired (text.flatMap units) := by
  induction text with
  | nil => exact .nil
  | cons c text ih =>
    rw [List.flatMap_cons]
    rcases units_cases c with ⟨unit, hunits, hhigh, hlow, -⟩ | ⟨high, low, hunits, hhigh, hlow, -⟩
    · rw [hunits]
      exact .cons_plain hhigh hlow ih
    · rw [hunits]
      exact .cons_pair hhigh hlow ih

theorem exists_ofText_iff {written : List UInt16} : (∃ text, ofText text = written) ↔ Paired written := by
  constructor
  · rintro ⟨text, rfl⟩
    exact paired_flatMap_units text.toList
  · intro hpaired
    obtain ⟨chars, hread⟩ := exists_chars_of_paired [] hpaired
    refine ⟨String.ofList chars, ?_⟩
    rw [ofText, String.toList_ofList]
    exact chars?_eq_some_iff.mp hread

end Retoken.Text.Utf16
