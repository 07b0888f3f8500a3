import Mathlib.Data.List.Infix
import Retoken.Text.Replacement

/-!
# What replacing a key does to a text

A text is a row of stretches without the key, with the key between each two of them, and replacing puts the value in place of the key. `Replaced` says so without a search, and the search finds the one result that there is. A key that occurs in the result without occurring in a stretch or in the value occurs across an edge of the value. If that cannot happen, then neither the key nor any other that was absent before occurs in the result.
-/

namespace Retoken.Text

variable {key value text rest other : List Char} {c : Char}

/-! ### Equations -/

theorem replaceAfter_eq (done : List Char) (covered : Nat) (text : List Char) :
    replaceAfter key value done covered text = done.reverse ++ replaceAll key value (text.drop covered) := by
  induction text generalizing done covered with
  | nil => simp [replaceAfter, replaceAll]
  | cons c rest ih =>
    cases covered with
    | succ covered =>
      rw [replaceAfter, ih, List.drop_succ_cons]
    | zero =>
      rw [List.drop_zero, replaceAll, replaceAfter, replaceAfter]
      split
      case isTrue => rw [ih, ih (value.reverse ++ []), List.reverse_append, List.append_nil, List.append_assoc]
      case isFalse => rw [ih, ih [c], List.reverse_cons, List.reverse_singleton, List.append_assoc]

@[simp] theorem replaceAll_nil (key value : List Char) : replaceAll key value [] = [] := rfl

theorem replaceAll_append (hkey : key ≠ []) :
    replaceAll key value (key ++ rest) = value ++ replaceAll key value rest := by
  obtain ⟨c, tail, rfl⟩ := List.exists_cons_of_ne_nil hkey
  have hstarts : (c :: tail).isPrefixOf (c :: (tail ++ rest)) = true := by
    rw [List.isPrefixOf_iff_prefix]
    exact List.prefix_append (c :: tail) rest
  rw [List.cons_append, replaceAll, replaceAfter, if_pos hstarts, replaceAfter_eq, List.append_nil,
    List.reverse_reverse, List.length_cons, Nat.add_sub_cancel, List.drop_left]

theorem replaceAll_cons (habsent : ¬ key <+: c :: rest) :
    replaceAll key value (c :: rest) = c :: replaceAll key value rest := by
  have hstarts : ¬ key.isPrefixOf (c :: rest) = true := by
    rwa [List.isPrefixOf_iff_prefix]
  rw [replaceAll, replaceAfter, if_neg hstarts, replaceAfter_eq]
  rfl

/-- A property of all texts follows the search: it holds at the end, behind an occurrence, and behind a character at which no occurrence begins. -/
theorem replacement_induction {motive : List Char → Prop} (hkey : key ≠ []) (nil : motive [])
    (found : ∀ rest, motive rest → motive (key ++ rest))
    (passed : ∀ c rest, ¬ key <+: c :: rest → motive rest → motive (c :: rest)) (text : List Char) :
    motive text := by
  induction hlength : text.length using Nat.strong_induction_on generalizing text with
  | h length ih =>
    cases text with
    | nil => exact nil
    | cons c rest =>
      rw [List.length_cons] at hlength
      by_cases hstarts : key <+: c :: rest
      · obtain ⟨behind, hbehind⟩ := hstarts
        have hsplit := congrArg List.length hbehind
        rw [List.length_append, List.length_cons] at hsplit
        have hpositive := List.length_pos_of_ne_nil hkey
        rw [← hbehind]
        exact found behind (ih behind.length (by omega) behind rfl)
      · exact passed c rest hstarts (ih rest.length (by omega) rest rfl)

/-! ### Texts without the key -/

theorem replaceAll_of_absent (habsent : ¬ key <:+: text) : replaceAll key value text = text := by
  induction text with
  | nil => rfl
  | cons c rest ih =>
    have hhere : ¬ key <+: c :: rest := fun hstarts => habsent hstarts.isInfix
    have hlater : ¬ key <:+: rest := fun hoccurs => habsent (hoccurs.trans (List.suffix_cons c rest).isInfix)
    rw [replaceAll_cons hhere, ih hlater]

theorem length_replaceAll_le (hkey : key ≠ []) (hshorter : value.length ≤ key.length) (text : List Char) :
    (replaceAll key value text).length ≤ text.length := by
  induction text using replacement_induction hkey with
  | nil => exact Nat.le_refl _
  | found rest ih =>
    rw [replaceAll_append hkey, List.length_append, List.length_append]
    omega
  | passed c rest hhere ih =>
    rw [replaceAll_cons hhere, List.length_cons, List.length_cons]
    omega

/-- A text in which the key occurs is not left as it is, unless the value has the key in it. -/
theorem absent_of_replaceAll_eq (hvalue : ¬ key <:+: value) (hsame : replaceAll key value text = text) :
    ¬ key <:+: text := by
  have hkey : key ≠ [] := by
    rintro rfl
    exact hvalue (List.nil_infix)
  induction text using replacement_induction hkey with
  | nil =>
    rw [List.infix_nil]
    exact hkey
  | found rest ih =>
    -- The value would be a beginning of the key, and the rest would have to grow by what the key has more.
    rw [replaceAll_append hkey] at hsame
    rcases List.append_eq_append_iff.mp hsame with ⟨more, hmore, hgrown⟩ | ⟨more, hmore, -⟩
    · have hshorter : value.length ≤ key.length := by
        rw [hmore, List.length_append]
        omega
      have hle := length_replaceAll_le hkey hshorter rest
      rw [hgrown, List.length_append] at hle
      have hnil : more = [] := List.length_eq_zero_iff.mp (by omega)
      rw [hnil, List.append_nil] at hmore
      exact absurd (List.infix_refl key) (hmore ▸ hvalue)
    · rw [hmore] at hvalue
      exact absurd (List.prefix_append key more).isInfix hvalue
  | passed c rest hhere ih =>
    rw [replaceAll_cons hhere] at hsame
    rw [List.infix_cons_iff]
    rintro (hstarts | hoccurs)
    · exact hhere hstarts
    · exact ih (List.cons.inj hsame).2 hoccurs

/-! ### Results without a search -/

/-- The result has the value in place of each occurrence of the key, where the next occurrence is the first that begins behind the last one. -/
inductive Replaced (key value : List Char) : List Char → List Char → Prop where
  | absent {text : List Char} (habsent : ¬ key <:+: text) : Replaced key value text text
  | found {before rest result : List Char} (hfirst : ∀ i < before.length, ¬ key <+: (before ++ (key ++ rest)).drop i)
      (hrest : Replaced key value rest result) : Replaced key value (before ++ (key ++ rest))
        (before ++ (value ++ result))

/-- The search passes over a stretch in which no occurrence begins. -/
theorem replaceAll_passed {before : List Char} (hfirst : ∀ i < before.length, ¬ key <+: (before ++ rest).drop i) :
    replaceAll key value (before ++ rest) = before ++ replaceAll key value rest := by
  induction before with
  | nil => rfl
  | cons c before ih =>
    have hhere : ¬ key <+: c :: (before ++ rest) := hfirst 0 (Nat.zero_lt_succ _)
    have hlater : ∀ i < before.length, ¬ key <+: (before ++ rest).drop i := by
      intro i hi
      exact hfirst (i + 1) (Nat.succ_lt_succ hi)
    rw [List.cons_append, replaceAll_cons hhere, ih hlater, List.cons_append]

theorem Replaced.eq_replaceAll {result : List Char} (hkey : key ≠ []) (hreplaced : Replaced key value text result) :
    result = replaceAll key value text := by
  induction hreplaced with
  | absent habsent => exact (replaceAll_of_absent habsent).symm
  | found hfirst _ ih => rw [replaceAll_passed hfirst, replaceAll_append hkey, ih]

theorem Replaced.cons {result : List Char} (hhere : ¬ key <+: c :: rest) (hreplaced : Replaced key value rest result) :
    Replaced key value (c :: rest) (c :: result) := by
  cases hreplaced with
  | absent habsent =>
    apply Replaced.absent
    rw [List.infix_cons_iff]
    exact not_or.mpr ⟨hhere, habsent⟩
  | @found before rest result hfirst hrest =>
    refine @Replaced.found key value (c :: before) rest result (fun i hi => ?_) hrest
    cases i with
    | zero => exact hhere
    | succ i => exact hfirst i (Nat.lt_of_succ_lt_succ hi)

theorem replaced_replaceAll (hkey : key ≠ []) (text : List Char) :
    Replaced key value text (replaceAll key value text) := by
  induction text using replacement_induction hkey with
  | nil =>
    apply Replaced.absent
    rwa [List.infix_nil]
  | found rest ih =>
    rw [replaceAll_append hkey]
    exact @Replaced.found key value [] rest _ (fun i hi => absurd hi (Nat.not_lt_zero i)) ih
  | passed c rest hhere ih =>
    rw [replaceAll_cons hhere]
    exact ih.cons hhere

/-- There is one result, and the search finds it. -/
theorem replaced_iff {result : List Char} (hkey : key ≠ []) :
    Replaced key value text result ↔ result = replaceAll key value text := by
  constructor
  · exact Replaced.eq_replaceAll hkey
  · rintro rfl
    exact replaced_replaceAll hkey text

/-! ### Edges of values -/

/-- Whether the key never occurs across an edge of the value, whatever stands around it. -/
def Seamless (key value : List Char) : Prop :=
  ∀ before after, key <:+: before ++ (value ++ after) → key <:+: before ∨ key <:+: value ∨ key <:+: after

/-- A key that is in neither is not brought about by putting the value in. -/
theorem Seamless.absent {before after : List Char} (hseamless : Seamless other value)
    (hbefore : ¬ other <:+: before) (hvalue : ¬ other <:+: value) (hafter : ¬ other <:+: after) :
    ¬ other <:+: before ++ (value ++ after) := by
  intro hoccurs
  rcases hseamless before after hoccurs with hmem | hmem | hmem
  · exact hbefore hmem
  · exact hvalue hmem
  · exact hafter hmem

theorem replaceAll_absent (hkey : key ≠ []) (hseamless : Seamless other value) (hvalue : ¬ other <:+: value)
    (habsent : ¬ other <:+: text) : ¬ other <:+: replaceAll key value text := by
  suffices hpassed : ∀ passed, ¬ other <:+: passed ++ text → ¬ other <:+: passed ++ replaceAll key value text by
    exact hpassed [] habsent
  clear habsent
  induction text using replacement_induction hkey with
  | nil => exact fun passed habsent => habsent
  | found rest ih =>
    intro passed habsent
    rw [replaceAll_append hkey]
    refine hseamless.absent (fun hoccurs => habsent ?_) hvalue (ih [] fun hoccurs => habsent ?_)
    · exact hoccurs.trans (List.prefix_append passed (key ++ rest)).isInfix
    · exact hoccurs.trans ⟨passed ++ key, [], by simp⟩
  | passed c rest hhere ih =>
    intro passed habsent
    rw [replaceAll_cons hhere]
    have hnext := ih (passed ++ [c]) (by simpa using habsent)
    simpa using hnext

theorem replaceAll_absent_self (hseamless : Seamless key value) (hvalue : ¬ key <:+: value) (text : List Char) :
    ¬ key <:+: replaceAll key value text := by
  have hkey : key ≠ [] := by
    rintro rfl
    exact hvalue (List.nil_infix)
  -- No occurrence began in what was passed since the last one, so none lies in it.
  have hclean : ∀ passed text, (∀ tail, tail <:+ passed → tail ≠ [] → ¬ key <+: tail ++ text) → ¬ key <:+: passed := by
    intro passed text hpassed ⟨before, after, hsplit⟩
    refine hpassed (key ++ after) ⟨before, by rw [← hsplit, List.append_assoc]⟩ ?_ ?_
    · simp [hkey]
    · rw [List.append_assoc]
      exact List.prefix_append key _
  suffices hpassed : ∀ passed, (∀ tail, tail <:+ passed → tail ≠ [] → ¬ key <+: tail ++ text) →
      ¬ key <:+: passed ++ replaceAll key value text by
    refine hpassed [] fun tail htail hne => ?_
    exact absurd (List.suffix_nil.mp htail) hne
  induction text using replacement_induction hkey with
  | nil =>
    intro passed hpassed
    rw [replaceAll_nil, List.append_nil]
    exact hclean passed [] hpassed
  | found rest ih =>
    intro passed hpassed
    rw [replaceAll_append hkey]
    refine hseamless.absent (hclean passed _ hpassed) hvalue (ih [] fun tail htail hne => ?_)
    exact absurd (List.suffix_nil.mp htail) hne
  | passed c rest hhere ih =>
    intro passed hpassed
    rw [replaceAll_cons hhere]
    have hnext := ih (passed ++ [c]) fun tail htail hne => ?_
    · simpa using hnext
    · rcases List.suffix_concat_iff.mp htail with rfl | ⟨tail', rfl, htail'⟩
      · exact absurd rfl hne
      · rw [List.append_assoc, List.singleton_append]
        by_cases hempty : tail' = []
        · rw [hempty, List.nil_append]
          exact hhere
        · exact hpassed tail' htail' hempty

theorem seamless_of_disjoint (hvalue : value ≠ []) (hdisjoint : ∀ c ∈ value, c ∉ key) : Seamless key value := by
  intro before after ⟨left, right, hsplit⟩
  rw [List.append_assoc] at hsplit
  rcases List.append_eq_append_iff.mp hsplit with ⟨inner, rfl, hrest⟩ | ⟨inner, rfl, hrest⟩
  · -- The occurrence begins before the value.
    rcases List.append_eq_append_iff.mp hrest with ⟨gap, rfl, -⟩ | ⟨shared, rfl, hshared⟩
    · exact .inl ⟨left, gap, by rw [List.append_assoc]⟩
    · cases shared with
      | nil => exact .inl ⟨left, [], by simp⟩
      | cons c shared =>
        obtain ⟨first, tail, rfl⟩ := List.exists_cons_of_ne_nil hvalue
        obtain rfl : first = c := (List.cons.inj hshared).1
        exact absurd (List.mem_append_right _ List.mem_cons_self) (hdisjoint first List.mem_cons_self)
  · -- It begins in the value or behind it.
    rcases List.append_eq_append_iff.mp hrest with ⟨gap, -, rfl⟩ | ⟨shared, rfl, hshared⟩
    · exact .inr (.inr ⟨gap, right, by rw [List.append_assoc]⟩)
    · cases shared with
      | nil =>
        rw [List.nil_append] at hshared
        exact .inr (.inr ⟨[], right, hshared⟩)
      | cons c shared =>
        cases key with
        | nil => exact .inl List.nil_infix
        | cons first tail =>
          obtain rfl : first = c := (List.cons.inj hshared).1
          exact absurd List.mem_cons_self (hdisjoint first (List.mem_append_right _ List.mem_cons_self))

end Retoken.Text
