import Retoken.Proofs.Text.Replacement
import Retoken.TokenTable

/-!
# Substituting tokens

The entries of a token table are applied to a text one after the other, and each leads to the text in which all occurrences of its key are replaced. The last of these stages is the result, and a change is reported exactly if some stage differs from the text at the beginning. An entry whose key does not occur may be passed over.

No change is reported exactly if every entry by itself leaves the text as it is. After all entries no key is left, provided that a key cannot come about again: neither inside of a value nor across an edge of one that is put in by its own entry or a later one. If the values have no character of a key, nothing else is asked.
-/

namespace Retoken.TokenTable

open Text

variable {table : TokenTable} {text : String} {start reached : List Char} {entries : List (String × String)}

/-! ### Reported changes -/

theorem foldl_applyEntry_changed : (entries.foldl (applyEntry start) (reached, true)).2 = true := by
  induction entries generalizing reached with
  | nil => rfl
  | cons entry entries ih =>
    rw [List.foldl_cons, applyEntry, Bool.true_or]
    exact ih

theorem foldl_applyEntry_of_fixed
    (hfixed : ∀ entry ∈ entries, replaceAll entry.1.toList entry.2.toList start = start) :
    entries.foldl (applyEntry start) (start, false) = (start, false) := by
  induction entries with
  | nil => rfl
  | cons entry entries ih =>
    have hstep : applyEntry start (start, false) entry = (start, false) := by
      simp [applyEntry, hfixed entry List.mem_cons_self]
    rw [List.foldl_cons, hstep]
    exact ih fun other hother => hfixed other (List.mem_cons_of_mem _ hother)

theorem fixed_of_foldl_applyEntry (hunchanged : (entries.foldl (applyEntry start) (start, false)).2 = false) :
    ∀ entry ∈ entries, replaceAll entry.1.toList entry.2.toList start = start := by
  induction entries with
  | nil =>
    intro entry hentry
    cases hentry
  | cons entry entries ih =>
    rw [List.foldl_cons] at hunchanged
    have hstep : replaceAll entry.1.toList entry.2.toList start = start := by
      by_contra hmoved
      have hflag : applyEntry start (start, false) entry = (replaceAll entry.1.toList entry.2.toList start, true) := by
        simp [applyEntry, hmoved]
      rw [hflag, foldl_applyEntry_changed] at hunchanged
      cases hunchanged
    have hstay : applyEntry start (start, false) entry = (start, false) := by
      simp [applyEntry, hstep]
    rw [hstay] at hunchanged
    intro other hother
    rcases List.mem_cons.mp hother with rfl | hmem
    · exact hstep
    · exact ih hunchanged other hmem

/-- No change is reported exactly if no entry by itself changes the text. -/
theorem unchanged_iff_fixed : (table.substitute text).2 = false
    ↔ ∀ entry ∈ table.entries, replaceAll entry.1.toList entry.2.toList text.toList = text.toList := by
  constructor
  · exact fixed_of_foldl_applyEntry
  · intro hfixed
    exact congrArg Prod.snd (foldl_applyEntry_of_fixed hfixed)

/-- A text that was not reported as changed is as it was. The converse fails: a later entry may lead back to it. -/
theorem fst_substitute_of_unchanged (hunchanged : (table.substitute text).2 = false) :
    (table.substitute text).1 = text := by
  have hreached := foldl_applyEntry_of_fixed (unchanged_iff_fixed.mp hunchanged)
  show String.ofList (table.entries.foldl (applyEntry text.toList) (text.toList, false)).1 = text
  rw [hreached, String.ofList_toList]

/-! ### Keys -/

def KeysAbsent (table : TokenTable) (text : String) : Prop :=
  ∀ entry ∈ table.entries, ¬ entry.1.toList <:+: text.toList

def ValuesFree (table : TokenTable) : Prop :=
  ∀ entry ∈ table.entries, table.KeysAbsent entry.2

/-- Whether no key can occur across an edge of a value that is put in by its own entry or a later one. -/
def JoinFree (table : TokenTable) : Prop :=
  table.entries.Pairwise (fun earlier later => Text.Seamless earlier.1.toList later.2.toList)
    ∧ ∀ entry ∈ table.entries, Text.Seamless entry.1.toList entry.2.toList

instance (table : TokenTable) (text : String) : Decidable (table.KeysAbsent text) :=
  inferInstanceAs (Decidable (∀ entry ∈ table.entries, ¬ entry.1.toList <:+: text.toList))

instance (table : TokenTable) : Decidable table.ValuesFree :=
  inferInstanceAs (Decidable (∀ entry ∈ table.entries, table.KeysAbsent entry.2))

theorem ValuesFree.key_ne_nil (hvalues : table.ValuesFree) {entry : String × String} (hentry : entry ∈ table.entries) :
    entry.1.toList ≠ [] := by
  intro hnil
  have habsent := hvalues entry hentry entry hentry
  rw [hnil] at habsent
  exact habsent List.nil_infix

theorem unchanged_iff_absent (hvalues : table.ValuesFree) :
    (table.substitute text).2 = false ↔ table.KeysAbsent text := by
  rw [unchanged_iff_fixed]
  constructor
  · intro hfixed entry hentry
    exact absent_of_replaceAll_eq (hvalues entry hentry entry hentry) (hfixed entry hentry)
  · intro habsent entry hentry
    exact replaceAll_of_absent (habsent entry hentry)

/-- An entry removes its own key and brings back none of the keys before it. -/
theorem foldl_applyEntry_absent {flag : Bool} {done : List (String × String)}
    (hvalues : (⟨done ++ entries⟩ : TokenTable).ValuesFree)
    (hjoinFree : (⟨done ++ entries⟩ : TokenTable).JoinFree) (habsent : ∀ entry ∈ done, ¬ entry.1.toList <:+: reached) :
    ∀ entry ∈ done ++ entries, ¬ entry.1.toList <:+: (entries.foldl (applyEntry start) (reached, flag)).1 := by
  induction entries generalizing done reached flag with
  | nil =>
    intro entry hentry
    rw [List.append_nil] at hentry
    exact habsent entry hentry
  | cons entry entries ih =>
    have hmem : entry ∈ done ++ entry :: entries := List.mem_append_right _ List.mem_cons_self
    have hkey := hvalues.key_ne_nil hmem
    have hpairs := (List.pairwise_append.mp hjoinFree.1).2.2
    have hnext : ∀ other ∈ done ++ [entry],
        ¬ other.1.toList <:+: replaceAll entry.1.toList entry.2.toList reached := by
      intro other hother
      rcases List.mem_append.mp hother with hdone | hself
      · have hfree := hvalues entry hmem other (List.mem_append_left _ hdone)
        exact replaceAll_absent hkey (hpairs other hdone entry List.mem_cons_self) hfree (habsent other hdone)
      · obtain rfl := List.mem_singleton.mp hself
        exact replaceAll_absent_self (hjoinFree.2 other hmem) (hvalues other hmem other hmem) reached
    rw [List.foldl_cons, applyEntry]
    rw [List.append_cons] at hvalues hjoinFree ⊢
    exact ih hvalues hjoinFree hnext

/-- After all entries no key is left. -/
theorem absent_substitute (hvalues : table.ValuesFree) (hjoinFree : table.JoinFree) (text : String) :
    table.KeysAbsent (table.substitute text).1 := by
  intro entry hentry
  show ¬ entry.1.toList <:+:
    (String.ofList (table.entries.foldl (applyEntry text.toList) (text.toList, false)).1).toList
  rw [String.toList_ofList]
  have hnone : ∀ other ∈ ([] : List (String × String)), ¬ other.1.toList <:+: text.toList :=
    fun other hother => absurd hother List.not_mem_nil
  have hall : (⟨[] ++ table.entries⟩ : TokenTable).ValuesFree := hvalues
  exact foldl_applyEntry_absent hall hjoinFree hnone entry hentry

/-- After all entries no key is left if every value has something in it, but no character of any key. -/
theorem absent_substitute_of_disjoint (hkeys : ∀ entry ∈ table.entries, entry.1 ≠ "")
    (hvalues : ∀ entry ∈ table.entries, entry.2 ≠ "")
    (hdisjoint : ∀ entry ∈ table.entries, ∀ other ∈ table.entries, ∀ c ∈ entry.2.toList, c ∉ other.1.toList)
    (text : String) :
    table.KeysAbsent (table.substitute text).1 := by
  have hseamless : ∀ entry ∈ table.entries, ∀ other ∈ table.entries, Text.Seamless other.1.toList entry.2.toList := by
    intro entry hentry other hother
    have hvalue : entry.2.toList ≠ [] := mt String.toList_eq_nil_iff.mp (hvalues entry hentry)
    exact seamless_of_disjoint hvalue (hdisjoint entry hentry other hother)
  have hfree : table.ValuesFree := by
    intro entry hentry other hother hoccurs
    have hkey : other.1.toList ≠ [] := mt String.toList_eq_nil_iff.mp (hkeys other hother)
    obtain ⟨c, hc⟩ := List.exists_mem_of_ne_nil _ hkey
    exact hdisjoint entry hentry other hother c (hoccurs.subset hc) hc
  have hjoinFree : table.JoinFree := by
    constructor
    · exact List.pairwise_of_forall_mem_list fun earlier hearlier later hlater =>
        hseamless later hlater earlier hearlier
    · exact fun entry hentry => hseamless entry hentry entry hentry
  exact absent_substitute hfree hjoinFree text

/-- Keys that overlap themselves and contain one another. -/
theorem absent_substitute_of_disjoint_nestedKeys :
    let table : TokenTable := ⟨[("ab", "-"), ("aabb", "+"), ("aa", "*-")]⟩
    table.substitute "aaabbaab" = ("*--ba-", true) ∧ table.KeysAbsent "*--ba-" := by
  intro table
  have hresult : table.substitute "aaabbaab" = ("*--ba-", true) := by decide +kernel
  have hdisjoint : ∀ entry ∈ table.entries, ∀ other ∈ table.entries, ∀ c ∈ entry.2.toList, c ∉ other.1.toList := by
    simp [table]
  have habsent := absent_substitute_of_disjoint (by decide) (by decide) hdisjoint "aaabbaab"
  rw [hresult] at habsent
  exact ⟨hresult, habsent⟩

/-! ### Stages -/

/-- The texts that the entries lead to one after the other. In each of them the occurrences of a key in the text before are replaced. -/
inductive Stages : List (String × String) → String → List String → Prop where
  | nil {text : String} : Stages [] text []
  | cons {key value text next : String} {entries : List (String × String)} {stages : List String}
      (hnext : Text.Replaced key.toList value.toList text.toList next.toList) (hrest : Stages entries next stages) :
      Stages ((key, value) :: entries) text (next :: stages)

theorem exists_stages (hkeys : ∀ entry ∈ entries, entry.1 ≠ "") (text : String) :
    ∃ stages, Stages entries text stages := by
  induction entries generalizing text with
  | nil => exact ⟨[], .nil⟩
  | cons entry entries ih =>
    have hkey : entry.1.toList ≠ [] := mt String.toList_eq_nil_iff.mp (hkeys entry List.mem_cons_self)
    let next := String.ofList (replaceAll entry.1.toList entry.2.toList text.toList)
    obtain ⟨stages, hstages⟩ := ih (fun other hother => hkeys other (List.mem_cons_of_mem _ hother)) next
    refine ⟨next :: stages, .cons ?_ hstages⟩
    rw [String.toList_ofList]
    exact replaced_replaceAll hkey text.toList

theorem Stages.foldl_applyEntry {stages : List String} (hstages : Stages entries text stages)
    (hkeys : ∀ entry ∈ entries, entry.1 ≠ "") (flag : Bool) :
    entries.foldl (applyEntry start) (text.toList, flag)
      = ((stages.getLastD text).toList, flag || stages.any (·.toList != start)) := by
  induction hstages generalizing flag with
  | nil => simp
  | @cons key value text next entries stages hnext _ ih =>
    have hkey : key.toList ≠ [] := mt String.toList_eq_nil_iff.mp (hkeys (key, value) List.mem_cons_self)
    have hreached : applyEntry start (text.toList, flag) (key, value)
        = (next.toList, flag || next.toList != start) := by
      rw [applyEntry, ← hnext.eq_replaceAll hkey]
    rw [List.foldl_cons, hreached, ih fun other hother => hkeys other (List.mem_cons_of_mem _ hother),
      List.getLastD_cons, List.any_cons, Bool.or_assoc]

theorem Stages.unique {stages others : List String} (hstages : Stages entries text stages)
    (hothers : Stages entries text others) (hkeys : ∀ entry ∈ entries, entry.1 ≠ "") : stages = others := by
  induction hstages generalizing others with
  | nil =>
    cases hothers
    rfl
  | cons hnext _ ih =>
    cases hothers with
    | cons hnext' hrest =>
      have hkey := mt String.toList_eq_nil_iff.mp (hkeys _ List.mem_cons_self)
      have hsame := (hnext.eq_replaceAll hkey).trans (hnext'.eq_replaceAll hkey).symm
      obtain rfl := String.toList_inj.mp hsame
      rw [ih hrest fun other hother => hkeys other (List.mem_cons_of_mem _ hother)]

def applyOccurring (start : List Char) (reached : List Char × Bool) (entry : String × String) : List Char × Bool :=
  if entry.1.toList <:+: reached.1 then applyEntry start reached entry else reached

def substituteOccurring (table : TokenTable) (text : String) : String × Bool :=
  let (reached, changed) := table.entries.foldl (applyOccurring text.toList) (text.toList, false)
  (String.ofList reached, changed)

/-- Passing over entries loses no change, since the text reached differs from the one at the beginning only if that was seen. -/
theorem foldl_applyOccurring {flag : Bool} (hseen : reached ≠ start → flag = true) :
    entries.foldl (applyOccurring start) (reached, flag) = entries.foldl (applyEntry start) (reached, flag) := by
  induction entries generalizing reached flag with
  | nil => rfl
  | cons entry entries ih =>
    rw [List.foldl_cons, List.foldl_cons, applyOccurring]
    by_cases hoccurs : entry.1.toList <:+: reached
    · rw [if_pos hoccurs, applyEntry]
      apply ih
      intro hmoved
      simp [hmoved]
    · have hstay : applyEntry start (reached, flag) entry = (reached, flag) := by
        rw [applyEntry, replaceAll_of_absent hoccurs]
        by_cases hmoved : reached = start
        · simp [hmoved]
        · simp [hseen hmoved]
      rw [if_neg hoccurs, hstay]
      exact ih hseen

theorem substitute_of_absent (habsent : table.KeysAbsent text) : table.substitute text = (text, false) := by
  have hfixed : ∀ entry ∈ table.entries, Text.replaceAll entry.1.toList entry.2.toList text.toList = text.toList :=
    fun entry hentry => replaceAll_of_absent (habsent entry hentry)
  rw [substitute, foldl_applyEntry_of_fixed hfixed]
  exact congrArg (·, false) String.ofList_toList

/-- Substitution leads to the last stage and reports a change exactly if some stage differs from the text. -/
theorem substitute_stages (hkeys : ∀ entry ∈ table.entries, entry.1 ≠ "") (text : String) :
    ∃ stages, (∀ others, Stages table.entries text others ↔ others = stages)
      ∧ (table.substitute text).1 = stages.getLastD text
      ∧ ((table.substitute text).2 = true ↔ ∃ stage ∈ stages, stage ≠ text)
      ∧ table.substitute text = table.substituteOccurring text
      ∧ ((table.substitute text).2 = false → (table.substitute text).1 = text)
      ∧ (table.KeysAbsent text → table.substitute text = (text, false)) := by
  obtain ⟨stages, hstages⟩ := exists_stages hkeys text
  have hresult : table.substitute text = (stages.getLastD text, stages.any (·.toList != text.toList)) := by
    rw [substitute, hstages.foldl_applyEntry hkeys false, Bool.false_or]
    exact congrArg (·, _) String.ofList_toList
  refine ⟨stages, fun others => ⟨fun hothers => hothers.unique hstages hkeys, ?_⟩, ?_, ?_, ?_,
    fst_substitute_of_unchanged, substitute_of_absent⟩
  · rintro rfl
    exact hstages
  · rw [hresult]
  · rw [hresult]
    simp [List.any_eq_true, String.toList_inj]
  · rw [substitute, substituteOccurring, foldl_applyOccurring fun hmoved => absurd rfl hmoved]

/-- The key of the first entry overlaps itself, and the second entry leads back to the text. -/
theorem substitute_stages_restored :
    let table : TokenTable := ⟨[("aa", "b"), ("b", "aa")]⟩
    Stages table.entries "aaa" ["ba", "aaa"] ∧ table.substitute "aaa" = ("aaa", true) := by
  intro table
  have hkeys : ∀ entry ∈ table.entries, entry.1 ≠ "" := by decide
  have hfirst : Replaced "aa".toList "b".toList "aaa".toList "ba".toList := (replaced_iff (by decide)).mpr (by decide)
  have hsecond : Replaced "b".toList "aa".toList "ba".toList "aaa".toList := (replaced_iff (by decide)).mpr (by decide)
  have hstages : Stages table.entries "aaa" ["ba", "aaa"] := .cons hfirst (.cons hsecond .nil)
  obtain ⟨stages, hunique, htext, hchanged, -⟩ := substitute_stages hkeys "aaa"
  obtain rfl := (hunique _).mp hstages
  exact ⟨hstages, Prod.ext htext (hchanged.mpr ⟨"ba", List.mem_cons_self, by decide⟩)⟩

end Retoken.TokenTable
