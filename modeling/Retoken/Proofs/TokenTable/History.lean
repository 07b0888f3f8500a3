import Mathlib.Data.List.Forall2
import Mathlib.Data.List.TakeDrop
import Mathlib.Data.List.TakeWhile
import Retoken.Proofs.TokenTable.Dictionary

/-!
# Histories of token tables

A token table is changed by setting a token, by an assignment or by the members of a JSON object, and each of these updates may be refused. `Performs` says what an update sets and how it ends, and neither depends on the table. After any history of updates the table records what they have set, one after the other. An update that sets one token sets nothing if it is refused, and an object sets the members before the one that is refused.
-/

namespace Retoken.TokenTable

inductive Update where
  | insert (key value : String)
  | insertAssignment (text : String)
  | insertObject (value : JsonValue)

def keeping (table : TokenTable) : Except TokenError TokenTable → TokenTable × Except TokenError Unit
  | .ok next => (next, .ok ())
  | .error error => (table, .error error)

def update (table : TokenTable) : Update → TokenTable × Except TokenError Unit
  | .insert key value => table.keeping (table.insert key value)
  | .insertAssignment text => table.keeping (table.insertAssignment text)
  | .insertObject value => table.insertObject value

def updateAll (table : TokenTable) : List Update → TokenTable × List (Except TokenError Unit)
  | [] => (table, [])
  | update :: updates =>
    let step := table.update update
    let rest := step.1.updateAll updates
    (rest.1, step.2 :: rest.2)

/-! ### What updates set -/

inductive Gives : JsonValue → String → Prop where
  | string {text : String} : Gives (.string text) text
  | number {text : String} : Gives (.number text) text
  | true : Gives (.bool true) "true"
  | false : Gives (.bool false) "false"

inductive Accepted : String × JsonValue → String × String → Prop where
  | intro {key text : String} {value : JsonValue} (hkey : key ≠ "") (hvalue : Gives value text) :
      Accepted (key, value) (key, text)

inductive Refused : String × JsonValue → TokenError → Prop where
  | null {key : String} : Refused (key, .null) (.unsuitableValue key .null)
  | array {key : String} {items : List JsonValue} : Refused (key, .array items) (.unsuitableValue key .array)
  | object {key : String} {members : List (String × JsonValue)} :
      Refused (key, .object members) (.unsuitableValue key .object)
  | emptyKey {value : JsonValue} {text : String} (hvalue : Gives value text) : Refused ("", value) .emptyKey

/-- What an update sets, in order, and how it ends. -/
inductive Performs : Update → List (String × String) → Except TokenError Unit → Prop where
  | insert {key value : String} (hkey : key ≠ "") : Performs (.insert key value) [(key, value)] (.ok ())
  | insertEmpty {value : String} : Performs (.insert "" value) [] (.error .emptyKey)
  | assignment {key value : String} (hkey : key ≠ "") (hfirst : '=' ∉ key.toList) :
      Performs (.insertAssignment (key ++ "=" ++ value)) [(key, value)] (.ok ())
  | assignmentEmpty {value : String} : Performs (.insertAssignment ("=" ++ value)) [] (.error .emptyKey)
  | noAssignment {text : String} (hnone : '=' ∉ text.toList) :
      Performs (.insertAssignment text) [] (.error (.noAssignment text))
  | members {members : List (String × JsonValue)} {sets : List (String × String)}
      (haccepted : List.Forall₂ Accepted members sets) : Performs (.insertObject (.object members)) sets (.ok ())
  | refused {before after : List (String × JsonValue)} {member : String × JsonValue} {sets : List (String × String)}
      {error : TokenError} (haccepted : List.Forall₂ Accepted before sets) (hrefused : Refused member error) :
      Performs (.insertObject (.object (before ++ member :: after))) sets (.error error)
  | notAnObject {value : JsonValue} (hother : ∀ members, value ≠ .object members) :
      Performs (.insertObject value) [] (.error .notAnObject)

/-- What all updates of a history set, in order, and how each of them ends. -/
inductive History : List Update → List (String × String) → List (Except TokenError Unit) → Prop where
  | nil : History [] [] []
  | cons {update : Update} {updates : List Update} {sets later : List (String × String)}
      {outcome : Except TokenError Unit}
      {outcomes : List (Except TokenError Unit)} (hperforms : Performs update sets outcome)
      (hlater : History updates later outcomes) : History (update :: updates) (sets ++ later) (outcome :: outcomes)

variable {table : TokenTable} {update : Update} {updates : List Update} {key value text : String}
  {members before after : List (String × JsonValue)} {member : String × JsonValue} {set : String × String}
  {sets : List (String × String)} {outcome : Except TokenError Unit} {outcomes : List (Except TokenError Unit)}
  {error : TokenError}

/-! ### Single tokens -/

theorem insert_of_ne (hkey : key ≠ "") (value : String) :
    table.insert key value = .ok ⟨setEntry table.entries (key, value)⟩ := by
  rw [insert, if_neg hkey, hasKey, setEntry]
  split
  case isTrue => rfl
  case isFalse => rfl

theorem splitAssignment?_of_first (hfirst : '=' ∉ key.toList) (value : String) :
    splitAssignment? (key ++ "=" ++ value) = some (key, value) := by
  have hpassed : ∀ c ∈ key.toList, (c != '=') = true := by
    intro c hc
    rw [bne_iff_ne]
    rintro rfl
    exact hfirst hc
  have htext : (key ++ "=" ++ value).toList = key.toList ++ '=' :: value.toList := by
    rw [String.toList_append, String.toList_append, List.append_assoc]
    rfl
  have hspan : (key ++ "=" ++ value).toList.span (· != '=') = (key.toList, '=' :: value.toList) := by
    rw [htext, List.span_eq_takeWhile_dropWhile, List.takeWhile_append_of_pos hpassed,
      List.dropWhile_append_of_pos hpassed]
    simp
  rw [splitAssignment?, hspan]
  simp only [String.ofList_toList]

theorem splitAssignment?_of_none (hnone : '=' ∉ text.toList) : splitAssignment? text = none := by
  have hpassed : ∀ c ∈ text.toList, (c != '=') = true := by
    intro c hc
    rw [bne_iff_ne]
    rintro rfl
    exact hnone hc
  have hspan : text.toList.span (· != '=') = (text.toList, []) := by
    rw [List.span_eq_takeWhile_dropWhile, List.takeWhile_eq_self_iff.mpr hpassed, List.dropWhile_eq_nil_iff.mpr hpassed]
  rw [splitAssignment?, hspan]

/-! ### Members of objects -/

theorem Gives.textOf {value : JsonValue} (hgives : Gives value text) (key : String) : textOf key value = .ok text := by
  cases hgives <;> rfl

theorem Accepted.insertMember (haccepted : Accepted member set) :
    table.insertMember member.1 member.2 = .ok ⟨setEntry table.entries set⟩ := by
  obtain ⟨hkey, hvalue⟩ := haccepted
  rw [TokenTable.insertMember, hvalue.textOf]
  exact insert_of_ne hkey _

theorem Refused.insertMember (hrefused : Refused member error) :
    table.insertMember member.1 member.2 = .error error := by
  cases hrefused with
  | null | array | object => rfl
  | emptyKey hvalue =>
    rw [TokenTable.insertMember, hvalue.textOf]
    rfl

theorem exists_accepted_or_refused (member : String × JsonValue) :
    (∃ set, Accepted member set) ∨ ∃ error, Refused member error := by
  obtain ⟨key, value⟩ := member
  have hgiven : ∀ text, Gives value text → (∃ set, Accepted (key, value) set)
      ∨ ∃ error, Refused (key, value) error := by
    intro text hvalue
    by_cases hkey : key = ""
    · subst hkey
      exact .inr ⟨_, .emptyKey hvalue⟩
    · exact .inl ⟨_, .intro hkey hvalue⟩
  cases value with
  | null => exact .inr ⟨_, .null⟩
  | array items => exact .inr ⟨_, .array⟩
  | object members => exact .inr ⟨_, .object⟩
  | string text => exact hgiven text .string
  | number text => exact hgiven text .number
  | bool shown =>
    cases shown with
    | true => exact hgiven _ .true
    | false => exact hgiven _ .false

theorem insertMembers_accepted (haccepted : List.Forall₂ Accepted before sets) (rest : List (String × JsonValue)) :
    table.insertMembers (before ++ rest) = (⟨sets.foldl setEntry table.entries⟩ : TokenTable).insertMembers rest := by
  induction haccepted generalizing table with
  | nil => rfl
  | @cons member set before sets hmember _ ih =>
    obtain ⟨key, value⟩ := member
    have hinserted : table.insertMember key value = .ok ⟨setEntry table.entries set⟩ := hmember.insertMember
    rw [List.cons_append, insertMembers, hinserted]
    exact ih

/-- The members of an object are accepted up to its end or up to the first that is refused. -/
theorem exists_performs_object (members : List (String × JsonValue)) :
    ∃ sets outcome, Performs (.insertObject (.object members)) sets outcome := by
  suffices hsplit : (∃ sets, List.Forall₂ Accepted members sets)
      ∨ ∃ before member after sets error, members = before ++ member :: after ∧ List.Forall₂ Accepted before sets
        ∧ Refused member error by
    rcases hsplit with ⟨sets, haccepted⟩ | ⟨before, member, after, sets, error, rfl, haccepted, hrefused⟩
    · exact ⟨sets, _, .members haccepted⟩
    · exact ⟨sets, _, .refused haccepted hrefused⟩
  induction members with
  | nil => exact .inl ⟨[], .nil⟩
  | cons member members ih =>
    rcases exists_accepted_or_refused member with ⟨set, hmember⟩ | ⟨error, hrefused⟩
    · rcases ih with ⟨sets, haccepted⟩ | ⟨before, later, after, sets, error, rfl, haccepted, hrefused⟩
      · exact .inl ⟨set :: sets, .cons hmember haccepted⟩
      · exact .inr ⟨member :: before, later, after, set :: sets, error, rfl, .cons hmember haccepted, hrefused⟩
    · exact .inr ⟨[], member, members, [], error, rfl, .nil, hrefused⟩

/-! ### Updates -/

theorem exists_performs (update : Update) : ∃ sets outcome, Performs update sets outcome := by
  cases update with
  | insert key value =>
    by_cases hkey : key = ""
    · subst hkey
      exact ⟨_, _, .insertEmpty⟩
    · exact ⟨_, _, .insert hkey⟩
  | insertAssignment text =>
    by_cases hsign : '=' ∈ text.toList
    · obtain ⟨key, value, htext, hfirst⟩ := List.eq_append_cons_of_mem hsign
      have hsplit : text = String.ofList key ++ "=" ++ String.ofList value := by
        rw [← String.toList_inj, htext]
        simp only [String.toList_append, String.toList_ofList, List.append_assoc]
        rfl
      rw [hsplit]
      by_cases hkey : String.ofList key = ""
      · rw [hkey, String.empty_append]
        exact ⟨_, _, .assignmentEmpty⟩
      · exact ⟨_, _, .assignment hkey (by rwa [String.toList_ofList])⟩
    · exact ⟨_, _, .noAssignment hsign⟩
  | insertObject value =>
    cases value with
    | object members => exact exists_performs_object members
    | null | bool | number | string | array => exact ⟨_, _, .notAnObject (by rintro _ ⟨⟩)⟩

theorem Performs.update_eq (hperforms : Performs update sets outcome) (table : TokenTable) :
    table.update update = (⟨sets.foldl setEntry table.entries⟩, outcome) := by
  cases hperforms with
  | insert hkey =>
    rw [TokenTable.update, insert_of_ne hkey]
    rfl
  | insertEmpty => rfl
  | @assignment key value hkey hfirst =>
    rw [TokenTable.update, TokenTable.insertAssignment, splitAssignment?_of_first hfirst]
    dsimp only
    rw [insert_of_ne hkey]
    rfl
  | @assignmentEmpty value =>
    have hsplit : splitAssignment? ("" ++ "=" ++ value) = some ("", value) :=
      splitAssignment?_of_first (by decide) value
    rw [String.empty_append] at hsplit
    rw [TokenTable.update, TokenTable.insertAssignment, hsplit]
    rfl
  | noAssignment hnone =>
    rw [TokenTable.update, TokenTable.insertAssignment, splitAssignment?_of_none hnone]
    rfl
  | @members members sets haccepted =>
    have hinserted : table.insertMembers (members ++ []) = (⟨sets.foldl setEntry table.entries⟩, .ok ()) :=
      insertMembers_accepted haccepted []
    rw [List.append_nil] at hinserted
    exact hinserted
  | @refused before after member sets error haccepted hrefused =>
    obtain ⟨key, value⟩ := member
    have hfails : ∀ table : TokenTable, table.insertMember key value = .error error :=
      fun table => hrefused.insertMember
    -- The members before the refused one stay in the table.
    refine (insertMembers_accepted haccepted ((key, value) :: after)).trans ?_
    rw [insertMembers, hfails]
  | notAnObject hother =>
    rename_i value
    cases value with
    | object members => exact absurd rfl (hother members)
    | null | bool | number | string | array => rfl

theorem Performs.ne_empty (hperforms : Performs update sets outcome) : ∀ set ∈ sets, set.1 ≠ "" := by
  have haccepted : ∀ {members : List (String × JsonValue)} {sets : List (String × String)},
      List.Forall₂ Accepted members sets → ∀ set ∈ sets, set.1 ≠ "" := by
    intro members sets haccepted
    induction haccepted with
    | nil => exact List.forall_mem_nil _
    | cons hmember _ ih =>
      obtain ⟨hkey, -⟩ := hmember
      exact List.forall_mem_cons.mpr ⟨hkey, ih⟩
  cases hperforms with
  | insert hkey | assignment hkey => exact List.forall_mem_singleton.mpr hkey
  | members hmembers | refused hmembers => exact haccepted hmembers
  | insertEmpty | assignmentEmpty | noAssignment | notAnObject => exact List.forall_mem_nil _

/-- An update of one token that is refused leaves the table as it was. -/
theorem keeps_of_refused (herror : (table.update update).2 = .error error)
    (hone : ∀ value, update ≠ .insertObject value) :
    (table.update update).1 = table := by
  have hkeeping : ∀ result, (table.keeping result).2 = .error error → (table.keeping result).1 = table := by
    intro result hresult
    cases result with
    | ok next => cases hresult
    | error error => rfl
  cases update with
  | insert key value => exact hkeeping _ herror
  | insertAssignment text => exact hkeeping _ herror
  | insertObject value => exact absurd rfl (hone value)

/-! ### Histories -/

theorem exists_history (updates : List Update) : ∃ sets outcomes, History updates sets outcomes := by
  induction updates with
  | nil => exact ⟨_, _, .nil⟩
  | cons update updates ih =>
    obtain ⟨sets, outcome, hperforms⟩ := exists_performs update
    obtain ⟨later, outcomes, hlater⟩ := ih
    exact ⟨_, _, .cons hperforms hlater⟩

theorem History.updateAll_eq (hhistory : History updates sets outcomes) (table : TokenTable) :
    table.updateAll updates = (⟨sets.foldl setEntry table.entries⟩, outcomes) := by
  induction hhistory generalizing table with
  | nil => rfl
  | cons hperforms _ ih => rw [updateAll, hperforms.update_eq table, ih, List.foldl_append]

/-- After a history the table records what the updates have set. -/
theorem History.records (hhistory : History updates sets outcomes) :
    Records sets (empty.updateAll updates).1.entries := by
  rw [hhistory.updateAll_eq]
  exact Records.nil.foldl sets

theorem History.ne_empty (hhistory : History updates sets outcomes) : ∀ set ∈ sets, set.1 ≠ "" := by
  induction hhistory with
  | nil => exact List.forall_mem_nil _
  | cons hperforms _ ih => exact List.forall_mem_append.mpr ⟨hperforms.ne_empty, ih⟩

theorem History.entries_ne_empty (hhistory : History updates sets outcomes) :
    ∀ entry ∈ (empty.updateAll updates).1.entries, entry.1 ≠ "" := by
  intro entry hentry
  obtain ⟨set, hset, hkey⟩ := hhistory.records.exists_of_mem hentry
  rw [← hkey]
  exact hhistory.ne_empty set hset

theorem updateAll_append (first later : List Update) (table : TokenTable) :
    table.updateAll (first ++ later)
      = (((table.updateAll first).1.updateAll later).1,
        (table.updateAll first).2 ++ ((table.updateAll first).1.updateAll later).2) := by
  induction first generalizing table with
  | nil => rfl
  | cons update first ih => rw [List.cons_append, updateAll, updateAll, ih, List.cons_append]

end Retoken.TokenTable
