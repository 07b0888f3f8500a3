import Mathlib.Data.List.Induction
import Mathlib.Data.List.Nodup
import Retoken.Json.Basic
import Retoken.TokenTable

/-!
# Dictionaries in the order of insertion

Token tables and the members of JSON objects are dictionaries of one kind: a key that is set again keeps its place and takes the new value, and a new key goes to the end. `Records` says what such a dictionary knows of all that was set in it. Its keys are those that were set, in the order in which each was set first, and the value of a key is the one it was set to last.
-/

namespace Retoken

variable {β : Type} {entries sets : List (String × β)} {set : String × β} {key : String} {value : β}

def setEntry (entries : List (String × β)) (set : String × β) : List (String × β) :=
  if entries.any (·.1 == set.1) then entries.map fun entry => if entry.1 == set.1 then set else entry
  else entries ++ [set]

/-- Whether the entries are what is left of a series of settings. -/
structure Records (sets entries : List (String × β)) : Prop where
  distinct : (entries.map Prod.fst).Nodup
  keys : entries.map Prod.fst = (sets.map Prod.fst).eraseDups
  values : ∀ key, entries.lookup key = sets.reverse.lookup key

theorem any_key_eq_true : entries.any (·.1 == key) = true ↔ key ∈ entries.map Prod.fst := by
  simp [List.any_eq_true, List.mem_map]

theorem keys_setEntry (entries : List (String × β)) (set : String × β) : (setEntry entries set).map Prod.fst
    = if set.1 ∈ entries.map Prod.fst then entries.map Prod.fst else entries.map Prod.fst ++ [set.1] := by
  rw [setEntry, if_congr any_key_eq_true rfl rfl]
  split
  case isTrue =>
    rw [List.map_map]
    refine List.map_congr_left fun entry _ => ?_
    by_cases hkey : entry.1 = set.1
    · simp [hkey]
    · simp [hkey]
  case isFalse => rw [List.map_append, List.map_singleton]

theorem lookup_eq_none (habsent : key ∉ entries.map Prod.fst) : entries.lookup key = none := by
  rw [List.lookup_eq_none_iff]
  intro entry hentry
  rw [bne_iff_ne]
  rintro rfl
  exact habsent (List.mem_map_of_mem hentry)

theorem lookup_entry (name : String) (value : β) (entries : List (String × β)) (key : String) :
    ((name, value) :: entries).lookup key = if key = name then some value else entries.lookup key := by
  rw [List.lookup_cons]
  by_cases hkey : key = name
  · rw [if_pos hkey, beq_iff_eq.mpr hkey]
  · rw [if_neg hkey, beq_eq_false_iff_ne.mpr hkey]

theorem lookup_replaced (entries : List (String × β)) (set : String × β) (key : String) :
    (entries.map fun entry => if entry.1 == set.1 then set else entry).lookup key
      = if key = set.1 then (entries.lookup key).map fun _ => set.2 else entries.lookup key := by
  induction entries with
  | nil => simp
  | cons entry entries ih =>
    obtain ⟨name, value⟩ := entry
    obtain ⟨setName, setValue⟩ := set
    rw [List.map_cons, lookup_entry]
    by_cases hname : name = setName
    · rw [if_pos (beq_iff_eq.mpr hname), lookup_entry, ih, hname]
      by_cases hkey : key = setName
      · simp only [if_pos hkey, Option.map_some]
      · simp only [if_neg hkey]
    · rw [if_neg (mt beq_iff_eq.mp hname), lookup_entry, ih]
      by_cases hkey : key = name
      · rw [if_pos hkey, if_pos hkey, hkey, if_neg hname]
      · rw [if_neg hkey, if_neg hkey]

theorem lookup_setEntry (entries : List (String × β)) (set : String × β) (key : String) :
    (setEntry entries set).lookup key = if key = set.1 then some set.2 else entries.lookup key := by
  rw [setEntry]
  by_cases hpresent : entries.any (·.1 == set.1) = true
  · rw [if_pos hpresent, lookup_replaced]
    refine if_ctx_congr Iff.rfl (fun hkey => ?_) fun _ => rfl
    obtain ⟨entry, hentry, hname⟩ := List.any_eq_true.mp hpresent
    have hfound : (entries.lookup key).isSome = true := by
      rw [List.lookup_isSome_iff]
      exact ⟨entry, hentry, beq_iff_eq.mpr (hkey.trans (beq_iff_eq.mp hname).symm)⟩
    obtain ⟨value, hvalue⟩ := Option.isSome_iff_exists.mp hfound
    rw [hvalue, Option.map_some]
  · have habsent : set.1 ∉ entries.map Prod.fst := fun hmem => hpresent (any_key_eq_true.mpr hmem)
    rw [if_neg hpresent, List.lookup_append, lookup_entry]
    by_cases hkey : key = set.1
    · rw [if_pos hkey, if_pos hkey, hkey, lookup_eq_none habsent, Option.none_or]
    · rw [if_neg hkey, if_neg hkey, List.lookup_nil, Option.or_none]

theorem Records.nil : Records ([] : List (String × β)) [] :=
  ⟨List.nodup_nil, rfl, fun _ => rfl⟩

theorem Records.concat (hrecords : Records sets entries) (set : String × β) :
    Records (sets ++ [set]) (setEntry entries set) where
  distinct := by
    rw [keys_setEntry]
    split
    case isTrue => exact hrecords.distinct
    case isFalse habsent =>
      rw [← List.concat_eq_append]
      exact hrecords.distinct.concat habsent
  keys := by
    have hmem : set.1 ∈ entries.map Prod.fst ↔ set.1 ∈ sets.map Prod.fst := by
      rw [hrecords.keys, List.mem_eraseDups]
    rw [keys_setEntry, if_congr hmem rfl rfl, List.map_append, List.eraseDups_append, List.map_singleton, hrecords.keys]
    split
    case isTrue hset => simp [List.removeAll, hset]
    case isFalse hset => simp [List.removeAll, List.eraseDups_cons, hset]
  values := by
    intro key
    rw [lookup_setEntry, hrecords.values, List.reverse_append, List.reverse_singleton,
      List.singleton_append, lookup_entry]

theorem Records.foldl (hrecords : Records sets entries) (more : List (String × β)) :
    Records (sets ++ more) (more.foldl setEntry entries) := by
  induction more generalizing sets entries with
  | nil => rwa [List.append_nil]
  | cons set more ih =>
    rw [List.append_cons]
    exact ih (hrecords.concat set)

theorem Records.exists_of_mem (hrecords : Records sets entries) {entry : String × β} (hentry : entry ∈ entries) :
    ∃ set ∈ sets, set.1 = entry.1 := by
  have hkey := List.mem_map_of_mem (f := Prod.fst) hentry
  rw [hrecords.keys, List.mem_eraseDups] at hkey
  exact List.mem_map.mp hkey

/-- A JSON object records the members of its document. -/
theorem JsonValue.exists_ofMembers (members : List (String × JsonValue)) :
    ∃ kept, JsonValue.ofMembers members = .object kept ∧ Records members kept :=
  ⟨members.foldl setEntry [], rfl, Records.nil.foldl members⟩

end Retoken
