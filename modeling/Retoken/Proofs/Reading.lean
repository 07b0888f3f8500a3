import Retoken.ClassFile.Cursor
import Mathlib.Data.List.Perm.Subperm

/-!
# Runs of readers

A run of a reader leads from one cursor to a later one of the same file. This module says what a successful run of each primitive reader means for the bytes between the two cursors, and how the run of a sequence or of a repetition is put together from the runs of its parts. Everything proved about a reader elsewhere goes through these equations, so no other module opens a reader monad.
-/

namespace Retoken

theorem except_bind_eq_ok {ε α β : Type} {first : Except ε α} {next : α → Except ε β} {b : β} :
    (first >>= next) = .ok b ↔ ∃ a, first = .ok a ∧ next a = .ok b := by
  cases first with
  | error e => simp [bind, Except.bind]
  | ok a => simp [bind, Except.bind]

theorem except_map_eq_ok {ε α β : Type} {f : α → β} {result : Except ε α} {b : β} :
    (f <$> result) = .ok b ↔ ∃ a, result = .ok a ∧ f a = b := by
  cases result with
  | error e => simp [Functor.map, Except.map]
  | ok a => simp [Functor.map, Except.map]

theorem except_bind_eq_error {ε α β : Type} {first : Except ε α} {next : α → Except ε β} {error : ε} :
    (first >>= next) = .error error ↔ first = .error error ∨ ∃ a, first = .ok a ∧ next a = .error error := by
  cases first with
  | error other => simp [bind, Except.bind]
  | ok a => simp [bind, Except.bind]

theorem except_map_eq_error {ε α β : Type} {f : α → β} {result : Except ε α} {error : ε} :
    result.map f = .error error ↔ result = .error error := by
  cases result <;> simp [Except.map]

theorem mapM_cons_eq_ok {ε α β : Type} {f : α → Except ε β} {a : α} {items : List α} {results : List β} :
    (a :: items).mapM f = .ok results
      ↔ ∃ b rest, f a = .ok b ∧ items.mapM f = .ok rest ∧ results = b :: rest := by
  rw [List.mapM_cons, except_bind_eq_ok]
  simp only [except_bind_eq_ok]
  constructor
  · rintro ⟨b, hb, rest, hrest, hpure⟩
    cases hpure
    exact ⟨b, rest, hb, hrest, rfl⟩
  · rintro ⟨b, rest, hb, hrest, rfl⟩
    exact ⟨b, hb, rest, hrest, rfl⟩

theorem forall_of_mapM_eq_ok {ε α β : Type} {f : α → Except ε β} {items : List α} {results : List β}
    (hrun : items.mapM f = .ok results) : ∀ a ∈ items, ∃ b, f a = .ok b := by
  induction items generalizing results with
  | nil => exact fun _ hmem => absurd hmem List.not_mem_nil
  | cons a items ih =>
    obtain ⟨b, rest, hb, hrest, -⟩ := mapM_cons_eq_ok.mp hrun
    exact List.forall_mem_cons.mpr ⟨⟨b, hb⟩, ih hrest⟩

theorem mapM_map_eq_ok {ε α β : Type} {f f' : α → Except ε β} {g : α → α} {h : β → β} {items : List α}
    {results : List β} (hrun : items.mapM f = .ok results)
    (hitem : ∀ a ∈ items, ∀ b, f a = .ok b → f' (g a) = .ok (h b)) :
    (items.map g).mapM f' = .ok (results.map h) := by
  induction items generalizing results with
  | nil =>
    cases hrun
    rfl
  | cons a items ih =>
    obtain ⟨b, rest, hb, hrest, rfl⟩ := mapM_cons_eq_ok.mp hrun
    refine mapM_cons_eq_ok.mpr ⟨h b, rest.map h, hitem a List.mem_cons_self b hb, ?_, rfl⟩
    exact ih hrest fun a' ha' => hitem a' (List.mem_cons_of_mem a ha')

/-- What the results hold comes from the items. -/
theorem mapM_flatMap_subperm {ε α β γ : Type} {f : α → Except ε β} (contents : α → List γ)
    (contents' : β → List γ) {items : List α} {results : List β} (hrun : items.mapM f = .ok results)
    (hitem : ∀ a ∈ items, ∀ b, f a = .ok b → (contents' b).Subperm (contents a)) :
    (results.flatMap contents').Subperm (items.flatMap contents) := by
  induction items generalizing results with
  | nil =>
    cases hrun
    exact List.nil_subperm
  | cons a items ih =>
    obtain ⟨b, rest, hb, hrest, rfl⟩ := mapM_cons_eq_ok.mp hrun
    rw [List.flatMap_cons, List.flatMap_cons]
    exact (hitem a List.mem_cons_self b hb).append
      (ih hrest fun a' ha' => hitem a' (List.mem_cons_of_mem a ha'))

theorem exists_of_mem_mapM {ε α β : Type} {f : α → Except ε β} {items : List α} {results : List β}
    (hrun : items.mapM f = .ok results) {b : β} (hb : b ∈ results) : ∃ a ∈ items, f a = .ok b := by
  induction items generalizing results with
  | nil =>
    cases hrun
    cases hb
  | cons a items ih =>
    obtain ⟨b', rest, hb', hrest, rfl⟩ := mapM_cons_eq_ok.mp hrun
    rcases List.mem_cons.mp hb with rfl | hmem
    · exact ⟨a, List.mem_cons_self, hb'⟩
    · obtain ⟨a', ha', hresult⟩ := ih hrest hmem
      exact ⟨a', List.mem_cons_of_mem a ha', hresult⟩

theorem filterMap_singleton {α β : Type} (f : α → Option β) (a : α) : [a].filterMap f = (f a).toList := by
  rw [List.filterMap_cons]
  cases f a <;> rfl

namespace Cursor

def Reaches (start stop : Cursor) : Prop :=
  ∃ bytes, start.rest = bytes ++ stop.rest ∧ stop.position = start.position + bytes.length

def finish (cursor : Cursor) : Nat :=
  cursor.position + cursor.rest.length

variable {start middle stop : Cursor}

theorem Reaches.refl (cursor : Cursor) : cursor.Reaches cursor :=
  ⟨[], rfl, rfl⟩

theorem Reaches.trans (hfirst : start.Reaches middle) (hsecond : middle.Reaches stop) :
    start.Reaches stop := by
  obtain ⟨first, hfirstRest, hfirstPosition⟩ := hfirst
  obtain ⟨second, hsecondRest, hsecondPosition⟩ := hsecond
  refine ⟨first ++ second, ?_, ?_⟩
  · rw [hfirstRest, hsecondRest, List.append_assoc]
  · rw [hsecondPosition, hfirstPosition, List.length_append, Nat.add_assoc]

/-- All cursors of one run see the same end of the file. -/
theorem Reaches.finish_eq (hreaches : start.Reaches stop) : stop.finish = start.finish := by
  obtain ⟨bytes, hrest, hposition⟩ := hreaches
  rw [finish, finish, hrest, List.length_append]
  omega

theorem Reaches.le_finish (hreaches : start.Reaches stop) : stop.position ≤ start.finish := by
  rw [← hreaches.finish_eq, finish]
  omega

end Cursor

namespace Reader

open BigEndian

variable {α β : Type} {first item : Reader α} {next : α → Reader β} {start middle stop : Cursor}

/-! ### Sequences -/

theorem run_bind {a : α} (hfirst : first start = .ok (a, middle)) :
    (first >>= next) start = next a middle := by
  simp only [bind, StateT.bind, hfirst, Except.bind]

@[simp] theorem run_pure (a : α) : (pure a : Reader α) start = .ok (a, start) := rfl

theorem run_lift {result : Except ClassError α} {a : α} (hresult : result = .ok a) :
    (liftM result : Reader α) start = .ok (a, start) := by
  subst hresult
  rfl

theorem pure_eq_ok {a b : α} : (pure a : Reader α) start = .ok (b, stop) ↔ a = b ∧ start = stop := by
  rw [run_pure]
  simp

theorem lift_eq_ok {result : Except ClassError α} {a : α} :
    (liftM result : Reader α) start = .ok (a, stop) ↔ result = .ok a ∧ start = stop := by
  cases result with
  | error e =>
    constructor
    · intro h
      cases h
    · rintro ⟨h, -⟩
      cases h
  | ok b =>
    rw [run_lift rfl]
    simp

theorem mapM_lift_eq_ok {f : α → Except ClassError β} {items : List α} {results : List β} :
    (items.mapM fun a => liftM (f a) : Reader (List β)) start = .ok (results, stop)
      ↔ items.mapM f = .ok results ∧ start = stop := by
  induction items generalizing results start stop with
  | nil => exact pure_eq_ok.trans (by simp [pure, Except.pure])
  | cons a items ih =>
    rw [List.mapM_cons, bind_eq_ok, mapM_cons_eq_ok]
    simp only [bind_eq_ok, lift_eq_ok, ih, pure_eq_ok]
    constructor
    · rintro ⟨b, _, ⟨hb, rfl⟩, rest, _, ⟨hrest, rfl⟩, rfl, rfl⟩
      exact ⟨⟨b, rest, hb, hrest, rfl⟩, rfl⟩
    · rintro ⟨⟨b, rest, hb, hrest, rfl⟩, rfl⟩
      exact ⟨b, start, ⟨hb, rfl⟩, rest, start, ⟨hrest, rfl⟩, rfl, rfl⟩

theorem fail_ne_ok {cause : Malformation} {result : α × Cursor} :
    (fail cause : Reader α) start ≠ .ok result := by
  intro h
  cases h

theorem throw_ne_ok {error : ClassError} {result : α × Cursor} :
    (throw error : Reader α) start ≠ .ok result := by
  intro h
  cases h

/-- A check that refuses what is read is passed by every run that succeeds. -/
theorem refuse_eq_ok {refused : Prop} [Decidable refused] {cause : Malformation}
    {next : Unit → Reader α} {result : α × Cursor} :
    (if refused then fail cause >>= next else next ()) start = .ok result
      ↔ ¬ refused ∧ next () start = .ok result := by
  by_cases hrefused : refused
  · rw [if_pos hrefused]
    constructor
    · intro h
      cases h
    · rintro ⟨hpassed, -⟩
      exact absurd hrefused hpassed
  · rw [if_neg hrefused]
    exact ⟨fun h => ⟨hrefused, h⟩, fun h => h.2⟩

@[simp] theorem run_position : position start = .ok (start.position, start) := rfl

@[simp] theorem run_get : (get : Reader Cursor) start = .ok (start, start) := rfl

/-! ### Words and bytes -/

theorem u8_eq_ok {byte : UInt8} :
    u8 start = .ok (byte, stop)
      ↔ start.rest = byte :: stop.rest ∧ stop.position = start.position + 1 := by
  obtain ⟨position, rest⟩ := start
  obtain ⟨stopPosition, stopRest⟩ := stop
  rcases rest with _ | ⟨a, rest⟩
  · simp [u8]
  · simp only [u8, Except.ok.injEq, Prod.mk.injEq, Cursor.mk.injEq, List.cons.injEq]
    grind

theorem u16_eq_ok {word : UInt16} :
    u16 start = .ok (word, stop)
      ↔ start.rest = bytes16 word ++ stop.rest ∧ stop.position = start.position + 2 := by
  obtain ⟨position, rest⟩ := start
  obtain ⟨stopPosition, stopRest⟩ := stop
  rcases rest with _ | ⟨a, _ | ⟨b, rest⟩⟩
  · simp [u16, bytes16]
  · simp [u16, bytes16]
  · simp only [u16, Except.ok.injEq, Prod.mk.injEq, Cursor.mk.injEq]
    constructor
    · rintro ⟨rfl, rfl, rfl⟩
      exact ⟨by rw [bytes16_word16]; rfl, rfl⟩
    · rintro ⟨hrest, rfl⟩
      simp only [bytes16, List.cons_append, List.nil_append, List.cons.injEq] at hrest
      obtain ⟨rfl, rfl, rfl⟩ := hrest
      exact ⟨word16_bytes word, rfl, rfl⟩

theorem u32_eq_ok {word : UInt32} :
    u32 start = .ok (word, stop)
      ↔ start.rest = bytes32 word ++ stop.rest ∧ stop.position = start.position + 4 := by
  obtain ⟨position, rest⟩ := start
  obtain ⟨stopPosition, stopRest⟩ := stop
  rcases rest with _ | ⟨a, _ | ⟨b, _ | ⟨c, _ | ⟨d, rest⟩⟩⟩⟩
  · simp [u32, bytes32]
  · simp [u32, bytes32]
  · simp [u32, bytes32]
  · simp [u32, bytes32]
  · simp only [u32, Except.ok.injEq, Prod.mk.injEq, Cursor.mk.injEq]
    constructor
    · rintro ⟨rfl, rfl, rfl⟩
      exact ⟨by rw [bytes32_word32]; rfl, rfl⟩
    · rintro ⟨hrest, rfl⟩
      simp only [bytes32, List.cons_append, List.nil_append, List.cons.injEq] at hrest
      obtain ⟨rfl, rfl, rfl, rfl, rfl⟩ := hrest
      exact ⟨word32_bytes word, rfl, rfl⟩

theorem u64_eq_ok {word : UInt64} :
    u64 start = .ok (word, stop)
      ↔ start.rest = bytes64 word ++ stop.rest ∧ stop.position = start.position + 8 := by
  rw [u64, bind_eq_ok]
  simp only [bind_eq_ok, u32_eq_ok, pure_eq_ok]
  constructor
  · rintro ⟨hi, afterHi, ⟨hhi, hhiPosition⟩, lo, afterLo, ⟨hlo, hloPosition⟩, rfl, rfl⟩
    exact ⟨by rw [hhi, hlo, bytes64_word64, List.append_assoc], by omega⟩
  · rintro ⟨hrest, hposition⟩
    refine ⟨_, ⟨start.position + 4, _⟩, ⟨?_, rfl⟩, _, stop, ⟨rfl, by simp only; omega⟩,
      word64_halves word, rfl⟩
    rw [hrest, bytes64, List.append_assoc]

theorem take_eq_ok {n : Nat} {taken : List UInt8} :
    take n start = .ok (taken, stop)
      ↔ start.rest = taken ++ stop.rest ∧ taken.length = n ∧ stop.position = start.position + n := by
  obtain ⟨position, rest⟩ := start
  obtain ⟨stopPosition, stopRest⟩ := stop
  simp only [take, List.length_take]
  by_cases hshort : min n rest.length < n
  · rw [if_pos hshort]
    simp only [reduceCtorEq, false_iff]
    rintro ⟨rfl, rfl, -⟩
    simp at hshort
  · rw [if_neg hshort]
    simp only [Except.ok.injEq, Prod.mk.injEq, Cursor.mk.injEq]
    constructor
    · rintro ⟨rfl, rfl, rfl⟩
      exact ⟨(List.take_append_drop n rest).symm, by rw [List.length_take]; omega, rfl⟩
    · rintro ⟨rfl, rfl, rfl⟩
      simp

theorem skip_eq_ok {n : Nat} :
    skip n start = .ok ((), stop)
      ↔ ∃ taken, start.rest = taken ++ stop.rest ∧ taken.length = n
        ∧ stop.position = start.position + n := by
  rw [skip, bind_eq_ok]
  simp only [take_eq_ok, pure_eq_ok, true_and]
  constructor
  · rintro ⟨taken, middle, htaken, rfl⟩
    exact ⟨taken, htaken⟩
  · rintro ⟨taken, htaken⟩
    exact ⟨taken, stop, htaken, rfl⟩

theorem slice_eq_ok {n : Nat} {sliced : Cursor} :
    slice n start = .ok (sliced, stop)
      ↔ start.rest = sliced.rest ++ stop.rest ∧ sliced.rest.length = n
        ∧ sliced.position = start.position ∧ stop.position = start.position + n := by
  rw [slice, run_bind run_position, bind_eq_ok]
  simp only [take_eq_ok, pure_eq_ok]
  constructor
  · rintro ⟨taken, middle, ⟨hrest, hlength, hposition⟩, rfl, rfl⟩
    exact ⟨hrest, hlength, rfl, hposition⟩
  · rintro ⟨hrest, hlength, hstart, hposition⟩
    exact ⟨sliced.rest, stop, ⟨hrest, hlength, hposition⟩, by rw [← hstart], rfl⟩

/-! ### Repetitions -/

theorem timesAfter_eq (item : Reader α) (read : List α) (n : Nat) :
    timesAfter item read n = (do let items ← times item n; return read.reverse ++ items) := by
  induction n generalizing read with
  | zero => simp [times, timesAfter]
  | succ n ih =>
    simp only [times, timesAfter, bind_assoc]
    refine bind_congr fun a => ?_
    rw [ih (a :: read), ih [a]]
    simp [times]

theorem times_zero (item : Reader α) : times item 0 = pure [] := rfl

theorem times_succ (item : Reader α) (n : Nat) :
    times item (n + 1) = (do let a ← item; let items ← times item n; return a :: items) := by
  rw [times, timesAfter]
  refine bind_congr fun a => ?_
  rw [timesAfter_eq]
  rfl

theorem times_forall {property : α → Prop}
    (hitem : ∀ {start stop : Cursor} {a : α}, item start = .ok (a, stop) → property a)
    {n : Nat} {items : List α} (hread : times item n start = .ok (items, stop)) :
    ∀ a ∈ items, property a := by
  induction n generalizing start items with
  | zero =>
    rw [times_zero] at hread
    obtain ⟨rfl, -⟩ := pure_eq_ok.mp hread
    exact nofun
  | succ n ih =>
    rw [times_succ] at hread
    obtain ⟨a, middle, ha, hread⟩ := bind_eq_ok.mp hread
    obtain ⟨rest, last, hrest, hpure⟩ := bind_eq_ok.mp hread
    obtain ⟨rfl, rfl⟩ := pure_eq_ok.mp hpure
    exact List.forall_mem_cons.mpr ⟨hitem ha, ih hrest⟩

theorem counted_forall {property : α → Prop}
    (hitem : ∀ {start stop : Cursor} {a : α}, item start = .ok (a, stop) → property a)
    {items : List α} (hread : counted item start = .ok (items, stop)) : ∀ a ∈ items, property a := by
  obtain ⟨count, middle, -, htimes⟩ := bind_eq_ok.mp hread
  exact times_forall hitem htimes

theorem untilEndAfter_eq (item : Reader α) (read : List α) (fuel : Nat) :
    untilEndAfter item read fuel
      = (do let items ← untilEndAfter item [] fuel; return read.reverse ++ items) := by
  induction fuel generalizing read with
  | zero => simp [untilEndAfter]
  | succ fuel ih =>
    simp only [untilEndAfter, bind_assoc]
    refine bind_congr fun ended => ?_
    cases ended with
    | true => simp
    | false =>
      simp only [Bool.false_eq_true, if_false, bind_assoc]
      refine bind_congr fun a => ?_
      rw [ih (a :: read), ih [a]]
      simp

theorem untilEndAfter_succ (item : Reader α) (fuel : Nat) (start : Cursor) :
    untilEndAfter item [] (fuel + 1) start
      = if start.rest.isEmpty then .ok ([], start)
        else (do let a ← item; let items ← untilEndAfter item [] fuel; return a :: items) start := by
  rw [untilEndAfter, run_bind (show atEnd start = .ok (start.rest.isEmpty, start) from rfl)]
  split
  · rfl
  · refine congrFun (bind_congr fun a => ?_) start
    rw [untilEndAfter_eq]
    rfl

end Reader

end Retoken
