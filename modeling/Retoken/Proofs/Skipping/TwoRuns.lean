import Retoken.Proofs.Skipping.Survey
import Mathlib.Data.List.Forall2

/-!
# Two runs of one reader

Two files that differ only where a survey has found something are read in step. `Parallel` says of two runs that both end well or both fail with one error, and `Alike` that the cursors stand at one position and that the files differ from there on only in what the survey still finds. Whatever is read before that is the same in both files, so each reader leads from alike cursors to alike cursors.
-/

namespace Retoken

open Reader

/-- Two runs that end well, with results in the given relation, or fail with the same error. -/
def Parallel {α : Type} (first second : Except ClassError (α × Cursor))
    (after : α → Cursor → α → Cursor → Prop) : Prop :=
  match first, second with
  | .ok (a, stop), .ok (b, stop') => after a stop b stop'
  | .error error, .error error' => error = error'
  | _, _ => False

namespace Parallel

variable {α β : Type} {first first' : Reader α} {next next' : α → Reader β} {start start' : Cursor}
  {run run' : Except ClassError (α × Cursor)} {after after' : α → Cursor → α → Cursor → Prop}
  {afterNext : β → Cursor → β → Cursor → Prop}

theorem imp (hparallel : Parallel run run' after)
    (hafter : ∀ a stop b stop', after a stop b stop' → after' a stop b stop') : Parallel run run' after' := by
  cases run with
  | error error => cases run' with
    | error error' => exact hparallel
    | ok result' => exact hparallel.elim
  | ok result => cases run' with
    | error error' => exact hparallel.elim
    | ok result' => exact hafter _ _ _ _ hparallel

theorem with_run (hparallel : Parallel run run' after) :
    Parallel run run' fun a stop b stop' => run = .ok (a, stop) ∧ after a stop b stop' := by
  cases run with
  | error error => cases run' with
    | error error' => exact hparallel
    | ok result' => exact hparallel.elim
  | ok result => cases run' with
    | error error' => exact hparallel.elim
    | ok result' => exact ⟨rfl, hparallel⟩

theorem bind (hfirst : Parallel (first start) (first' start') after)
    (hnext : ∀ a stop b stop', after a stop b stop' → Parallel (next a stop) (next' b stop') afterNext) :
    Parallel ((first >>= next) start) ((first' >>= next') start') afterNext := by
  cases hrun : first start with
  | error error =>
    rw [hrun] at hfirst
    cases hrun' : first' start' with
    | error error' =>
      rw [hrun'] at hfirst
      rw [run_bind_error hrun, run_bind_error hrun']
      exact hfirst
    | ok result' =>
      rw [hrun'] at hfirst
      exact hfirst.elim
  | ok result =>
    rw [hrun] at hfirst
    cases hrun' : first' start' with
    | error error' =>
      rw [hrun'] at hfirst
      exact hfirst.elim
    | ok result' =>
      rw [hrun'] at hfirst
      rw [run_bind hrun, run_bind hrun']
      exact hnext _ _ _ _ hfirst

theorem same (hafter : ∀ a stop, run = .ok (a, stop) → after a stop a stop) : Parallel run run after := by
  cases run with
  | error error => rfl
  | ok result => exact hafter _ _ rfl

theorem pure {a b : α} (hafter : after a start b start') :
    Parallel ((pure a : Reader α) start) ((Pure.pure b : Reader α) start') after :=
  hafter

theorem lift (result : Except ClassError α) :
    Parallel ((liftM result : Reader α) start) ((liftM result : Reader α) start')
    fun a stop b stop' => result = .ok a ∧ b = a ∧ stop = start ∧ stop' = start' := by
  cases result with
  | error error => rfl
  | ok a => exact ⟨rfl, rfl, rfl, rfl⟩

end Parallel

variable (bytes other : List UInt8)

def Agree (position : Nat) : Prop :=
  bytes[position]? = other[position]?

/-- The cursors stand at one position of the two files, and what differs behind it is found by the survey. -/
structure Alike (survey : Survey) (start start' : Cursor) : Prop where
  position : start'.position = start.position
  rest : start.rest = bytes.drop start.position
  rest' : start'.rest = other.drop start.position
  differing : ∀ position, start.position ≤ position → ¬ Agree bytes other position →
    ∃ stretch ∈ survey start, stretch.Covers position

variable {bytes other} {α β : Type} {reader item : Reader α} {survey next : Survey} {start start' : Cursor}

theorem take_drop_eq {low n : Nat}
    (hagree : ∀ position, low ≤ position → position < low + n → Agree bytes other position) :
    (bytes.drop low).take n = (other.drop low).take n := by
  refine List.ext_getElem? fun i => ?_
  rw [List.getElem?_take, List.getElem?_take, List.getElem?_drop, List.getElem?_drop]
  split
  case isTrue hlt => exact hagree (low + i) (by omega) (by omega)
  case isFalse => rfl

theorem drop_eq {low : Nat} (hagree : ∀ position, low ≤ position → Agree bytes other position) :
    bytes.drop low = other.drop low := by
  refine List.ext_getElem? fun i => ?_
  rw [List.getElem?_drop, List.getElem?_drop]
  exact hagree (low + i) (by omega)

namespace Alike

theorem eq_of_nil (halike : Alike bytes other survey start start') (hnil : survey start = []) : start' = start := by
  have hdrop : bytes.drop start.position = other.drop start.position := by
    refine drop_eq fun position hle => ?_
    by_contra hdiffers
    obtain ⟨stretch, hstretch, -⟩ := halike.differing position hle hdiffers
    rw [hnil] at hstretch
    cases hstretch
  have hrest : start'.rest = start.rest := by rw [halike.rest', ← hdrop, halike.rest]
  obtain ⟨position, rest⟩ := start
  obtain ⟨position', rest'⟩ := start'
  have hposition : position' = position := halike.position
  subst hposition
  subst hrest
  rfl

theorem read {next : α → Survey} (halike : Alike bytes other (Survey.behind reader next) start start')
    (hreader : Progressive reader) (hnext : ∀ a, Survey.Ahead (next a)) :
    Parallel (reader start) (reader start') fun a stop b stop' => b = a ∧ Alike bytes other (next a) stop stop' := by
  cases hrun : reader start with
  | error error =>
    rw [halike.eq_of_nil (by rw [Survey.behind, hrun]), hrun]
    exact rfl
  | ok result =>
    obtain ⟨a, stop⟩ := result
    obtain ⟨used, huses⟩ := hreader start a stop hrun
    obtain ⟨hspelled, hstop⟩ := huses.spells
    have hfound : Survey.behind reader next start = next a stop := by rw [Survey.behind, hrun]
    have hagree : ∀ position, start.position ≤ position → position < start.position + used.length →
        Agree bytes other position := by
      intro position hlow hhigh
      by_contra hdiffers
      obtain ⟨stretch, hstretch, hcovers⟩ := halike.differing position hlow hdiffers
      rw [hfound] at hstretch
      have hahead := hnext a stop stretch hstretch
      have hstart := hcovers.1
      omega
    have hused : (other.drop start.position).take used.length = used := by
      rw [← take_drop_eq hagree, ← halike.rest, hspelled, List.take_left]
    have hrest' : start' = ⟨start.position, used ++ other.drop stop.position⟩ := by
      have hsplit := List.take_append_drop used.length (other.drop start.position)
      rw [hused, List.drop_drop, ← hstop] at hsplit
      rw [hsplit, ← halike.rest', ← halike.position]
    rw [hrest', huses.whole]
    refine ⟨rfl, rfl, ?_, rfl, fun position hle hdiffers => ?_⟩
    · rw [hstop, ← List.drop_drop, ← halike.rest, hspelled, List.drop_left]
    · rw [← hfound]
      exact halike.differing position (by omega) hdiffers

end Alike

/-- A part that is read in step, with results in the given relation, and looked through by the survey. -/
def InStep (bytes other : List UInt8) (reader : Reader α) (part : Survey → Survey) (related : α → α → Prop) : Prop :=
  ∀ {next : Survey} {start start' : Cursor}, Survey.Ahead next → Alike bytes other (part next) start start' →
    Parallel (reader start) (reader start') fun a stop b stop' => related a b ∧ Alike bytes other next stop stop'

namespace InStep

variable {part : Survey → Survey} {related : α → α → Prop}

theorem times (hitem : InStep bytes other item part related)
    (hpart : ∀ next, Survey.Ahead next → Survey.Ahead (part next))
    (n : Nat) : InStep bytes other (Reader.times item n) (Survey.times part n) (List.Forall₂ related) := by
  induction n with
  | zero => exact fun hnext halike => .pure ⟨.nil, halike⟩
  | succ n ih =>
    intro next start start' hnext halike
    rw [times_succ]
    refine (hitem (Survey.ahead_times hpart n hnext) halike).bind ?_
    rintro a stop b stop' ⟨hhead, halike⟩
    refine (ih hnext halike).bind ?_
    rintro items last items' last' ⟨htail, halike⟩
    exact .pure ⟨.cons hhead htail, halike⟩

theorem counted (hitem : InStep bytes other item part related)
    (hpart : ∀ next, Survey.Ahead next → Survey.Ahead (part next)) :
    InStep bytes other (Reader.counted item) (Survey.counted part) (List.Forall₂ related) := by
  intro next start start' hnext halike
  refine (halike.read .u16 fun count => Survey.ahead_times hpart _ hnext).bind ?_
  rintro count stop _ stop' ⟨rfl, halike⟩
  exact hitem.times hpart _ hnext halike

end InStep

end Retoken
