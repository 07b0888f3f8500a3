import Retoken.Proofs.Reading
import Retoken.Run.Basic

/-!
# What a plan holds

A plan is made class by class, from what came of reading each class and replacing its tokens. It is made exactly if every class is let pass and no two changed classes go to one place, and then it holds a write for each changed class, a record for each class that changed or was skipped, and the number of the others. Otherwise it fails because of the first class that is in the way.
-/

namespace Retoken

def PendingWrite.Apart (one other : PendingWrite) : Prop :=
  one.destination.components ≠ other.destination.components

namespace Plan

variable (settings : Settings)

/-- Whether a run goes on after a class: it was read, and if every class has to be retokened it was. -/
def Passes (examined : Examined) : Prop :=
  ∃ outcome, examined = .ok outcome ∧ (settings.strict = true → ∃ retokened, outcome = .ok retokened)

def write? (source : ClassSource) : Examined → Option PendingWrite
  | .ok (.ok ⟨_, some bytes⟩) => some ⟨source.path, settings.output.destination source, bytes⟩
  | _ => none

def record? (source : ClassSource) : Examined → Option FileRecord
  | .ok (.ok ⟨tally, some bytes⟩) =>
    some (.retokened source.path (settings.output.destination source) tally (Digest.Sha256.hexDigest bytes))
  | .ok (.error error) => some (.skipped source.path error)
  | _ => none

def isUnchanged : Examined → Bool
  | .ok (.ok ⟨_, none⟩) => true
  | _ => false

def writesOf (examined : List (ClassSource × Examined)) : List PendingWrite :=
  examined.filterMap fun pair => write? settings pair.1 pair.2

structure Covers (examined : List (ClassSource × Examined)) (plan : Plan) : Prop where
  passes : ∀ pair ∈ examined, Passes settings pair.2
  apart : (writesOf settings examined).Pairwise PendingWrite.Apart
  writes : plan.writes.toList = writesOf settings examined
  files : plan.files.toList = examined.filterMap fun pair => record? settings pair.1 pair.2
  unchanged : plan.unchanged = examined.countP fun pair => isUnchanged pair.2

inductive Hindered (examined : List (ClassSource × Examined)) : RunError → Prop
  | unreadable {source : ClassSource} {error : OsError} (hmem : (source, .error error) ∈ examined) :
      Hindered examined (.unreadableClass source.path error)
  | rejected {source : ClassSource} {error : ClassError} (hstrict : settings.strict = true)
      (hmem : (source, .ok (.error error)) ∈ examined) : Hindered examined (.rejectedClass source.path error)
  | collision {first second : PendingWrite} (horder : [first, second].Sublist (writesOf settings examined))
      (hsame : first.destination.components = second.destination.components) :
      Hindered examined (.collision first.source second.source second.destination)

variable {settings} {plan plan' : Plan} {source : ClassSource} {examined : Examined}
  {done rest : List (ClassSource × Examined)} {error : RunError}

theorem writesOf_append (first second : List (ClassSource × Examined)) :
    writesOf settings (first ++ second) = writesOf settings first ++ writesOf settings second :=
  List.filterMap_append

theorem writesOf_singleton (source : ClassSource) (examined : Examined) :
    writesOf settings [(source, examined)] = (write? settings source examined).toList :=
  filterMap_singleton _ _

theorem rival?_eq_none {destination : Path} :
    plan.rival? destination = none
      ↔ ∀ write ∈ plan.writes.toList, write.destination.components ≠ destination.components := by
  rw [rival?, List.find?_eq_none]
  simp

theorem of_rival?_eq_some {destination : Path} {rival : PendingWrite} (hrival : plan.rival? destination = some rival) :
    rival ∈ plan.writes.toList ∧ rival.destination.components = destination.components :=
  ⟨List.mem_of_find?_eq_some hrival, by simpa using List.find?_some hrival⟩

theorem covers_nil : Covers settings [] {} where
  passes := nofun
  apart := List.Pairwise.nil
  writes := rfl
  files := rfl
  unchanged := rfl

theorem Covers.extend (hcovers : Covers settings done plan) (hpasses : Passes settings examined)
    (hapart : ∀ write ∈ plan.writes.toList, ∀ new ∈ write? settings source examined, write.Apart new)
    (hwrites : plan'.writes.toList = plan.writes.toList ++ (write? settings source examined).toList)
    (hfiles : plan'.files.toList = plan.files.toList ++ (record? settings source examined).toList)
    (hunchanged : plan'.unchanged = plan.unchanged + if isUnchanged examined then 1 else 0) :
    Covers settings (done ++ [(source, examined)]) plan' where
  passes := by
    intro pair hpair
    rcases List.mem_append.mp hpair with hearlier | hlast
    · exact hcovers.passes pair hearlier
    · rw [List.mem_singleton.mp hlast]
      exact hpasses
  apart := by
    rw [writesOf_append, writesOf_singleton, List.pairwise_append]
    refine ⟨hcovers.apart, ?_, ?_⟩
    · cases write? settings source examined with
      | none => exact List.Pairwise.nil
      | some write => exact List.pairwise_singleton _ _
    · intro write hwrite new hnew
      rw [← hcovers.writes] at hwrite
      exact hapart write hwrite new (Option.mem_toList.mp hnew)
  writes := by rw [hwrites, writesOf_append, writesOf_singleton, hcovers.writes]
  files := by rw [hfiles, List.filterMap_append, filterMap_singleton, hcovers.files]
  unchanged := by rw [hunchanged, List.countP_append, List.countP_singleton, hcovers.unchanged]

theorem Covers.add (hcovers : Covers settings done plan) (source : ClassSource) (examined : Examined) :
    (∃ plan', plan.add settings source examined = .ok plan' ∧ Covers settings (done ++ [(source, examined)]) plan')
      ∨ ∃ error, plan.add settings source examined = .error error
        ∧ Hindered settings (done ++ [(source, examined)]) error := by
  have hlast : (source, examined) ∈ done ++ [(source, examined)] := List.mem_concat_self
  match examined with
  | .error error => exact .inr ⟨_, rfl, .unreadable hlast⟩
  | .ok (.error error) =>
    by_cases hstrict : settings.strict = true
    · exact .inr ⟨_, by rw [Plan.add, if_pos hstrict]; rfl, .rejected hstrict hlast⟩
    · refine .inl ⟨_, by rw [Plan.add, if_neg hstrict]; rfl, ?_⟩
      refine hcovers.extend ⟨_, rfl, fun hother => absurd hother hstrict⟩ nofun ?_ ?_ rfl
      · exact (List.append_nil _).symm
      · exact Array.toList_push
  | .ok (.ok ⟨tally, none⟩) =>
    refine .inl ⟨_, rfl, hcovers.extend ⟨_, rfl, fun _ => ⟨_, rfl⟩⟩ nofun ?_ ?_ rfl⟩
    · exact (List.append_nil _).symm
    · exact (List.append_nil _).symm
  | .ok (.ok ⟨tally, some bytes⟩) =>
    cases hrival : plan.rival? (settings.output.destination source) with
    | some rival =>
      obtain ⟨hmem, hsame⟩ := of_rival?_eq_some hrival
      refine .inr ⟨_, by rw [Plan.add, hrival]; rfl, ?_⟩
      have horder : [rival, ⟨source.path, settings.output.destination source, bytes⟩].Sublist
          (writesOf settings (done ++ [(source, .ok (.ok ⟨tally, some bytes⟩))])) := by
        rw [writesOf_append, writesOf_singleton]
        rw [hcovers.writes] at hmem
        exact (List.singleton_sublist.mpr hmem).append (List.Sublist.refl _)
      exact .collision horder hsame
    | none =>
      refine .inl ⟨_, by rw [Plan.add, hrival]; rfl, ?_⟩
      refine hcovers.extend ⟨_, rfl, fun _ => ⟨_, rfl⟩⟩ ?_ Array.toList_push Array.toList_push rfl
      rintro write hwrite _ ⟨⟩
      exact rival?_eq_none.mp hrival write hwrite

theorem Hindered.append (hhindered : Hindered settings done error) : Hindered settings (done ++ rest) error := by
  cases hhindered with
  | unreadable hmem => exact .unreadable (List.mem_append_left rest hmem)
  | rejected hstrict hmem => exact .rejected hstrict (List.mem_append_left rest hmem)
  | collision horder hsame =>
    refine .collision (horder.trans ?_) hsame
    rw [writesOf_append]
    exact List.sublist_append_left _ _

theorem Covers.foldlM (hcovers : Covers settings done plan) (rest : List (ClassSource × Examined)) :
    (∃ plan', rest.foldlM (fun plan (source, examined) => plan.add settings source examined) plan = .ok plan'
        ∧ Covers settings (done ++ rest) plan')
      ∨ ∃ error, rest.foldlM (fun plan (source, examined) => plan.add settings source examined) plan = .error error
        ∧ Hindered settings (done ++ rest) error := by
  induction rest generalizing done plan with
  | nil =>
    rw [List.append_nil]
    exact .inl ⟨plan, rfl, hcovers⟩
  | cons pair rest ih =>
    obtain ⟨source, examined⟩ := pair
    simp only [List.foldlM_cons]
    rw [List.append_cons]
    rcases hcovers.add source examined with ⟨middle, hadd, hmiddle⟩ | ⟨error, hadd, hhindered⟩
    · rw [hadd]
      exact ih hmiddle
    · rw [hadd]
      exact .inr ⟨error, rfl, hhindered.append⟩

theorem ofExamined_cases (settings : Settings) (examined : List (ClassSource × Examined)) :
    (∃ plan, ofExamined settings examined = .ok plan ∧ Covers settings examined plan)
      ∨ ∃ error, ofExamined settings examined = .error error ∧ Hindered settings examined error :=
  covers_nil.foldlM examined

theorem Covers.not_hindered {examined : List (ClassSource × Examined)} (hcovers : Covers settings examined plan)
    (hhindered : Hindered settings examined error) : False := by
  cases hhindered with
  | unreadable hmem =>
    obtain ⟨outcome, hread, -⟩ := hcovers.passes _ hmem
    cases hread
  | rejected hstrict hmem =>
    obtain ⟨outcome, hread, hretokened⟩ := hcovers.passes _ hmem
    obtain ⟨retokened, hretoken⟩ := hretokened hstrict
    rw [hretoken] at hread
    cases hread
  | collision horder hsame =>
    have hpair := hcovers.apart.sublist horder
    exact List.rel_of_pairwise_cons hpair (List.mem_singleton.mpr rfl) hsame

end Plan

end Retoken
