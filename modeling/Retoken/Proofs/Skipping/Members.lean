import Retoken.Proofs.Relocation.Declaration
import Retoken.Proofs.Skipping.TwoRuns

/-!
# Members in step

Of an attribute that is stepped over only the name and the length are read. Of any other the files have the whole body in common, and all slots that are found in it lie in these bytes. So fields, methods and the attributes of the class are read in step, with equal results, and the files agree at every slot.
-/

namespace Retoken

open Reader

def SlotAgrees (bytes other : List UInt8) (slot : Slot) : Prop :=
  ∀ position, slot.Covers position → Agree bytes other position

def SameSlots (bytes other : List UInt8) {α : Type} (slots : α → List Slot) (a b : α) : Prop :=
  b = a ∧ ∀ slot ∈ slots a, SlotAgrees bytes other slot

/-- One attribute of both files. If its name means something, so do its bytes, and the files have them in common. -/
def SameIfKnown (bytes other : List UInt8) (known : List String) (attr attr' : Attribute) : Prop :=
  attr'.name = attr.name ∧ (attr.name ∈ known → attr' = attr
    ∧ ∀ position, attr.body.position ≤ position → position < attr.body.finish → Agree bytes other position)

variable {bytes other : List UInt8} {pool : ConstantPool} {known : List String} {start start' : Cursor}

theorem Held.bounds {low high : Nat} {slots : List Slot} {after : Relocation → Prop}
    (hheld : Held pool low high slots after) {slot : Slot} (hslot : slot ∈ slots) :
    low ≤ slot.position ∧ slot.stop ≤ high := by
  obtain ⟨held, hspread, hsub, -⟩ := hheld
  exact hspread.bounds (hsub.subset hslot)

namespace Attribute

/-! ### Bodies -/

theorem slice_of_le {n : Nat} (hle : n ≤ start.rest.length) :
    slice n start = .ok (⟨start.position, start.rest.take n⟩, ⟨start.position + n, start.rest.drop n⟩) :=
  slice_eq_ok.mpr ⟨(List.take_append_drop n _).symm, List.length_take_of_le hle, rfl, rfl⟩

theorem slice_of_lt {n : Nat} (hlt : start.rest.length < n) : slice n start = .error (.truncated start.position n) := by
  have htake : take n start = .error (.truncated start.position n) := by
    rw [take, if_pos]
    rw [List.length_take]
    omega
  rw [slice, run_bind run_position, run_bind_error htake]

section Body

variable {next : Survey} {n : Nat} {isKnown : Bool}

/-- What differs lies in the body, if it means nothing, or behind it. -/
theorem body_or_behind (hle : n ≤ start.rest.length)
    (halike : Alike bytes other (Survey.body isKnown n next) start start') {position : Nat}
    (hlow : start.position ≤ position) (hdiffers : ¬ Agree bytes other position) :
    (isKnown = false ∧ position < start.position + n)
      ∨ ∃ stretch ∈ next ⟨start.position + n, start.rest.drop n⟩, stretch.Covers position := by
  have hskip : skip n start = .ok ((), ⟨start.position + n, start.rest.drop n⟩) :=
    skip_eq_ok.mpr ⟨start.rest.take n, (List.take_append_drop n _).symm, List.length_take_of_le hle, rfl⟩
  obtain ⟨stretch, hstretch, hcovers⟩ := halike.differing position hlow hdiffers
  simp only [Survey.body, Survey.behind, hskip] at hstretch
  cases isKnown with
  | true => exact .inr ⟨stretch, hstretch, hcovers⟩
  | false =>
    rcases List.mem_cons.mp hstretch with rfl | hmem
    · exact .inl ⟨rfl, hcovers.2⟩
    · exact .inr ⟨stretch, hmem, hcovers⟩

/-- The files have a body in common that means something. -/
theorem agree_within_body (hnext : Survey.Ahead next) (hle : n ≤ start.rest.length)
    (halike : Alike bytes other (Survey.body true n next) start start') {position : Nat}
    (hlow : start.position ≤ position) (hhigh : position < start.position + n) : Agree bytes other position := by
  by_contra hdiffers
  rcases body_or_behind hle halike hlow hdiffers with ⟨hunknown, -⟩ | ⟨stretch, hstretch, hcovers⟩
  · cases hunknown
  · have hahead := hnext _ stretch hstretch
    have hstart := hcovers.1
    simp only at hahead
    omega

end Body

variable (hlength : bytes.length = other.length)

include hlength

/-- The body is as long in both files, and the same if it means something. -/
theorem slice_inStep {next : Survey} {n : Nat} {isKnown : Bool} (hnext : Survey.Ahead next)
    (halike : Alike bytes other (Survey.body isKnown n next) start start') :
    Parallel (slice n start) (slice n start') fun body stop body' stop' =>
      (isKnown = true → body' = body
        ∧ ∀ position, body.position ≤ position → position < body.finish → Agree bytes other position)
      ∧ Alike bytes other next stop stop' := by
  have hlengths : start'.rest.length = start.rest.length := by
    rw [halike.rest', halike.rest, List.length_drop, List.length_drop, hlength]
  by_cases hle : n ≤ start.rest.length
  case neg =>
    rw [slice_of_lt (by omega), slice_of_lt (by omega), halike.position]
    exact rfl
  rw [slice_of_le hle, slice_of_le (by omega), halike.position]
  refine ⟨?_, rfl, ?_, ?_, fun position hlow hdiffers => ?_⟩
  · rintro rfl
    have hagree : ∀ position, start.position ≤ position → position < start.position + n → Agree bytes other position :=
      fun _ hlow hhigh => agree_within_body hnext hle halike hlow hhigh
    refine ⟨?_, fun position hlow hhigh => hagree position hlow ?_⟩
    · rw [halike.rest', halike.rest, take_drop_eq hagree]
    · rwa [Cursor.finish, List.length_take_of_le hle] at hhigh
  · rw [halike.rest, List.drop_drop]
  · rw [halike.rest', List.drop_drop]
  · simp only at hlow
    rcases body_or_behind hle halike (by omega) hdiffers with ⟨-, hhigh⟩ | hfound
    · omega
    · exact hfound

theorem read_inStep : InStep bytes other (read pool) (Survey.attr pool known) (SameIfKnown bytes other known) := by
  intro next start start' hnext halike
  refine (halike.read .u16 fun name => Survey.ahead_behind .u32 fun _ => Survey.ahead_body _ _ hnext).bind ?_
  rintro _ afterIndex index afterIndex' ⟨rfl, halike⟩
  refine (Parallel.lift (pool.text index)).bind ?_
  rintro _ _ name _ ⟨hname, rfl, rfl, rfl⟩
  refine (halike.read .u32 fun _ => Survey.ahead_body _ _ hnext).bind ?_
  rintro _ afterLength length afterLength' ⟨rfl, halike⟩
  refine (slice_inStep hlength hnext halike).bind ?_
  rintro body stop body' stop' ⟨hbody, halike⟩
  refine .pure ⟨⟨rfl, fun hknown => ?_⟩, halike⟩
  obtain ⟨rfl, hagree⟩ := hbody (by rw [Survey.isKnown, hname]; simpa using hknown)
  exact ⟨rfl, hagree⟩

/-! ### Collecting -/

section Collecting

variable {α : Type} {add : α → Attribute → Except ClassError α} {slots : α → List Slot}
  (hskipped : ∀ {state : α} {attr : Attribute}, attr.name ∉ known → add state attr = .ok state)
  (hadded : ∀ {state state' : α} {attr : Attribute}, add state attr = .ok state' → ∀ slot ∈ slots state',
    slot ∈ slots state ∨ attr.body.position ≤ slot.position ∧ slot.stop ≤ attr.body.finish)

include hskipped hadded

omit hlength in
theorem foldlM_inStep {attributes attributes' : List Attribute}
    (hsame : List.Forall₂ (SameIfKnown bytes other known) attributes attributes') {state : α}
    (hagree : ∀ slot ∈ slots state, SlotAgrees bytes other slot) :
    attributes'.foldlM add state = attributes.foldlM add state
      ∧ ∀ state', attributes.foldlM add state = .ok state' → ∀ slot ∈ slots state', SlotAgrees bytes other slot := by
  induction hsame generalizing state with
  | nil =>
    refine ⟨rfl, fun state' hfold => ?_⟩
    cases hfold
    exact hagree
  | @cons attr attr' attributes attributes' hhead htail ih =>
    obtain ⟨hname, hbody⟩ := hhead
    rw [List.foldlM_cons, List.foldlM_cons]
    by_cases hknown : attr.name ∈ known
    case neg =>
      rw [hskipped (hname ▸ hknown), hskipped hknown]
      exact ih hagree
    obtain ⟨rfl, hsame⟩ := hbody hknown
    cases hadd : add state attr' with
    | error error => exact ⟨rfl, fun _ hfold => by cases hfold⟩
    | ok between =>
      refine ih fun slot hslot => ?_
      rcases hadded hadd slot hslot with hold | ⟨hlow, hhigh⟩
      · exact hagree slot hold
      · exact fun position hcovers =>
          hsame position (Nat.le_trans hlow hcovers.1) (Nat.lt_of_lt_of_le hcovers.2 hhigh)

theorem collect_inStep {state : α} (hnone : slots state = []) :
    InStep bytes other (collect pool add state) (Survey.counted (Survey.attr pool known))
      (SameSlots bytes other slots) := by
  intro next start start' hnext halike
  have hagree : ∀ slot ∈ slots state, SlotAgrees bytes other slot := by
    rw [hnone]
    exact fun _ hslot => absurd hslot List.not_mem_nil
  refine (InStep.counted (read_inStep hlength) (fun _ => Survey.ahead_attr _ _) hnext halike).bind ?_
  rintro attributes stop attributes' stop' ⟨hsame, halike⟩
  obtain ⟨hfold, hslots⟩ := foldlM_inStep hskipped hadded hsame hagree
  rw [hfold]
  refine (Parallel.lift _).imp ?_
  rintro _ _ state' _ ⟨hstate, rfl, rfl, rfl⟩
  exact ⟨⟨rfl, hslots _ hstate⟩, halike⟩

end Collecting

end Attribute

/-! ### Members -/

/-- A member is read in step if what follows its name and descriptor is. -/
theorem member_inStep {α : Type} (rest : UInt16 → String → String → Reader α) {related : α → α → Prop}
    (hrest : ∀ access name descriptor, InStep bytes other (rest access name descriptor)
      (Survey.counted (Survey.attr pool known)) related) :
    InStep bytes other (do
      let access ← u16
      let name ← pool.text (← u16)
      let descriptor ← pool.text (← u16)
      rest access name descriptor) (Survey.member pool known) related := by
  intro next start start' hnext halike
  have hattributes := Survey.ahead_counted (fun _ => Survey.ahead_attr pool known) hnext
  have hdescriptor := Survey.ahead_behind .u16 fun _ => hattributes
  refine (halike.read .u16 fun _ => Survey.ahead_behind .u16 fun _ => hdescriptor).bind ?_
  rintro _ afterAccess access afterAccess' ⟨rfl, halike⟩
  refine (halike.read .u16 fun _ => hdescriptor).bind ?_
  rintro _ afterName index afterName' ⟨rfl, halike⟩
  refine (Parallel.lift (pool.text index)).bind ?_
  rintro _ _ name _ ⟨-, rfl, rfl, rfl⟩
  refine (halike.read .u16 fun _ => hattributes).bind ?_
  rintro _ afterDescriptor index' afterDescriptor' ⟨rfl, halike⟩
  refine (Parallel.lift (pool.text index')).bind ?_
  rintro _ _ descriptor _ ⟨-, rfl, rfl, rfl⟩
  exact hrest access name descriptor hnext halike

variable (hlength : bytes.length = other.length)

theorem Field.addAttribute_skipped {field : Field StringSite} {attr : Attribute}
    (hname : attr.name ∉ Survey.knownOnFields) : addAttribute pool field attr = .ok field := by
  refine addAttribute_eq_ok.mpr (.other ?_ ?_ ?_) <;> exact (ne_of_mem_of_not_mem (by decide) hname).symm

theorem PendingMethod.addAttribute_skipped {pending : PendingMethod} {attr : Attribute}
    (hname : attr.name ∉ Survey.knownOnMethods) : addAttribute pool pending attr = .ok pending := by
  refine addAttribute_eq_ok.mpr (.other ?_ ?_ ?_ ?_ ?_ ?_) <;> exact (ne_of_mem_of_not_mem (by decide) hname).symm

theorem ClassFile.ClassAttributes.add_skipped {attributes : ClassFile.ClassAttributes} {attr : Attribute}
    (hname : attr.name ∉ Survey.knownOnClasses) : add pool attributes attr = .ok attributes := by
  refine add_eq_ok.mpr (.other ?_ ?_ ?_) <;> exact (ne_of_mem_of_not_mem (by decide) hname).symm

/-- A slot that was there before or lies in the body of the attribute. -/
theorem Held.mem_or_bounds {low high : Nat} {before added after : List Slot} {property : Relocation → Prop}
    (hsub : after.Subperm (before ++ added)) (hheld : Held pool low high added property) :
    ∀ slot ∈ after, slot ∈ before ∨ low ≤ slot.position ∧ slot.stop ≤ high := by
  intro slot hslot
  rcases List.mem_append.mp (hsub.subset hslot) with hold | hnew
  · exact .inl hold
  · exact .inr (hheld.bounds hnew)

include hlength

theorem Field.read_inStep :
    InStep bytes other (read pool) (Survey.member pool Survey.knownOnFields) (SameSlots bytes other slots) := by
  refine member_inStep (fun access name descriptor =>
    Attribute.collect pool (addAttribute pool) { access, name, descriptor })
    fun _ _ _ => Attribute.collect_inStep hlength addAttribute_skipped ?_ rfl
  intro field field' attr hadd
  obtain ⟨added, hsub, hheld⟩ := addAttribute_carried hadd
  exact Held.mem_or_bounds hsub hheld

theorem PendingMethod.read_inStep :
    InStep bytes other (read pool) (Survey.member pool Survey.knownOnMethods) (SameSlots bytes other slots) := by
  refine member_inStep (fun access name descriptor =>
    Attribute.collect pool (addAttribute pool) { method := { access, name, descriptor } })
    fun _ _ _ => Attribute.collect_inStep hlength addAttribute_skipped ?_ rfl
  intro pending pending' attr hadd
  obtain ⟨added, hsub, hheld⟩ := addAttribute_carried hadd
  exact Held.mem_or_bounds hsub hheld

theorem ClassFile.ClassAttributes.collect_inStep :
    InStep bytes other (Attribute.collect pool (add pool) {}) (Survey.counted (Survey.attr pool Survey.knownOnClasses))
      (SameSlots bytes other slots) := by
  refine Attribute.collect_inStep hlength add_skipped ?_ rfl
  intro attributes attributes' attr hadd
  obtain ⟨added, hsub, hheld⟩ := add_carried hadd
  exact Held.mem_or_bounds hsub hheld

end Retoken
