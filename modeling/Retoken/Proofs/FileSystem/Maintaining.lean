import Retoken.FileSystem.AtomicWrite
import Retoken.Proofs.FileSystem.Keeping

/-!
# Programs that keep files

A program on a disk may fail at any point and leaves the files as they are then. `Maintains` says that a property of file systems survives a program however it ends, and is put together along the program. An atomic write below a directory keeps all files but its own and the temporary one beside it.
-/

namespace Retoken

open Retoken.FileSystem Retoken.Path

variable {α β ε δ : Type}

def Maintains (property : FileSystem → Prop) (action : StateM FileSystem α) : Prop :=
  ∀ fs, property fs → property (action fs).2

namespace Maintains

variable {property : FileSystem → Prop} {action first : ExceptT ε (StateM FileSystem) α}
  {next : α → ExceptT ε (StateM FileSystem) β}

theorem pure (a : α) : Maintains property (Pure.pure a : ExceptT ε (StateM FileSystem) α).run :=
  fun _ hproperty => hproperty

theorem result (result : Except ε α) :
    Maintains property (ExceptT.mk (Pure.pure result) : ExceptT ε (StateM FileSystem) α).run :=
  fun _ hproperty => hproperty

theorem throw (error : ε) : Maintains property (throw error : ExceptT ε (StateM FileSystem) α).run :=
  fun _ hproperty => hproperty

theorem run_bind_ends {fs : FileSystem} (hfirst : property (first.run fs).2)
    (hnext : ∀ a, (first.run fs).1 = .ok a → property ((next a).run (first.run fs).2).2) :
    property ((first >>= next).run fs).2 := by
  have hrun : (first >>= next).run fs = ExceptT.bindCont next (first.run fs).1 (first.run fs).2 := rfl
  rw [hrun]
  cases hresult : (first.run fs).1 with
  | ok a => exact hnext a hresult
  | error error => exact hfirst

/-- The second part is taken only with what the first one has answered. -/
theorem bind (hfirst : Maintains property first.run)
    (hnext : ∀ fs a, property fs → (first.run fs).1 = .ok a → Maintains property (next a).run) :
    Maintains property (first >>= next).run :=
  fun fs hproperty => run_bind_ends (hfirst fs hproperty) fun a hresult =>
    hnext fs a hproperty hresult _ (hfirst fs hproperty)

theorem tryCatch {handler : ε → ExceptT ε (StateM FileSystem) α} (haction : Maintains property action.run)
    (hhandler : ∀ error, Maintains property (handler error).run) :
    Maintains property (tryCatch action handler).run := by
  intro fs hproperty
  have hmiddle := haction fs hproperty
  rw [ExceptT.run_tryCatch]
  have hrun : ∀ resume : Except ε α → StateM FileSystem (Except ε α),
      (action.run >>= resume) fs = resume (action.run fs).1 (action.run fs).2 := fun _ => rfl
  rw [hrun]
  cases (action.run fs).1 with
  | ok a => exact hmiddle
  | error error => exact hhandler error _ hmiddle

theorem lift {action : StateM FileSystem α} (haction : Maintains property action) :
    Maintains property (liftM action : ExceptT ε (StateM FileSystem) α).run :=
  haction

theorem adapt {f : ε → δ} (haction : Maintains property action.run) : Maintains property (action.adapt f).run :=
  haction

theorem look (operation : FileSystem → Except ε α) : Maintains property (look operation).run :=
  fun _ hproperty => hproperty

theorem change {operation : FileSystem → Except OsError FileSystem}
    (hoperation : ∀ fs fs', property fs → operation fs = .ok fs' → property fs') :
    Maintains property (change operation).run := by
  intro fs hproperty
  cases hresult : operation fs with
  | ok fs' =>
    have hrun : (FileSystem.change operation).run fs = (.ok (), fs') := by
      simp only [FileSystem.change, ExceptT.run_mk, hresult]
    rw [hrun]
    exact hoperation fs fs' hproperty hresult
  | error error =>
    have hrun : (FileSystem.change operation).run fs = (.error error, fs) := by
      simp only [FileSystem.change, ExceptT.run_mk, hresult]
    rw [hrun]
    exact hproperty

theorem forM {items : List α} {step : α → ExceptT ε (StateM FileSystem) PUnit}
    (hstep : ∀ item ∈ items, Maintains property (step item).run) : Maintains property (items.forM step).run := by
  induction items with
  | nil => exact pure _
  | cons item items ih =>
    have hrest := ih fun later hlater => hstep later (List.mem_cons_of_mem _ hlater)
    exact bind (hstep item List.mem_cons_self) fun _ _ _ _ => hrest

end Maintains

section

variable {fs : FileSystem} {first : ExceptT ε (StateM FileSystem) α} {next : α → ExceptT ε (StateM FileSystem) β}

theorem run_bind_of_ok {fs' : FileSystem} {a : α} (hfirst : first.run fs = (.ok a, fs')) :
    (first >>= next).run fs = (next a).run fs' := by
  have hrun : (first >>= next).run fs = ExceptT.bindCont next (first.run fs).1 (first.run fs).2 := rfl
  rw [hrun, hfirst]
  rfl

theorem run_bind_of_error {fs' : FileSystem} {error : ε} (hfirst : first.run fs = (.error error, fs')) :
    (first >>= next).run fs = (.error error, fs') := by
  have hrun : (first >>= next).run fs = ExceptT.bindCont next (first.run fs).1 (first.run fs).2 := rfl
  rw [hrun, hfirst]
  rfl

theorem run_bind_eq {fs' : FileSystem} {b : β} :
    (first >>= next).run fs = (.ok b, fs')
      ↔ ∃ a middle, first.run fs = (.ok a, middle) ∧ (next a).run middle = (.ok b, fs') := by
  constructor
  · intro hbind
    rcases hfirst : first.run fs with ⟨_ | a, middle⟩
    · rw [run_bind_of_error hfirst] at hbind
      cases hbind
    · rw [run_bind_of_ok hfirst] at hbind
      exact ⟨a, middle, rfl, hbind⟩
  · rintro ⟨a, middle, hfirst, hnext⟩
    rw [run_bind_of_ok hfirst, hnext]

/-- A first part that only looks is followed by the second one in the same file system. -/
theorem run_bind_looking {a : α} (hlooks : Maintains (· = fs) first.run) (hfirst : (first.run fs).1 = .ok a) :
    (first >>= next).run fs = (next a).run fs :=
  run_bind_of_ok (Prod.ext hfirst (hlooks fs rfl))

theorem run_bind_ends {property : FileSystem → Prop} (hstart : property fs) (hlooks : Maintains (· = fs) first.run)
    (hnext : ∀ a, (first.run fs).1 = .ok a → property ((next a).run fs).2) : property ((first >>= next).run fs).2 := by
  have hsame : (first.run fs).2 = fs := hlooks fs rfl
  apply Maintains.run_bind_ends
  · rw [hsame]
    exact hstart
  · rw [hsame]
    exact hnext

/-- What a program answers whose first part only looks. -/
theorem run_bind_eq_ok {b : β} (hlooks : Maintains (· = fs) first.run) :
    ((first >>= next).run fs).1 = .ok b ↔ ∃ a, (first.run fs).1 = .ok a ∧ ((next a).run fs).1 = .ok b := by
  constructor
  · intro hbind
    cases hfirst : (first.run fs).1 with
    | ok a =>
      rw [run_bind_looking hlooks hfirst] at hbind
      exact ⟨a, rfl, hbind⟩
    | error error =>
      have hrun : (first >>= next).run fs = ExceptT.bindCont next (first.run fs).1 (first.run fs).2 := rfl
      rw [hrun, hfirst] at hbind
      cases hbind
  · rintro ⟨a, hfirst, hnext⟩
    rw [run_bind_looking hlooks hfirst]
    exact hnext

theorem run_bind_pure_eq_ok {f : α → β} {b : β} :
    ((first >>= fun a => pure (f a)).run fs).1 = .ok b ↔ ∃ a, (first.run fs).1 = .ok a ∧ f a = b := by
  rcases hfirst : first.run fs with ⟨error | a, middle⟩
  · rw [run_bind_of_error hfirst]
    exact iff_of_false (by rintro ⟨⟩) (by rintro ⟨_, ⟨⟩, -⟩)
  · rw [run_bind_of_ok hfirst]
    simp only [Except.ok.injEq, exists_eq_left']
    exact (Except.ok.injEq (f a) b).to_iff

section

variable {action : ExceptT ε (StateM FileSystem) α} {handler : ε → ExceptT ε (StateM FileSystem) α}
  {fs' middle : FileSystem} {a : α} {error : ε}

theorem run_tryCatch_of_ok (haction : action.run fs = (.ok a, fs')) :
    (tryCatch action handler).run fs = (.ok a, fs') := by
  have hresume : ∀ resume : Except ε α → StateM FileSystem (Except ε α),
      (action.run >>= resume) fs = resume (action.run fs).1 (action.run fs).2 := fun _ => rfl
  rw [ExceptT.run_tryCatch, hresume, haction]
  rfl

theorem run_tryCatch_of_error (haction : action.run fs = (.error error, middle)) :
    (tryCatch action handler).run fs = (handler error).run middle := by
  have hresume : ∀ resume : Except ε α → StateM FileSystem (Except ε α),
      (action.run >>= resume) fs = resume (action.run fs).1 (action.run fs).2 := fun _ => rfl
  rw [ExceptT.run_tryCatch, hresume, haction]

/-- How a program ends that goes on after a failure. -/
theorem run_tryCatch_eq :
    (tryCatch action handler).run fs = (.ok a, fs')
      ↔ action.run fs = (.ok a, fs')
        ∨ ∃ error middle, action.run fs = (.error error, middle) ∧ (handler error).run middle = (.ok a, fs') := by
  rcases haction : action.run fs with ⟨error | a', middle⟩
  · rw [run_tryCatch_of_error haction]
    constructor
    · intro hhandler
      exact .inr ⟨error, middle, rfl, hhandler⟩
    · rintro (hok | ⟨_, _, ⟨⟩, hhandler⟩)
      · cases hok
      · exact hhandler
  · rw [run_tryCatch_of_ok haction]
    constructor
    · exact .inl
    · rintro (hok | ⟨_, _, hfails, _⟩)
      · exact hok
      · cases hfails

end

theorem run_look_eq {operation : FileSystem → Except ε α} {fs' : FileSystem} {a : α} :
    (look operation).run fs = (.ok a, fs') ↔ operation fs = .ok a ∧ fs' = fs := by
  rw [look, ExceptT.run_mk, Prod.mk.injEq, eq_comm (a := fs)]

theorem run_change_eq {operation : FileSystem → Except OsError FileSystem} {fs' : FileSystem} :
    (change operation).run fs = (.ok (), fs') ↔ operation fs = .ok fs' := by
  simp only [change, ExceptT.run_mk]
  cases operation fs with
  | error error => exact ⟨nofun, nofun⟩
  | ok middle =>
    constructor
    · intro hrun
      cases hrun
      rfl
    · intro hresult
      cases hresult
      rfl

theorem run_change_of_error {operation : FileSystem → Except OsError FileSystem} {error : OsError}
    (hoperation : operation fs = .error error) : (change operation).run fs = (.error error, fs) := by
  simp only [change, ExceptT.run_mk, hoperation]

theorem mapError_eq_ok {f : ε → δ} {result : Except ε α} {a : α} : result.mapError f = .ok a ↔ result = .ok a := by
  cases result <;> simp [Except.mapError]

theorem run_adapt_eq_ok {f : ε → δ} {a : α} :
    ((first.adapt f).run fs).1 = .ok a ↔ (first.run fs).1 = .ok a :=
  mapError_eq_ok

theorem run_adapt_eq {f : ε → δ} {fs' : FileSystem} {a : α} :
    (first.adapt f).run fs = (.ok a, fs') ↔ first.run fs = (.ok a, fs') := by
  have hrun : (first.adapt f).run fs = ((first.run fs).1.mapError f, (first.run fs).2) := rfl
  rw [hrun, Prod.mk.injEq, mapError_eq_ok, Prod.ext_iff]

section

variable {step : α → StateM FileSystem β} {items : List α} (hlooks : ∀ item ∈ items, (step item fs).2 = fs)

include hlooks

/-- Items that are only looked at one after the other. -/
theorem run_mapM_looking : (items.mapM step) fs = (items.map fun item => (step item fs).1, fs) := by
  induction items with
  | nil => rfl
  | cons item items ih =>
    have hrest := ih fun later hlater => hlooks later (List.mem_cons_of_mem _ hlater)
    have hfirst := hlooks item List.mem_cons_self
    rw [List.mapM_cons]
    change (((step item fs).1 :: (items.mapM step (step item fs).2).1), (items.mapM step (step item fs).2).2) = _
    rw [hfirst, hrest]
    rfl

theorem run_bind_mapM {next : List β → ExceptT ε (StateM FileSystem) δ} :
    ((liftM (items.mapM step) : ExceptT ε (StateM FileSystem) (List β)) >>= next).run fs
      = (next (items.map fun item => (step item fs).1)).run fs := by
  change (next ((items.mapM step) fs).1).run ((items.mapM step) fs).2 = _
  rw [run_mapM_looking hlooks]

theorem mapM_looks : Maintains (· = fs) (liftM (items.mapM step) : ExceptT ε (StateM FileSystem) (List β)).run := by
  refine Maintains.lift fun other hsame => ?_
  subst hsame
  rw [run_mapM_looking hlooks]

end

end

namespace Disk

variable {start : FileSystem} {places : Location → Prop} {root : Path} {place : Location} {names : List String}

theorem makeDirectory_maintains (path : Path) :
    Maintains (Kept places start) (makeDirectory path : ExceptT OsError (StateM FileSystem) Unit).run :=
  Maintains.change fun _ _ hkept hmake => hkept.trans (makeDirectory_kept hmake)

section

variable {property : FileSystem → Prop}

theorem ensureDirectory_maintains {path : Path}
    (hmake : Maintains property (makeDirectory path : ExceptT OsError (StateM FileSystem) Unit).run) :
    Maintains property (ensureDirectory path : ExceptT OsError (StateM FileSystem) Unit).run := by
  refine Maintains.tryCatch hmake fun error => ?_
  refine Maintains.bind (Maintains.lift fun _ hproperty => hproperty) fun _ there _ _ => ?_
  cases error = .alreadyExists && there with
  | true => exact Maintains.pure _
  | false => exact Maintains.throw _

theorem ensureDirectories_maintains {paths : List Path} (hmake : ∀ path ∈ paths, path.text ≠ "" →
      Maintains property (makeDirectory path : ExceptT OsError (StateM FileSystem) Unit).run) :
    Maintains property (ensureDirectories paths : ExceptT OsError (StateM FileSystem) Unit).run := by
  induction paths with
  | nil => exact Maintains.pure _
  | cons path outer ih =>
    rw [ensureDirectories]
    by_cases hempty : path.text = ""
    · rw [if_pos hempty]
      exact Maintains.pure _
    · rw [if_neg hempty]
      have hensure := ensureDirectory_maintains (hmake path List.mem_cons_self hempty)
      refine Maintains.tryCatch hensure fun error => ?_
      by_cases hmissing : error = .notFound
      · rw [if_pos hmissing]
        refine Maintains.bind (ih fun later hlater => ?_) fun _ _ _ _ => hensure
        exact hmake later (List.mem_cons_of_mem _ hlater)
      · rw [if_neg hmissing]
        exact Maintains.throw _

end

variable (hstraight : Straight start root place names) (hne : names ≠ [])

include hstraight hne

theorem write_maintains (hplace : places (place ++ names)) (bytes : List UInt8) :
    Maintains (Kept places start)
      (write (root.join (.ofNames names)) bytes : ExceptT OsError (StateM FileSystem) Unit).run :=
  Maintains.change fun _ _ hkept hwrite => hkept.trans ((hstraight.kept hkept).write_kept hne hplace hwrite)

theorem remove_maintains (hplace : places (place ++ names)) :
    Maintains (Kept places start)
      (remove (root.join (.ofNames names)) : ExceptT OsError (StateM FileSystem) Unit).run :=
  Maintains.change fun _ _ hkept hremove => hkept.trans ((hstraight.kept hkept).remove_kept hne hplace hremove)

variable (hbeside : Straight start root place (temporary names))

include hbeside

theorem replaceThrough_maintains (hplace : places (place ++ names)) (htemporary : places (place ++ temporary names))
    (bytes : List UInt8) :
    Maintains (Kept places start)
      (replaceThrough (root.join (.ofNames (temporary names))) (root.join (.ofNames names)) bytes
      : ExceptT WriteError (StateM FileSystem) Unit).run := by
  have hneTemporary := temporary_ne_nil hne
  refine Maintains.bind (Maintains.adapt (write_maintains hbeside hneTemporary htemporary bytes)) fun _ _ _ _ => ?_
  refine Maintains.bind (Maintains.lift fun _ hkept => hkept) fun _ present _ _ => ?_
  have hrename : Maintains (Kept places start)
      (rename (root.join (.ofNames (temporary names))) (root.join (.ofNames names))
        : ExceptT OsError (StateM FileSystem) Unit).run :=
    Maintains.change fun _ _ hkept hrename => hkept.trans ((hbeside.kept hkept).rename_kept hneTemporary
      (hstraight.kept hkept) hne htemporary hplace hrename)
  cases present with
  | true =>
    refine Maintains.bind (Maintains.adapt (Maintains.look _)) fun _ _ _ _ => ?_
    exact Maintains.adapt hrename
  | false => exact Maintains.adapt hrename

/-- An atomic write below a directory keeps every file but its own and the temporary one beside it. -/
theorem writeAtomically_maintains (hplace : places (place ++ names)) (htemporary : places (place ++ temporary names))
    (bytes : List UInt8) :
    Maintains (Kept places start) (writeAtomically (root.join (.ofNames names)) bytes
      : ExceptT WriteError (StateM FileSystem) Unit).run := by
  rw [writeAtomically, withSuffix_join hne hstraight.isName]
  have hreplace : Maintains (Kept places start) (tryCatch
      (replaceThrough (root.join (.ofNames (temporary names))) (root.join (.ofNames names)) bytes) fun error => do
        discard (remove (root.join (.ofNames (temporary names))) : ExceptT OsError (StateM FileSystem) Unit).run
        throw error : ExceptT WriteError (StateM FileSystem) Unit).run := by
    refine Maintains.tryCatch (replaceThrough_maintains hstraight hne hbeside hplace htemporary bytes) fun error => ?_
    refine Maintains.bind (fun fs hkept => ?_) fun _ _ _ _ => Maintains.throw error
    exact remove_maintains hbeside (temporary_ne_nil hne) htemporary fs hkept
  cases (root.join (.ofNames names)).parent? with
  | none => exact hreplace
  | some parent =>
    exact Maintains.bind (Maintains.adapt (ensureDirectories_maintains fun path _ _ => makeDirectory_maintains path))
      fun _ _ _ _ => hreplace

end Disk

end Retoken
