import Retoken.Proofs.Relocation.Stages

/-!
# Attributes in a relocated file

The body of an attribute is set aside before it is read, so the bytes that hold an attribute are carried whatever is overwritten in its body. What the body holds is known only once it is taken into account, and that depends on what was collected before. So attributes are carried together with the state they are collected in.
-/

namespace Retoken

open Reader

def Relocation.attribute (relocation : Relocation) (attr : Attribute) : Attribute :=
  ⟨attr.name, relocation.cursor attr.body⟩

variable {pool : ConstantPool} {start stop : Cursor} {slots : List Slot} {after : Relocation → Prop}

/-- Bytes that are set aside hold what their own reading finds in them. -/
theorem Reader.slice_carried {n : Nat} {sliced : Cursor} (hread : slice n start = .ok (sliced, stop))
    (hheld : Held pool sliced.position sliced.finish slots after) :
    Carried pool start stop slots fun relocation =>
      slice n (relocation.cursor start) = .ok (relocation.cursor sliced, relocation.cursor stop)
        ∧ after relocation := by
  obtain ⟨hrest, hlength, hstart, hposition⟩ := slice_eq_ok.mp hread
  have hstop : stop.position = start.position + sliced.rest.length := by rw [hposition, hlength]
  have hfinish : sliced.finish = stop.position := by rw [hstop, Cursor.finish, hstart]
  rw [hstart, hfinish] at hheld
  refine ⟨⟨sliced.rest, hrest, hstop⟩, hheld.imp fun relocation _ hafter => ?_⟩
  obtain ⟨hmoved, hmovedPosition⟩ := Relocation.cursor_of_rest relocation hrest hstop
  rw [← hstart] at hmoved
  refine ⟨slice_eq_ok.mpr ⟨hmoved, ?_, ?_, ?_⟩, hafter⟩
  · rw [Relocation.length_rest_cursor, hlength]
  · exact congrArg (· + relocation.shift) hstart
  · rw [hmovedPosition, hlength]

namespace Attribute

theorem read_carried {attr : Attribute} (hread : read pool start = .ok (attr, stop))
    (hheld : Held pool attr.body.position attr.body.finish slots after) :
    Carried pool start stop slots fun relocation =>
      read relocation.target (relocation.cursor start)
          = .ok (relocation.attribute attr, relocation.cursor stop)
        ∧ after relocation := by
  obtain ⟨afterName, length, afterLength, hname, hlength, hbody⟩ := read_eq_ok.mp hread
  refine ((text_carried hname).and ((u32_carried hlength).and (slice_carried hbody hheld))).imp
    fun relocation _ hrun => ?_
  obtain ⟨hnameRun, hlengthRun, hbodyRun, hafter⟩ := hrun
  exact ⟨read_eq_ok.mpr ⟨_, length, _, hnameRun, hlengthRun, hbodyRun⟩, hafter⟩

theorem parse_eq_ok {α : Type} {reader : Reader α} {attr : Attribute} {value : α} :
    attr.parse reader = .ok value
      ↔ ∃ stop : Cursor, reader attr.body = .ok (value, stop) ∧ stop.rest = [] := by
  rw [parse, except_bind_eq_ok]
  constructor
  · rintro ⟨⟨found, stop⟩, hrun, hvalue⟩
    simp only at hvalue
    by_cases hended : stop.rest.isEmpty
    · rw [if_pos hended] at hvalue
      cases hvalue
      exact ⟨stop, hrun, List.isEmpty_iff.mp hended⟩
    · rw [if_neg hended] at hvalue
      cases hvalue
  · rintro ⟨stop, hrun, hended⟩
    refine ⟨(value, stop), hrun, ?_⟩
    simp only [hended, List.isEmpty_nil, if_true]
    rfl

theorem parse_held {α : Type} {reader : Reader α} {reader' : Relocation → Reader α}
    {moved : Relocation → α → α} {slots : α → List Slot}
    (hreader : ∀ {start stop : Cursor} {value : α}, reader start = .ok (value, stop) →
      Carried pool start stop (slots value) fun relocation =>
        reader' relocation (relocation.cursor start) = .ok (moved relocation value, relocation.cursor stop))
    {attr : Attribute} {value : α} (hparse : attr.parse reader = .ok value) :
    Held pool attr.body.position attr.body.finish (slots value) fun relocation =>
      (relocation.attribute attr).parse (reader' relocation) = .ok (moved relocation value) := by
  obtain ⟨stop, hrun, hended⟩ := parse_eq_ok.mp hparse
  obtain ⟨hreaches, hheld⟩ := hreader hrun
  have hfinish : stop.position = attr.body.finish := by
    rw [← hreaches.finish_eq, Cursor.finish, hended]
    rfl
  rw [hfinish] at hheld
  refine hheld.imp fun relocation _ hrun' => parse_eq_ok.mpr ⟨_, hrun', ?_⟩
  rw [Relocation.cursor, hended, Relocation.overwrite_nil]

/-- Collecting preserves what every single step preserves. -/
theorem collect_preserves {α : Type} {add : α → Attribute → Except ClassError α} (property : α → Prop)
    (hadd : ∀ {state state' : α} {attr : Attribute}, add state attr = .ok state' →
      property state → property state')
    {state state' : α} (hstate : property state)
    (hread : collect pool add state start = .ok (state', stop)) : property state' := by
  obtain ⟨attributes, _, -, hlifted⟩ := bind_eq_ok.mp hread
  obtain ⟨hfold, -⟩ := lift_eq_ok.mp hlifted
  clear hread hlifted
  induction attributes generalizing state with
  | nil =>
    cases hfold
    exact hstate
  | cons attr attributes ih =>
    rw [List.foldlM_cons] at hfold
    obtain ⟨between, hfirst, hrest⟩ := except_bind_eq_ok.mp hfold
    exact ih (hadd hfirst hstate) hrest

section Collecting

variable {α : Type} {add : α → Attribute → Except ClassError α}
  {add' : Relocation → α → Attribute → Except ClassError α} {slots : α → List Slot}
  {moved : Relocation → α → α} {kept : Relocation → α → Prop}

/-- One attribute after the other is read and taken into account. What an attribute adds may take the place of what was there before, so the state may hold fewer slots than were met. -/
theorem foldlM_carried
    (hadd : ∀ {state state' : α} {attr : Attribute}, add state attr = .ok state' →
      ∃ added, (slots state').Subperm (slots state ++ added)
        ∧ Held pool attr.body.position attr.body.finish added fun relocation =>
          kept relocation state →
            add' relocation (moved relocation state) (relocation.attribute attr)
                = .ok (moved relocation state')
              ∧ kept relocation state')
    {n : Nat} {attributes : List Attribute} (hread : times (read pool) n start = .ok (attributes, stop))
    {state state' : α} (hfold : attributes.foldlM add state = .ok state') :
    ∃ added, (slots state').Subperm (slots state ++ added)
      ∧ Carried pool start stop added fun relocation =>
        times (read relocation.target) n (relocation.cursor start)
            = .ok (attributes.map relocation.attribute, relocation.cursor stop)
          ∧ (kept relocation state →
            (attributes.map relocation.attribute).foldlM (add' relocation) (moved relocation state)
                = .ok (moved relocation state')
              ∧ kept relocation state') := by
  induction n generalizing start attributes state with
  | zero =>
    rw [times_zero] at hread
    obtain ⟨rfl, rfl⟩ := pure_eq_ok.mp hread
    cases hfold
    exact ⟨[], by rw [List.append_nil], .refl start fun relocation _ => ⟨rfl, fun hkept => ⟨rfl, hkept⟩⟩⟩
  | succ n ih =>
    rw [times_succ] at hread
    obtain ⟨attr, middle, hattr, hread⟩ := bind_eq_ok.mp hread
    obtain ⟨rest, last, hrest, hpure⟩ := bind_eq_ok.mp hread
    obtain ⟨rfl, rfl⟩ := pure_eq_ok.mp hpure
    rw [List.foldlM_cons] at hfold
    obtain ⟨between, hfirst, hfold⟩ := except_bind_eq_ok.mp hfold
    obtain ⟨added, hsub, hheld⟩ := hadd hfirst
    obtain ⟨addedLater, hsubLater, hcarried⟩ := ih hrest hfold
    refine ⟨added ++ addedLater, ?_, ((read_carried hattr hheld).and hcarried).imp
      fun relocation _ hrun => ?_⟩
    · rw [← List.append_assoc]
      exact hsubLater.trans (hsub.append (List.Subperm.refl _))
    · obtain ⟨⟨hattrRun, haddRun⟩, hrestRun, hfoldRun⟩ := hrun
      refine ⟨?_, fun hkept => ?_⟩
      · rw [times_succ, run_bind hattrRun, run_bind hrestRun, run_pure, List.map_cons]
      · obtain ⟨hbetween, hkeptBetween⟩ := haddRun hkept
        obtain ⟨hlast, hkeptLast⟩ := hfoldRun hkeptBetween
        refine ⟨?_, hkeptLast⟩
        rw [List.map_cons, List.foldlM_cons]
        exact except_bind_eq_ok.mpr ⟨_, hbetween, hlast⟩

variable (add' slots moved kept) in
theorem collect_carried
    (hadd : ∀ {state state' : α} {attr : Attribute}, add state attr = .ok state' →
      ∃ added, (slots state').Subperm (slots state ++ added)
        ∧ Held pool attr.body.position attr.body.finish added fun relocation =>
          kept relocation state →
            add' relocation (moved relocation state) (relocation.attribute attr)
                = .ok (moved relocation state')
              ∧ kept relocation state')
    {state state' : α} (hslots : slots state = []) (hmoved : ∀ relocation, moved relocation state = state)
    (hkept : ∀ relocation, kept relocation state)
    (hread : collect pool add state start = .ok (state', stop)) :
    Carried pool start stop (slots state') fun relocation =>
      collect relocation.target (add' relocation) state (relocation.cursor start)
          = .ok (moved relocation state', relocation.cursor stop)
        ∧ kept relocation state' := by
  rw [collect, readAll, counted] at hread
  obtain ⟨attributes, last, hattributes, hlifted⟩ := bind_eq_ok.mp hread
  obtain ⟨hfold, rfl⟩ := lift_eq_ok.mp hlifted
  obtain ⟨count, afterCount, hcount, hattributes⟩ := bind_eq_ok.mp hattributes
  obtain ⟨added, hsub, hcarried⟩ := foldlM_carried hadd hattributes hfold
  rw [hslots, List.nil_append] at hsub
  refine ((u16_carried hcount).and hcarried).mono hsub fun relocation _ hrun => ?_
  obtain ⟨hcountRun, hattributesRun, hfoldRun⟩ := hrun
  obtain ⟨hlast, hkeptLast⟩ := hfoldRun (hkept relocation)
  rw [hmoved] at hlast
  have hall : readAll relocation.target (relocation.cursor start)
      = .ok (attributes.map relocation.attribute, relocation.cursor last) := by
    rw [readAll, counted, run_bind hcountRun, hattributesRun]
  refine ⟨?_, hkeptLast⟩
  rw [collect, run_bind hall]
  exact run_lift hlast

end Collecting

end Attribute

end Retoken
