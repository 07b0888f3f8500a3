import Retoken.Proofs.Relinking.Grouping
import Retoken.Proofs.Relinking.Redirecting

/-!
# Settling the references to one constant

One text is given to the constant itself, the one that its first slot of one byte wants. Every reference that wants another text is given a constant of its own, so at the end each reference is either at a patched slot, or names the constant and wants what the constant says.
-/

namespace Retoken

open Text

inductive Obstacle (references : List Reference) : ClassError → Prop where
  | pool : Obstacle references .poolOverflow
  | text {reference : Reference} {text : String} (hmem : reference ∈ references)
      (hwanted : reference.wanted? = some text)
      (hlong : PoolExtension.maxTextSize < (ModifiedUtf8.ofString text).length) :
      Obstacle references (.stringTooLong (ModifiedUtf8.ofString text).length)
  | narrow {reference other : Reference} {index : UInt16} (hmem : reference ∈ references)
      (hother : other ∈ references) (hnarrow : reference.slot.kind = .narrowString)
      (hnarrowOther : other.slot.kind = .narrowString) (hindex : reference.slot.index = other.slot.index)
      (hdiffers : reference.wanted? ≠ other.wanted?) :
      Obstacle references (.narrowIndexOverflow reference.slot.position index)
  | conflict {reference other : Reference} (hmem : reference ∈ references) (hother : other ∈ references)
      (hposition : reference.slot.position = other.slot.position)
      (hdiffers : reference.wanted? ≠ other.wanted?)
      (hredirected : reference.wanted? ≠ Relinking.primary? (Relinking.group references reference.slot.index))
      (hredirectedOther : other.wanted? ≠ Relinking.primary? (Relinking.group references other.slot.index)) :
      Obstacle references (.conflictingSlot reference.slot.position)

namespace Relinking

open PoolExtension

variable {source : ConstantPool} {storedText index : UInt16} {primary : Option String}
  {done references members : List Reference} {start current : Relinking} {reference : Reference}

/-- The text that the first slot of one byte wants is the one that some slot of one byte wants. -/
theorem exists_narrow_of_mem (hmem : reference ∈ members) (hnarrow : reference.slot.kind = .narrowString) :
    ∃ first ∈ members, first.slot.kind = .narrowString ∧ primary? members = first.wanted? := by
  cases hfind : members.find? (·.slot.kind = .narrowString) with
  | none =>
    rw [List.find?_eq_none] at hfind
    exact absurd (decide_eq_true hnarrow) (hfind reference hmem)
  | some first =>
    refine ⟨first, List.mem_of_find?_eq_some hfind, by simpa using List.find?_some hfind, ?_⟩
    rw [primary?, hfind]
    rfl

theorem exists_of_primary? {text : String} (hprimary : primary? members = some text) :
    ∃ first ∈ members, first.slot.kind = .narrowString ∧ first.wanted? = some text := by
  obtain ⟨first, hfind, hwanted⟩ := Option.bind_eq_some_iff.mp hprimary
  exact ⟨first, List.mem_of_find?_eq_some hfind, by simpa using List.find?_some hfind, hwanted⟩

structure Untouched (references : List Reference) (index : UInt16) (members : List Reference) (start : Relinking) :
    Prop where
  members_eq : members = group references index
  slots : ∀ one ∈ members, ∀ other ∈ members, one.slot.position = other.slot.position → one.slot = other.slot
  fresh : ∀ member ∈ members, start.patches[member.slot.position]? = none

namespace Untouched

variable (huntouched : Untouched references index members start)

include huntouched

theorem mem_references (hmem : reference ∈ members) : reference ∈ references := by
  rw [huntouched.members_eq] at hmem
  exact (mem_group.mp hmem).1

theorem index_eq (hmem : reference ∈ members) : reference.slot.index = index := by
  rw [huntouched.members_eq] at hmem
  exact (mem_group.mp hmem).2

theorem group_eq (hmem : reference ∈ members) : group references reference.slot.index = members := by
  rw [huntouched.index_eq hmem, ← huntouched.members_eq]

theorem of_patches_eq (hpatches : current.patches = start.patches) : Untouched references index members current where
  members_eq := huntouched.members_eq
  slots := huntouched.slots
  fresh := by
    rw [hpatches]
    exact huntouched.fresh

end Untouched

/-- The state after some of the references were looked at. -/
structure Handled (storedText : UInt16) (primary : Option String) (done : List Reference)
    (start current : Relinking) : Prop where
  adds : start.extension.Adds current.extension
  redirected : ∀ reference ∈ done, reference.wanted? ≠ primary →
    ∃ index, current.patches[reference.slot.position]? = some ⟨reference.slot.kind, index⟩
      ∧ (reference.slot.kind = .narrowString → index.toNat ≤ 0xFF)
      ∧ current.extension.ownIndex? storedText reference.wanted? = some index
  origin : ∀ (position : Nat) (patch : Patch), current.patches[position]? = some patch →
    start.patches[position]? = some patch
      ∨ ∃ reference ∈ done, reference.wanted? ≠ primary ∧ reference.slot.position = position
        ∧ reference.slot.kind = patch.kind
  kept : ∀ (position : Nat) (patch : Patch), start.patches[position]? = some patch →
    (∀ reference ∈ done, reference.wanted? ≠ primary → reference.slot.position ≠ position) →
      current.patches[position]? = some patch
  short : ∀ reference ∈ done, reference.wanted? ≠ primary → ∀ text, reference.wanted? = some text →
    (ModifiedUtf8.ofString text).length ≤ maxTextSize

theorem Handled.nothing (storedText : UInt16) (primary : Option String) (start : Relinking) :
    Handled storedText primary [] start start where
  adds := .refl _
  redirected _ hmem := absurd hmem List.not_mem_nil
  origin _ _ hpatch := .inl hpatch
  kept _ _ hpatch _ := hpatch
  short _ hmem := absurd hmem List.not_mem_nil

theorem Handled.skip (hhandled : Handled storedText primary done start current)
    (hwanted : reference.wanted? = primary) :
    Handled storedText primary (done ++ [reference]) start current where
  adds := hhandled.adds
  redirected other hother hdiffers := by
    rcases List.mem_append.mp hother with hmem | hmem
    · exact hhandled.redirected other hmem hdiffers
    · rw [List.mem_singleton.mp hmem] at hdiffers
      exact absurd hwanted hdiffers
  origin position patch hpatch := by
    rcases hhandled.origin position patch hpatch with hstart | ⟨other, hother, hrest⟩
    · exact .inl hstart
    · exact .inr ⟨other, List.mem_append_left _ hother, hrest⟩
  kept position patch hpatch huntouched :=
    hhandled.kept position patch hpatch fun other hother =>
      huntouched other (List.mem_append_left _ hother)
  short other hother hdiffers := by
    rcases List.mem_append.mp hother with hmem | hmem
    · exact hhandled.short other hmem hdiffers
    · rw [List.mem_singleton.mp hmem] at hdiffers
      exact absurd hwanted hdiffers

theorem Handled.redirect {next : Relinking} (hhandled : Handled storedText primary done start current)
    (hslots : ∀ other ∈ done, other.slot.position = reference.slot.position → other.slot = reference.slot)
    (hwanted : reference.wanted? ≠ primary)
    (hredirected : Redirected current storedText reference index next) :
    Handled storedText primary (done ++ [reference]) start next where
  adds := hhandled.adds.trans hredirected.adds
  redirected other hother hdiffers := by
    rw [hredirected.patches_eq]
    simp only [Patches.getElem?_insert]
    rcases List.mem_append.mp hother with hmem | hmem
    · obtain ⟨found, hpatch, hnarrow, hfound⟩ := hhandled.redirected other hmem hdiffers
      refine ⟨found, ?_, hnarrow, hredirected.adds.ownIndex? hfound⟩
      split
      case isTrue hposition =>
        have hslot := hslots other hmem hposition.symm
        rw [← hposition] at hpatch
        have hagree := hredirected.agrees _ hpatch
        simp only at hagree
        rw [hslot, hagree]
      case isFalse => exact hpatch
    · rw [List.mem_singleton.mp hmem]
      exact ⟨index, by rw [if_pos rfl], hredirected.narrow, hredirected.index_eq⟩
  origin position patch hpatch := by
    rw [hredirected.patches_eq, Patches.getElem?_insert] at hpatch
    split at hpatch
    case isTrue hposition =>
      cases hpatch
      exact .inr ⟨reference, List.mem_append_right _ (List.mem_singleton.mpr rfl), hwanted, hposition, rfl⟩
    case isFalse =>
      rcases hhandled.origin position patch hpatch with hstart | ⟨other, hother, hrest⟩
      · exact .inl hstart
      · exact .inr ⟨other, List.mem_append_left _ hother, hrest⟩
  kept position patch hpatch huntouched := by
    have hne : reference.slot.position ≠ position :=
      huntouched reference (List.mem_append_right _ (List.mem_singleton.mpr rfl)) hwanted
    rw [hredirected.patches_eq, Patches.getElem?_insert, if_neg hne]
    exact hhandled.kept position patch hpatch fun other hother =>
      huntouched other (List.mem_append_left _ hother)
  short other hother hdiffers := by
    rcases List.mem_append.mp hother with hmem | hmem
    · exact hhandled.short other hmem hdiffers
    · rw [List.mem_singleton.mp hmem]
      exact hredirected.short

theorem obstacle_of_redirectFails {error : ClassError} (huntouched : Untouched references index members start)
    (hmem : reference ∈ members) (hwanted : reference.wanted? ≠ primary? members)
    (hhandled : Handled storedText (primary? members) done start current) (hdone : ∀ other ∈ done, other ∈ members)
    (hfails : RedirectFails current storedText reference error) : Obstacle references error := by
  have hreference := huntouched.mem_references hmem
  cases hfails with
  | pool => exact .pool
  | text hsome hlong => exact .text hreference hsome hlong
  | narrow hnarrow =>
    obtain ⟨first, hfirst, hfirstNarrow, hprimary⟩ := exists_narrow_of_mem hmem hnarrow
    rw [hprimary] at hwanted
    refine .narrow hreference (huntouched.mem_references hfirst) hnarrow hfirstNarrow ?_ hwanted
    rw [huntouched.index_eq hmem, huntouched.index_eq hfirst]
  | conflict hadds hfound hprevious hdiffers =>
    rcases hhandled.origin _ _ hprevious with hstart | ⟨other, hother, hotherWanted, hposition, -⟩
    · rw [huntouched.fresh reference hmem] at hstart
      cases hstart
    · have hotherMem := hdone other hother
      obtain ⟨otherIndex, hpatch, -, hotherFound⟩ := hhandled.redirected other hother hotherWanted
      rw [hposition, hprevious] at hpatch
      refine .conflict hreference (huntouched.mem_references hotherMem) hposition.symm ?_ ?_ ?_
      · intro hsame
        rw [hsame, hadds.ownIndex? hotherFound] at hfound
        rw [Option.some.inj hpatch] at hdiffers
        exact hdiffers (Option.some.inj hfound)
      · rwa [huntouched.group_eq hmem]
      · rwa [huntouched.group_eq hotherMem]

structure GroupSettled (storedText index : UInt16) (members : List Reference) (start current : Relinking) :
    Prop where
  grows : start.extension.Grows current.extension
  others : ∀ other, other ≠ index → current.extension.base.get? other = start.extension.base.get? other
  unclaimed : primary? members = none →
    current.extension.base.get? index = start.extension.base.get? index
  claimed : ∀ text, primary? members = some text →
    ∃ named, current.extension.base.get? index = some (.string named)
      ∧ current.extension.pool.get? named = some (.utf8 (ModifiedUtf8.ofString text))
  redirected : ∀ reference ∈ members, reference.wanted? ≠ primary? members →
    ∃ found, current.patches[reference.slot.position]? = some ⟨reference.slot.kind, found⟩
      ∧ (reference.slot.kind = .narrowString → found.toNat ≤ 0xFF)
      ∧ current.extension.ownIndex? storedText reference.wanted? = some found
  origin : ∀ (position : Nat) (patch : Patch), current.patches[position]? = some patch →
    start.patches[position]? = some patch
      ∨ ∃ reference ∈ members, reference.wanted? ≠ primary? members
        ∧ reference.slot.position = position ∧ reference.slot.kind = patch.kind
  kept : ∀ (position : Nat) (patch : Patch), start.patches[position]? = some patch →
    current.patches[position]? = some patch
  short : ∀ reference ∈ members, ∀ text, reference.wanted? = some text →
    (ModifiedUtf8.ofString text).length ≤ maxTextSize

/-- All references that want another text than the constant is given get constants of their own. -/
theorem redirectAll_meets (hover : Over source start.extension)
    (hstored : start.extension.pool.isUtf8 storedText = true)
    (huntouched : Untouched references index members start) :
    Meets (members.forM fun reference =>
        if reference.wanted? = primary? members then pure () else redirect storedText reference) start
      (fun _ current => Over source current.extension
        ∧ Handled storedText (primary? members) members start current)
      (Obstacle references) := by
  refine Meets.forM (fun done current => Over source current.extension
    ∧ Handled storedText (primary? members) done start current) ?_ ⟨hover, .nothing _ _ _⟩
  rintro done reference rest current hitems ⟨hoverCurrent, hhandled⟩
  have hmem : reference ∈ members := by
    rw [hitems]
    exact List.mem_append_right _ List.mem_cons_self
  have hdone : ∀ other ∈ done, other ∈ members := by
    intro other hother
    rw [hitems]
    exact List.mem_append_left _ hother
  by_cases hwanted : reference.wanted? = primary? members
  · rw [if_pos hwanted]
    exact Meets.pure ⟨hoverCurrent, hhandled.skip hwanted⟩
  · rw [if_neg hwanted]
    refine (redirect_meets hoverCurrent (hhandled.adds.2.isUtf8 hstored)).imp ?_ ?_
    · rintro _ next ⟨hoverNext, found, hredirected⟩
      refine ⟨hoverNext, hhandled.redirect (fun other hother => ?_) hwanted hredirected⟩
      exact huntouched.slots other (hdone other hother) reference hmem
    · intro error hfails
      exact obstacle_of_redirectFails huntouched hmem hwanted hhandled hdone hfails

structure Prepared (index : UInt16) (primary : Option String) (start current : Relinking) : Prop where
  grows : start.extension.Grows current.extension
  patches_eq : current.patches = start.patches
  others : ∀ other, other ≠ index → current.extension.base.get? other = start.extension.base.get? other
  unclaimed : primary = none → current.extension.base.get? index = start.extension.base.get? index
  claimed : ∀ text, primary = some text →
    (∃ named, current.extension.base.get? index = some (.string named)
      ∧ current.extension.pool.get? named = some (.utf8 (ModifiedUtf8.ofString text)))
    ∧ (ModifiedUtf8.ofString text).length ≤ maxTextSize

theorem Prepared.nothing (index : UInt16) (start : Relinking) : Prepared index none start start where
  grows := .refl _
  patches_eq := rfl
  others _ _ := rfl
  unclaimed _ := rfl
  claimed := nofun

theorem prepare_meets {text : String} (hover : Over source start.extension)
    (hget : source.get? index = some (.string storedText)) :
    Meets (extending (utf8 text) >>= fun named => extending (repoint index named)) start
      (fun _ current => Over source current.extension ∧ Prepared index (some text) start current)
      (TextFails text) := by
  refine Meets.bind (extending_meets (utf8_over hover)) ?_
  rintro named middle ⟨⟨hoverMiddle, hadds, hnamed, hshort⟩, hpatchesMiddle⟩
  have hrepoint : Meets (repoint index named) middle.extension
      (fun _ extension => extension = middle.extension.repointed index named) (TextFails text) := repoint_meets rfl
  refine (extending_meets hrepoint).imp ?_ fun _ h => h
  rintro _ current ⟨hextension, hpatches⟩
  have htext := get?_of_textIndex? hoverMiddle hnamed
  have hutf8 : middle.extension.pool.isUtf8 named = true := by
    rw [ConstantPool.isUtf8, htext]
  obtain ⟨old, hold⟩ := hoverMiddle.get?_string hget
  have hgrows : middle.extension.Grows current.extension := by
    rw [hextension]
    exact grows_repointed hold
  refine ⟨?_, hadds.2.trans hgrows, hpatches.trans hpatchesMiddle, ?_, (absurd · (Option.some_ne_none text)), ?_⟩
  · rw [hextension]
    exact hoverMiddle.repointed hget hutf8
  · intro other hother
    rw [hextension, get?_repointed_of_ne hother, hadds.1]
  · rintro _ ⟨⟩
    refine ⟨⟨named, ?_, hgrows.get? htext fun _ => Constant.noConfusion⟩, hshort⟩
    rw [hextension]
    exact get?_repointed_same hold

/-- What the references have come to once the constant itself has its text. -/
theorem GroupSettled.of_handled {middle : Relinking}
    (hprepared : Prepared index (primary? members) start middle)
    (hfresh : ∀ member ∈ members, start.patches[member.slot.position]? = none)
    (hhandled : Handled storedText (primary? members) members middle current) :
    GroupSettled storedText index members start current where
  grows := hprepared.grows.trans hhandled.adds.2
  others other hother := by rw [hhandled.adds.1, hprepared.others other hother]
  unclaimed hnone := by rw [hhandled.adds.1, hprepared.unclaimed hnone]
  claimed text hprimary := by
    obtain ⟨⟨named, hbase, hnamed⟩, -⟩ := hprepared.claimed text hprimary
    exact ⟨named, by rw [hhandled.adds.1, hbase], hhandled.adds.2.get? hnamed nofun⟩
  redirected := hhandled.redirected
  origin position patch hpatch := by
    rw [← hprepared.patches_eq]
    exact hhandled.origin position patch hpatch
  kept position patch hpatch := by
    refine hhandled.kept position patch (by rw [hprepared.patches_eq, hpatch]) fun member hmember _ hposition => ?_
    rw [← hposition, hfresh member hmember] at hpatch
    cases hpatch
  short reference hmem text hwanted := by
    by_cases hprimary : reference.wanted? = primary? members
    · exact (hprepared.claimed text (hprimary.symm.trans hwanted)).2
    · exact hhandled.short reference hmem hprimary text hwanted

/-- From a prepared state, giving the other references constants of their own settles them all. -/
theorem redirectAll_settles {middle : Relinking} (hover : Over source middle.extension)
    (hprepared : Prepared index (primary? members) start middle)
    (hstored : start.extension.pool.isUtf8 storedText = true)
    (huntouched : Untouched references index members start) :
    Meets (members.forM fun reference =>
        if reference.wanted? = primary? members then pure () else redirect storedText reference) middle
      (fun _ current => Over source current.extension
        ∧ GroupSettled storedText index members start current)
      (Obstacle references) := by
  have huntouchedMiddle := huntouched.of_patches_eq hprepared.patches_eq
  have hall := redirectAll_meets hover (hprepared.grows.isUtf8 hstored) huntouchedMiddle
  refine hall.imp ?_ fun _ h => h
  rintro _ current ⟨hoverCurrent, hhandled⟩
  exact ⟨hoverCurrent, .of_handled hprepared huntouched.fresh hhandled⟩

theorem GroupSettled.of_quiet (hquiet : ∀ member ∈ members, member.wanted? = none)
    (hfresh : ∀ member ∈ members, start.patches[member.slot.position]? = none) :
    GroupSettled storedText index members start start := by
  have hprimary : primary? members = none := by
    by_contra hsome
    obtain ⟨text, htext⟩ := Option.ne_none_iff_exists'.mp hsome
    obtain ⟨first, hfirst, -, hwanted⟩ := exists_of_primary? htext
    rw [hquiet first hfirst] at hwanted
    cases hwanted
  have hleft : ∀ member ∈ members, member.wanted? = primary? members := by
    intro member hmember
    rw [hquiet member hmember, hprimary]
  have hprepared : Prepared index (primary? members) start start := by
    rw [hprimary]
    exact .nothing index start
  exact .of_handled hprepared hfresh
    ⟨.refl _, fun member hmember hdiffers => absurd (hleft member hmember) hdiffers, fun _ _ => .inl,
      fun _ _ hpatch _ => hpatch, fun member hmember hdiffers => absurd (hleft member hmember) hdiffers⟩

theorem textIndex_meets {fails : ClassError → Prop} (hget : source.get? index = some (.string storedText)) :
    Meets (liftM (textIndex source index) : RelinkingM UInt16) start (fun found state =>
      storedText = found ∧ start = state)
      fails := by
  have htextIndex : textIndex source index = .ok storedText := by
    rw [textIndex, ConstantPool.get_eq_ok.mpr hget]
    rfl
  rw [htextIndex]
  exact Meets.pure ⟨rfl, rfl⟩

theorem relinkString_meets (hover : Over source start.extension)
    (hget : source.get? index = some (.string storedText))
    (hstored : start.extension.pool.isUtf8 storedText = true)
    (huntouched : Untouched references index members start) :
    Meets (relinkString source index members) start
      (fun _ current => Over source current.extension
        ∧ GroupSettled storedText index members start current)
      (Obstacle references) := by
  rw [relinkString]
  by_cases hquiet : members.all (·.wanted?.isNone)
  · rw [if_pos hquiet]
    refine Meets.pure ⟨hover, .of_quiet (fun member hmember => ?_) huntouched.fresh⟩
    exact Option.isNone_iff_eq_none.mp (List.all_eq_true.mp hquiet member hmember)
  · rw [if_neg hquiet]
    refine Meets.bind (textIndex_meets hget) ?_
    rintro _ _ ⟨rfl, rfl⟩
    cases hprimary : primary? members with
    | none =>
      have hprepared : Prepared index (primary? members) start start := by
        rw [hprimary]
        exact .nothing index start
      have hsettles := redirectAll_settles hover hprepared hstored huntouched
      rwa [hprimary] at hsettles
    | some text =>
      obtain ⟨first, hfirst, -, hwanted⟩ := exists_of_primary? hprimary
      have hfails : ∀ error, TextFails text error → Obstacle references error := by
        rintro error (rfl | ⟨hlong, rfl⟩)
        · exact .pool
        · exact .text (huntouched.mem_references hfirst) hwanted hlong
      have hprepare := (prepare_meets hover hget).imp (fun _ _ h => h) hfails
      simp only
      rw [← bind_assoc]
      refine Meets.bind hprepare ?_
      rintro _ middle ⟨hoverMiddle, hprepared⟩
      rw [← hprimary] at hprepared
      have hsettles := redirectAll_settles hoverMiddle hprepared hstored huntouched
      rwa [hprimary] at hsettles

end Relinking

end Retoken
