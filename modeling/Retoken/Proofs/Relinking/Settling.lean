import Retoken.Proofs.PoolExtension.Readable
import Retoken.Proofs.Relinking.Groups

/-!
# Settling all references of a file

The references to string constants are settled group by group, and then those that name their texts directly. No round undoes what an earlier one did: the pool only grows, a constant is claimed in the round of its own group, and references to different constants stand at different positions.
-/

namespace Retoken

open Text PoolExtension

namespace Relinking

structure Relinkable (source : ConstantPool) (strings texts : List Reference) : Prop where
  size_le : source.slots.size ≤ maxSlots
  kinds : ∀ reference ∈ strings, reference.slot.kind.namesString = true
  slots : ∀ one ∈ strings, ∀ other ∈ strings,
    one.slot.position = other.slot.position → one.slot = other.slot
  named : ∀ reference ∈ strings, ∃ text, source.get? reference.slot.index = some (.string text)
    ∧ source.isUtf8 text = true
  apart : (texts.map (·.slot.position)).Nodup
  disjoint : ∀ reference ∈ strings, ∀ other ∈ texts, reference.slot.position ≠ other.slot.position

/-- The state after some references were settled, where `primary` is the text that each string constant itself takes. -/
structure Settled (source : ConstantPool) (primary : UInt16 → Option String) (strings texts : List Reference)
    (current : Relinking) : Prop where
  extended : Over source current.extension
  unclaimed : ∀ index, primary index = none → current.extension.base.get? index = source.get? index
  claimed : ∀ reference ∈ strings, ∀ text, primary reference.slot.index = some text →
    ∃ named, current.extension.base.get? reference.slot.index = some (.string named)
      ∧ current.extension.pool.textAt? named = some text
  redirected : ∀ reference ∈ strings, reference.wanted? ≠ primary reference.slot.index →
    ∃ found, current.patches[reference.slot.position]? = some ⟨reference.slot.kind, found⟩
      ∧ (reference.slot.kind = .narrowString → found.toNat ≤ 0xFF)
      ∧ ∀ stored, source.shownText? reference.slot.kind reference.slot.index = some stored →
        current.extension.Shows found (reference.wanted?.getD stored)
  renamed : ∀ reference ∈ texts, ∀ text, reference.wanted? = some text →
    ∃ found, current.patches[reference.slot.position]? = some ⟨reference.slot.kind, found⟩
      ∧ current.extension.pool.textAt? found = some text
  origin : ∀ (position : Nat) (patch : Patch), current.patches[position]? = some patch →
    (∃ reference ∈ strings, reference.wanted? ≠ primary reference.slot.index
      ∧ reference.slot.position = position ∧ reference.slot.kind = patch.kind)
    ∨ ∃ reference ∈ texts, reference.wanted? ≠ none
      ∧ reference.slot.position = position ∧ reference.slot.kind = patch.kind
  short : ∀ reference ∈ strings ++ texts, ∀ text, reference.wanted? = some text →
    (ModifiedUtf8.ofString text).length ≤ maxTextSize

variable {source : ConstantPool} {primary : UInt16 → Option String} {strings texts members : List Reference}
  {start current : Relinking} {index storedText : UInt16} {reference : Reference}

theorem Settled.initial (hsize : source.slots.size ≤ maxSlots) :
    Settled source primary [] [] { extension := { base := source } } where
  extended := .start hsize
  unclaimed _ _ := rfl
  claimed _ hmem := absurd hmem List.not_mem_nil
  redirected _ hmem := absurd hmem List.not_mem_nil
  renamed _ hmem := absurd hmem List.not_mem_nil
  origin position patch hpatch := by
    have hnone : (∅ : Patches)[position]? = none := Std.TreeMap.getElem?_emptyc
    rw [hnone] at hpatch
    cases hpatch
  short _ hmem := absurd hmem List.not_mem_nil

/-- The round of one string constant. -/
theorem Settled.group (hsettled : Settled source primary strings [] start)
    (hget : source.get? index = some (.string storedText)) (hindex : ∀ member ∈ members, member.slot.index = index)
    (hprimary : primary? members = primary index) (hnew : ∀ other ∈ strings, other.slot.index ≠ index)
    (hkinds : ∀ member ∈ members, member.slot.kind.namesString = true)
    (hover : Over source current.extension) (hgroup : GroupSettled storedText index members start current) :
    Settled source primary (strings ++ members) [] current where
  extended := hover
  unclaimed other hnone := by
    by_cases hother : other = index
    · subst hother
      rw [hgroup.unclaimed (hprimary.trans hnone), hsettled.unclaimed other hnone]
    · rw [hgroup.others other hother, hsettled.unclaimed other hnone]
  claimed other hother text htext := by
    rcases List.mem_append.mp hother with hmem | hmem
    · obtain ⟨named, hnamed, hshown⟩ := hsettled.claimed other hmem text htext
      exact ⟨named, by rw [hgroup.others _ (hnew other hmem), hnamed], hgroup.grows.textAt? hshown⟩
    · rw [hindex other hmem] at htext ⊢
      obtain ⟨named, hnamed, hshown⟩ := hgroup.claimed text (hprimary.trans htext)
      exact ⟨named, hnamed, textAt?_of_get? hshown⟩
  redirected other hother hdiffers := by
    rcases List.mem_append.mp hother with hmem | hmem
    · obtain ⟨found, hpatch, hnarrow, hshows⟩ := hsettled.redirected other hmem hdiffers
      exact ⟨found, hgroup.kept _ _ hpatch, hnarrow,
        fun stored hstored => (hshows stored hstored).grows hgroup.grows⟩
    · rw [hindex other hmem, ← hprimary] at hdiffers
      obtain ⟨found, hpatch, hnarrow, hfound⟩ := hgroup.redirected other hmem hdiffers
      refine ⟨found, hpatch, hnarrow, fun stored hstored => shows_of_ownIndex? hover ?_ hfound⟩
      rw [hindex other hmem, ConstantPool.shownText?_string (hkinds other hmem)] at hstored
      obtain ⟨textIndex, hstring, htext⟩ := hstored
      rw [hget] at hstring
      cases hstring
      exact hover.textAt?_kept htext
  renamed _ hmem := absurd hmem List.not_mem_nil
  origin position patch hpatch := by
    refine .inl ?_
    rcases hgroup.origin position patch hpatch with hstart | ⟨other, hother, hdiffers, hrest⟩
    · rcases hsettled.origin position patch hstart with ⟨other, hother, hrest⟩ | ⟨other, hother, -⟩
      · exact ⟨other, List.mem_append_left _ hother, hrest⟩
      · cases hother
    · rw [hprimary, ← hindex other hother] at hdiffers
      exact ⟨other, List.mem_append_right _ hother, hdiffers, hrest⟩
  short other hother := by
    rw [List.append_nil] at hother
    rcases List.mem_append.mp hother with hmem | hmem
    · exact hsettled.short other (List.mem_append_left _ hmem)
    · exact hgroup.short other hmem

/-- The round of a reference that names its text directly and keeps it. -/
theorem Settled.skip (hsettled : Settled source primary strings texts current) (hwanted : reference.wanted? = none) :
    Settled source primary strings (texts ++ [reference]) current where
  extended := hsettled.extended
  unclaimed := hsettled.unclaimed
  claimed := hsettled.claimed
  redirected := hsettled.redirected
  renamed other hother text htext := by
    rcases List.mem_append.mp hother with hmem | hmem
    · exact hsettled.renamed other hmem text htext
    · rw [List.mem_singleton.mp hmem, hwanted] at htext
      cases htext
  origin position patch hpatch := by
    rcases hsettled.origin position patch hpatch with hstring | ⟨other, hother, hrest⟩
    · exact .inl hstring
    · exact .inr ⟨other, List.mem_append_left _ hother, hrest⟩
  short other hother text htext := by
    rw [← List.append_assoc] at hother
    rcases List.mem_append.mp hother with hmem | hmem
    · exact hsettled.short other hmem text htext
    · rw [List.mem_singleton.mp hmem, hwanted] at htext
      cases htext

/-- The round of a reference that names its text directly and wants another. -/
theorem Settled.rename {text : String} {found : UInt16} (hsettled : Settled source primary strings texts start)
    (hwanted : reference.wanted? = some text) (hover : Over source current.extension)
    (hadds : start.extension.Adds current.extension) (hfound : current.extension.pool.textAt? found = some text)
    (hshort : (ModifiedUtf8.ofString text).length ≤ maxTextSize)
    (hpatches : current.patches = start.patches.insert reference.slot.position ⟨reference.slot.kind, found⟩)
    (hstrings : ∀ other ∈ strings, other.slot.position ≠ reference.slot.position)
    (htexts : ∀ other ∈ texts, other.slot.position ≠ reference.slot.position) :
    Settled source primary strings (texts ++ [reference]) current where
  extended := hover
  unclaimed other hnone := by rw [hadds.1, hsettled.unclaimed other hnone]
  claimed other hother wanted hprimary := by
    obtain ⟨named, hnamed, hshown⟩ := hsettled.claimed other hother wanted hprimary
    exact ⟨named, by rw [hadds.1, hnamed], hadds.2.textAt? hshown⟩
  redirected other hother hdiffers := by
    obtain ⟨own, hpatch, hnarrow, hshows⟩ := hsettled.redirected other hother hdiffers
    refine ⟨own, ?_, hnarrow, fun stored hstored => (hshows stored hstored).grows hadds.2⟩
    rw [hpatches, Patches.getElem?_insert, if_neg (hstrings other hother).symm, hpatch]
  renamed other hother wanted hwantedOther := by
    rw [hpatches]
    rcases List.mem_append.mp hother with hmem | hmem
    · obtain ⟨own, hpatch, hshown⟩ := hsettled.renamed other hmem wanted hwantedOther
      refine ⟨own, ?_, hadds.2.textAt? hshown⟩
      rw [Patches.getElem?_insert, if_neg (htexts other hmem).symm, hpatch]
    · rw [List.mem_singleton.mp hmem] at hwantedOther ⊢
      rw [hwanted] at hwantedOther
      cases hwantedOther
      exact ⟨found, by rw [Patches.getElem?_insert, if_pos rfl], hfound⟩
  origin position patch hpatch := by
    rw [hpatches, Patches.getElem?_insert] at hpatch
    split at hpatch
    case isTrue hposition =>
      cases hpatch
      refine .inr ⟨reference, List.mem_append_right _ (List.mem_singleton.mpr rfl), ?_, hposition, rfl⟩
      rw [hwanted]
      nofun
    case isFalse =>
      rcases hsettled.origin position patch hpatch with hstring | ⟨other, hother, hrest⟩
      · exact .inl hstring
      · exact .inr ⟨other, List.mem_append_left _ hother, hrest⟩
  short other hother wanted hwantedOther := by
    rw [← List.append_assoc] at hother
    rcases List.mem_append.mp hother with hmem | hmem
    · exact hsettled.short other hmem wanted hwantedOther
    · rw [List.mem_singleton.mp hmem, hwanted] at hwantedOther
      cases hwantedOther
      exact hshort

inductive Unsettled (strings texts : List Reference) : ClassError → Prop where
  | string {error : ClassError} (hobstacle : Obstacle strings error) : Unsettled strings texts error
  | text {reference : Reference} {text : String} {error : ClassError} (hmem : reference ∈ texts)
      (hwanted : reference.wanted? = some text) (hfails : TextFails text error) : Unsettled strings texts error

def primaryOf (strings : List Reference) (index : UInt16) : Option String :=
  primary? (group strings index)

theorem relinkStrings_meets (hrelinkable : Relinkable source strings texts) :
    Meets ((byIndex strings).forM fun entry => relinkString source entry.1 entry.2)
      { extension := { base := source } }
      (fun _ current => Settled source (primaryOf strings) ((byIndex strings).flatMap (·.2)) [] current)
      (Unsettled strings texts) := by
  refine Meets.forM (fun (done : List (UInt16 × List Reference)) current =>
    Settled source (primaryOf strings) (done.flatMap (·.2)) [] current) ?_ (.initial hrelinkable.size_le)
  rintro done ⟨index, members⟩ rest start hentries hsettled
  have hentry : (index, members) ∈ byIndex strings := by
    rw [hentries]
    exact List.mem_append_right _ List.mem_cons_self
  obtain ⟨hmembers, hne⟩ := mem_byIndex.mp hentry
  have hstrings : ∀ member ∈ members, member ∈ strings ∧ member.slot.index = index := by
    intro member hmember
    rw [hmembers] at hmember
    exact mem_group.mp hmember
  obtain ⟨first, hfirst⟩ := List.exists_mem_of_ne_nil members hne
  obtain ⟨storedText, hget, hutf8⟩ := hrelinkable.named first (hstrings first hfirst).1
  rw [(hstrings first hfirst).2] at hget
  have hdone : ∀ other ∈ done.flatMap (·.2), other ∈ strings ∧ other.slot.index ≠ index :=
    fun other hother => index_ne_of_mem_earlier hentries hother
  -- No slot of this group is patched yet: patches are at slots of earlier groups, which are about other constants.
  have huntouched : Untouched strings index members start := by
    refine ⟨hmembers, fun one hone other hother => ?_, fun member hmember => ?_⟩
    · exact hrelinkable.slots one (hstrings one hone).1 other (hstrings other hother).1
    · rw [Option.eq_none_iff_forall_ne_some]
      intro patch hpatch
      rcases hsettled.origin _ _ hpatch with ⟨other, hother, -, hposition, -⟩ | ⟨other, hother, -⟩
      · have hslot := hrelinkable.slots other (hdone other hother).1 member (hstrings member hmember).1 hposition
        exact (hdone other hother).2 (by rw [hslot, (hstrings member hmember).2])
      · cases hother
  have hstored := hsettled.extended.isUtf8 hutf8
  refine (relinkString_meets hsettled.extended hget hstored huntouched).imp ?_ fun _ => .string
  rintro _ current ⟨hover, hgroup⟩
  rw [List.flatMap_append, List.flatMap_singleton]
  refine hsettled.group hget (fun member hmember => (hstrings member hmember).2) ?_
    (fun other hother => (hdone other hother).2) ?_ hover hgroup
  · rw [primaryOf, hmembers]
  · exact fun member hmember => hrelinkable.kinds member (hstrings member hmember).1

theorem Settled.of_mem_iff {strings' : List Reference} (hsettled : Settled source primary strings texts current)
    (hmem : ∀ {reference}, reference ∈ strings ↔ reference ∈ strings') :
    Settled source primary strings' texts current where
  extended := hsettled.extended
  unclaimed := hsettled.unclaimed
  claimed other hother := hsettled.claimed other (hmem.mpr hother)
  redirected other hother := hsettled.redirected other (hmem.mpr hother)
  renamed := hsettled.renamed
  origin position patch hpatch := by
    rcases hsettled.origin position patch hpatch with ⟨other, hother, hrest⟩ | htext
    · exact .inl ⟨other, hmem.mp hother, hrest⟩
    · exact .inr htext
  short other hother := by
    rcases List.mem_append.mp hother with hstring | htext
    · exact hsettled.short other (List.mem_append_left _ (hmem.mpr hstring))
    · exact hsettled.short other (List.mem_append_right _ htext)

theorem relinkTexts_meets (hrelinkable : Relinkable source strings texts)
    (hsettled : Settled source primary strings [] start) :
    Meets (texts.forM relinkText) start (fun _ current => Settled source primary strings texts current)
      (Unsettled strings texts) := by
  refine Meets.forM (fun done current => Settled source primary strings done current) ?_ hsettled
  intro done reference rest start htexts hsettled
  have hmem : reference ∈ texts := by
    rw [htexts]
    exact List.mem_append_right _ List.mem_cons_self
  rw [relinkText]
  cases hwanted : reference.wanted? with
  | none => exact Meets.pure (hsettled.skip hwanted)
  | some text =>
    have hfound : Meets (extending (utf8 text)) start _ (Unsettled strings texts) :=
      (extending_meets (utf8_over hsettled.extended)).imp (fun _ _ h => h) fun _ => .text hmem hwanted
    refine Meets.bind hfound ?_
    rintro found middle ⟨⟨hover, hadds, hindex, hshort⟩, hpatchesMiddle⟩
    have hstrings : ∀ other ∈ strings, other.slot.position ≠ reference.slot.position :=
      fun other hother => hrelinkable.disjoint other hother reference hmem
    have hdone : ∀ other ∈ done, other.slot.position ≠ reference.slot.position := by
      intro other hother
      have hapart := hrelinkable.apart
      rw [htexts, List.map_append, List.map_cons, List.nodup_append] at hapart
      exact hapart.2.2 _ (List.mem_map_of_mem hother) _ List.mem_cons_self
    refine patch_meets.imp ?_ ?_
    · rintro _ current ⟨hextension, hpatches, -⟩
      rw [hpatchesMiddle] at hpatches
      refine hsettled.rename hwanted ?_ ?_ ?_ hshort hpatches hstrings hdone
      · rwa [hextension]
      · rwa [hextension]
      · rw [hextension]
        exact textAt?_of_get? (get?_of_textIndex? hover hindex)
    -- A conflict would need a patch at this slot, but strings and earlier texts are at other positions.
    · rintro error ⟨-, previous, hprevious, -⟩
      rw [hpatchesMiddle] at hprevious
      rcases hsettled.origin _ _ hprevious with ⟨other, hother, -, hposition, -⟩ | ⟨other, hother, -, hposition, -⟩
      · exact absurd hposition (hstrings other hother)
      · exact absurd hposition (hdone other hother)

end Relinking

namespace ClassFile

open Relinking

variable {file : ClassFile}

def settle (file : ClassFile) : RelinkingM Unit := do
  (byIndex file.stringReferences).forM fun entry => relinkString file.pool entry.1 entry.2
  file.textReferences.forM relinkText

theorem relink_eq (file : ClassFile) :
    file.relink = (file.settle { extension := { base := file.pool } }).map (·.2) := by
  change (file.settle { extension := { base := file.pool } } >>= fun result => pure result.2) = _
  cases file.settle { extension := { base := file.pool } } with
  | error => rfl
  | ok => rfl

theorem settle_meets (hrelinkable : Relinkable file.pool file.stringReferences file.textReferences) :
    Meets file.settle { extension := { base := file.pool } }
      (fun _ => Settled file.pool (primaryOf file.stringReferences) file.stringReferences file.textReferences)
      (Unsettled file.stringReferences file.textReferences) :=
  Meets.bind (relinkStrings_meets hrelinkable) fun _ _ hstart =>
    relinkTexts_meets hrelinkable (hstart.of_mem_iff mem_flatMap_byIndex)

theorem settled_of_relink {relinking : Relinking}
    (hrelinkable : Relinkable file.pool file.stringReferences file.textReferences)
    (hrelink : file.relink = .ok relinking) :
    Settled file.pool (primaryOf file.stringReferences) file.stringReferences file.textReferences relinking := by
  rw [relink_eq] at hrelink
  cases hrun : file.settle { extension := { base := file.pool } } with
  | error error =>
    rw [hrun] at hrelink
    cases hrelink
  | ok result =>
    rw [hrun] at hrelink
    cases hrelink
    exact (settle_meets hrelinkable).of_ok hrun

theorem unsettled_of_relink {error : ClassError}
    (hrelinkable : Relinkable file.pool file.stringReferences file.textReferences)
    (hrelink : file.relink = .error error) : Unsettled file.stringReferences file.textReferences error := by
  rw [relink_eq] at hrelink
  cases hrun : file.settle { extension := { base := file.pool } } with
  | error error =>
    rw [hrun] at hrelink
    cases hrelink
    exact (settle_meets hrelinkable).of_error hrun
  | ok result =>
    rw [hrun] at hrelink
    cases hrelink

end ClassFile

end Retoken
