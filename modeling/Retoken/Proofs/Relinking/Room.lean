import Mathlib.Data.List.Dedup
import Retoken.Proofs.PoolExtension.Interning
import Retoken.Proofs.Relinking.Refusals

/-!
# Room for a relinking

A relinking adds each text that some site wants at most once, a string for it at most once, and at most one string for each text that a string of the pool names. So a pool that leaves room for all of these is never found full.
-/

namespace Retoken

open Text PoolExtension

/-- The texts that sites want and do not have, each of them once. -/
def Declaration.wantedTexts (declaration : Declaration StringSite) : List String :=
  (declaration.sites.filterMap (·.wanted?)).dedup

/-- The indices of the texts that the strings of a pool name, each of them once. -/
def ConstantPool.namedTexts (pool : ConstantPool) : List UInt16 :=
  (pool.slots.toList.filterMap fun slot =>
    match slot with
    | some (.string text) => some text
    | _ => none).dedup

theorem ConstantPool.mem_namedTexts {pool : ConstantPool} {index text : UInt16}
    (hget : pool.get? index = some (.string text)) : text ∈ pool.namedTexts := by
  rw [namedTexts, List.mem_dedup, List.mem_filterMap]
  exact ⟨_, Array.mem_toList_iff.mpr (Array.mem_of_getElem? (Option.join_eq_some_iff.mp hget)), rfl⟩

namespace PoolExtension

variable {source : ConstantPool} {extension extension' : PoolExtension} {texts : List String} {named : List UInt16}
  {constant : Constant} {index : UInt16} {text : String}

/-- A constant that relinking may add: a text, a string with it, or a string that names a text of old. -/
inductive Accounted (extension : PoolExtension) (texts : List String) (named : List UInt16) : Constant → Prop where
  | utf8 {text : String} (hmem : text ∈ texts) : Accounted extension texts named (.utf8 (ModifiedUtf8.ofString text))
  | string {text : String} {index : UInt16} (hmem : text ∈ texts) (hindex : extension.textIndex? text = some index) :
      Accounted extension texts named (.string index)
  | naming {index : UInt16} (hmem : index ∈ named) : Accounted extension texts named (.string index)

theorem Accounted.of_textIndex? (haccounted : extension.Accounted texts named constant)
    (hkept : ∀ text index, extension.textIndex? text = some index → extension'.textIndex? text = some index) :
    extension'.Accounted texts named constant := by
  cases haccounted with
  | utf8 hmem => exact .utf8 hmem
  | string hmem hindex => exact .string hmem (hkept _ _ hindex)
  | naming hmem => exact .naming hmem

def candidates (extension : PoolExtension) (texts : List String) (named : List UInt16) : List Constant :=
  texts.map (fun text => .utf8 (ModifiedUtf8.ofString text))
    ++ (texts.filterMap extension.textIndex?).map .string ++ named.map .string

theorem Accounted.mem_candidates (haccounted : extension.Accounted texts named constant) :
    constant ∈ extension.candidates texts named := by
  rw [candidates]
  cases haccounted with
  | utf8 hmem => exact List.mem_append_left _ (List.mem_append_left _ (List.mem_map_of_mem hmem))
  | string hmem hindex =>
    refine List.mem_append_left _ (List.mem_append_right _ (List.mem_map_of_mem ?_))
    exact List.mem_filterMap.mpr ⟨_, hmem, hindex⟩
  | naming hmem => exact List.mem_append_right _ (List.mem_map_of_mem hmem)

theorem length_le_of_accounted {constants : List Constant} (hnodup : constants.Nodup)
    (haccounted : ∀ constant ∈ constants, extension.Accounted texts named constant) :
    constants.length ≤ 2 * texts.length + named.length := by
  have hsubperm : constants.Subperm (extension.candidates texts named) :=
    List.subperm_of_subset hnodup fun constant hmem => (haccounted constant hmem).mem_candidates
  have hstrings : (texts.filterMap extension.textIndex?).length ≤ texts.length := List.length_filterMap_le _ _
  have hlength := hsubperm.length_le
  rw [candidates, List.length_append, List.length_append, List.length_map, List.length_map, List.length_map] at hlength
  omega

/-- An extension that has room for everything that may be added, and of which only that was added. -/
structure Tallied (source : ConstantPool) (texts : List String) (named : List UInt16) (extension : PoolExtension) :
    Prop where
  based : Over source extension
  unrepeated : extension.Unrepeated
  accounted : ∀ constant ∈ extension.added, extension.Accounted texts named constant
  room : source.slots.size + 2 * texts.length + named.length ≤ maxSlots

theorem Tallied.start (hroom : source.slots.size + 2 * texts.length + named.length ≤ maxSlots) :
    Tallied source texts named { base := source } where
  based := .start (by omega)
  unrepeated := .start source
  accounted _ hmem := absurd hmem (Array.not_mem_empty _)
  room := hroom

/-! ### Requests -/

theorem Tallied.slotCount_lt (htallied : Tallied source texts named extension)
    (haccounted : extension.Accounted texts named constant) (habsent : extension.addedIndex? constant = none) :
    extension.slotCount < maxSlots := by
  have hnodup : (constant :: extension.added.toList).Nodup :=
    List.nodup_cons.mpr ⟨fun hmem => not_mem_of_addedIndex? habsent (Array.mem_toList_iff.mp hmem),
      htallied.unrepeated.nodup⟩
  have hall : ∀ other ∈ constant :: extension.added.toList, extension.Accounted texts named other :=
    List.forall_mem_cons.mpr ⟨haccounted, fun other hother => htallied.accounted other (Array.mem_toList_iff.mp hother)⟩
  have hlength := length_le_of_accounted hnodup hall
  have hroom := htallied.room
  rw [List.length_cons, Array.length_toList] at hlength
  rw [slotCount, htallied.based.size_eq]
  omega

theorem Tallied.pushed (htallied : Tallied source texts named extension) (hfresh : Fresh extension.pool constant)
    (haccounted : extension.Accounted texts named constant) (habsent : extension.addedIndex? constant = none)
    (hnew : ∀ bytes, constant = .utf8 bytes → extension.base.findUtf8? bytes = none) :
    Tallied source texts named (extension.pushed constant) where
  based := htallied.based.pushed hfresh (htallied.slotCount_lt haccounted habsent)
  unrepeated := htallied.unrepeated.pushed habsent hnew
  accounted other hother := by
    have hkept := fun text index (hindex : extension.textIndex? text = some index) =>
      (adds_pushed extension constant).textIndex? hindex
    rcases Array.mem_push.mp hother with hmem | rfl
    · exact (htallied.accounted other hmem).of_textIndex? hkept
    · exact haccounted.of_textIndex? hkept
  room := htallied.room

theorem utf8_tallied (htallied : Tallied source texts named extension) (hmem : text ∈ texts) :
    Meets (utf8 text) extension
      (fun index extension' => Tallied source texts named extension' ∧ extension'.textIndex? text = some index)
      (· ≠ .poolOverflow) := by
  have haccounted : extension.Accounted texts named (.utf8 (ModifiedUtf8.ofString text)) := .utf8 hmem
  refine utf8_meets (fun _ => nofun) (fun _ index hindex => ⟨htallied, hindex⟩) (fun hshort habsent _ => ?_)
    fun habsent hfull => ?_
  · obtain ⟨hnew, hunadded⟩ := textIndex?_eq_none.mp habsent
    refine ⟨htallied.pushed (.inl ⟨_, rfl, hshort⟩) haccounted hunadded ?_, textIndex?_pushed habsent⟩
    rintro _ ⟨⟩
    exact hnew
  · have hroom := htallied.slotCount_lt haccounted (textIndex?_eq_none.mp habsent).2
    exact absurd hfull (Nat.not_le_of_lt hroom)

theorem stringNaming_tallied (htallied : Tallied source texts named extension)
    (hutf8 : extension.pool.isUtf8 index = true) (haccounted : extension.Accounted texts named (.string index)) :
    Meets (stringNaming index) extension (fun _ extension' => Tallied source texts named extension')
      (· ≠ .poolOverflow) := by
  refine intern_meets (fun _ _ => htallied) (fun habsent _ => ?_) fun habsent hfull => ?_
  · exact htallied.pushed (.inr ⟨index, rfl, hutf8⟩) haccounted habsent nofun
  · exact absurd hfull (Nat.not_le_of_lt (htallied.slotCount_lt haccounted habsent))

theorem string_tallied (htallied : Tallied source texts named extension) (hmem : text ∈ texts) :
    Meets (string text) extension (fun _ extension' => Tallied source texts named extension') (· ≠ .poolOverflow) := by
  refine Meets.bind (utf8_tallied htallied hmem) ?_
  rintro index middle ⟨htalliedMiddle, hindex⟩
  refine stringNaming_tallied htalliedMiddle ?_ (.string hmem hindex)
  rw [ConstantPool.isUtf8, get?_of_textIndex? htalliedMiddle.based hindex]

/-! ### Repointing -/

theorem findIdx?_same {slots slots' : List (Option Constant)} (hsame : List.Forall₂ ConstantPool.SameSlot slots slots')
    (bytes : List UInt8) :
    slots'.findIdx? (· == some (.utf8 bytes)) = slots.findIdx? (· == some (.utf8 bytes)) := by
  induction hsame with
  | nil => rfl
  | cons hslot _ ih =>
    rw [List.findIdx?_cons, List.findIdx?_cons, ih]
    rcases hslot with rfl | ⟨_, _, rfl, rfl⟩
    · rfl
    · rfl

theorem Over.findUtf8?_eq (hover : Over source extension) (bytes : List UInt8) :
    extension.base.findUtf8? bytes = source.findUtf8? bytes := by
  have htoList : ∀ pool : ConstantPool, pool.findUtf8? bytes = pool.slots.toList.findIdx? (· == some (.utf8 bytes)) :=
    fun pool => List.findIdx?_toArray _ pool.slots.toList
  rw [htoList, htoList]
  exact findIdx?_same hover.sameSlots bytes

theorem Tallied.repointed {old : UInt16} {other : UInt16} (htallied : Tallied source texts named extension)
    (hget : source.get? index = some (.string old)) (hutf8 : extension.pool.isUtf8 other = true) :
    Tallied source texts named (extension.repointed index other) := by
  have hover := htallied.based.repointed hget hutf8
  have hfind : ∀ bytes, (extension.repointed index other).base.findUtf8? bytes = extension.base.findUtf8? bytes :=
    fun bytes => (hover.findUtf8?_eq bytes).trans (htallied.based.findUtf8?_eq bytes).symm
  refine ⟨hover, ⟨htallied.unrepeated.nodup, fun bytes hmem => ?_⟩, fun constant hmem => ?_, htallied.room⟩
  · rw [hfind]
    exact htallied.unrepeated.new bytes hmem
  · refine (htallied.accounted constant hmem).of_textIndex? fun text found hfound => ?_
    have hsize : (extension.repointed index other).base.slots.size = extension.base.slots.size :=
      hover.size_eq.trans htallied.based.size_eq.symm
    rw [textIndex?, hfind, addedIndex?, hsize]
    exact hfound

end PoolExtension

/-! ### Relinking -/

namespace Relinking

variable {source : ConstantPool} {texts : List String} {named : List UInt16} {storedText index : UInt16}
  {start current : Relinking} {reference : Reference} {members : List Reference}

theorem redirect_tallied (htallied : Tallied source texts named current.extension)
    (hwanted : ∀ text, reference.wanted? = some text → text ∈ texts) (hnamed : storedText ∈ named)
    (hutf8 : source.isUtf8 storedText = true) :
    Meets (redirect storedText reference) current (fun _ current' => Tallied source texts named current'.extension)
      (· ≠ .poolOverflow) := by
  have hrequest : Meets (request storedText reference.wanted?) current.extension
      (fun _ extension => Tallied source texts named extension) (· ≠ .poolOverflow) := by
    cases hwantedText : reference.wanted? with
    | some text => exact string_tallied htallied (hwanted text hwantedText)
    | none => exact stringNaming_tallied htallied (htallied.based.isUtf8 hutf8) (.naming hnamed)
  refine Meets.bind (extending_meets hrequest) ?_
  rintro found middle ⟨htalliedMiddle, -⟩
  simp only
  by_cases hnarrow : reference.slot.kind = .narrowString ∧ 0xFF < found.toNat
  · rw [if_pos hnarrow]
    exact Meets.throw_bind nofun
  · rw [if_neg hnarrow]
    refine patch_meets.imp ?_ ?_
    · rintro _ current' ⟨hextension, -⟩
      rwa [hextension]
    · rintro _ ⟨rfl, -⟩
      nofun

theorem prepare_tallied {text : String} (htallied : Tallied source texts named current.extension) (hmem : text ∈ texts)
    (hget : source.get? index = some (.string storedText)) :
    Meets (extending (utf8 text) >>= fun found => extending (repoint index found)) current
      (fun _ current' => Tallied source texts named current'.extension) (· ≠ .poolOverflow) := by
  refine Meets.bind (extending_meets (utf8_tallied htallied hmem)) ?_
  rintro found middle ⟨⟨htalliedMiddle, hfound⟩, -⟩
  have hutf8 : middle.extension.pool.isUtf8 found = true := by
    rw [ConstantPool.isUtf8, get?_of_textIndex? htalliedMiddle.based hfound]
  have hrepoint : Meets (repoint index found) middle.extension
      (fun _ extension => Tallied source texts named extension) (· ≠ .poolOverflow) :=
    repoint_meets (htalliedMiddle.repointed hget hutf8)
  exact (extending_meets hrepoint).imp (fun _ _ h => h.1) fun _ h => h

theorem relinkString_tallied (htallied : Tallied source texts named current.extension)
    (hget : source.get? index = some (.string storedText)) (hutf8 : source.isUtf8 storedText = true)
    (hnamed : storedText ∈ named)
    (hwanted : ∀ member ∈ members, ∀ text, member.wanted? = some text → text ∈ texts) :
    Meets (relinkString source index members) current
      (fun _ current' => Tallied source texts named current'.extension) (· ≠ .poolOverflow) := by
  have hredirects : ∀ (primary : Option String) (current : Relinking), Tallied source texts named current.extension →
      Meets (members.forM fun reference =>
          if reference.wanted? = primary then pure () else redirect storedText reference) current
        (fun _ current' => Tallied source texts named current'.extension) (· ≠ .poolOverflow) := by
    intro primary current htallied
    refine Meets.forM (fun _ (current : Relinking) => Tallied source texts named current.extension) ?_ htallied
    rintro done reference rest current rfl htallied
    have hmem : reference ∈ done ++ reference :: rest := List.mem_append_right _ List.mem_cons_self
    by_cases hprimary : reference.wanted? = primary
    · rw [if_pos hprimary]
      exact Meets.pure htallied
    · rw [if_neg hprimary]
      exact redirect_tallied htallied (hwanted reference hmem) hnamed hutf8
  rw [relinkString]
  by_cases hquiet : members.all (·.wanted?.isNone)
  · rw [if_pos hquiet]
    exact Meets.pure htallied
  · rw [if_neg hquiet]
    refine Meets.bind (textIndex_meets hget) ?_
    rintro _ _ ⟨rfl, rfl⟩
    cases hprimary : primary? members with
    | none => exact hredirects none current htallied
    | some text =>
      obtain ⟨first, hfirst, -, hfirstWanted⟩ := exists_of_primary? hprimary
      simp only
      rw [← bind_assoc]
      refine Meets.bind (prepare_tallied htallied (hwanted first hfirst text hfirstWanted) hget) ?_
      exact fun _ middle htalliedMiddle => hredirects (some text) middle htalliedMiddle

theorem relinkText_tallied (htallied : Tallied source texts named current.extension)
    (hwanted : ∀ text, reference.wanted? = some text → text ∈ texts) :
    Meets (relinkText reference) current (fun _ current' => Tallied source texts named current'.extension)
      (· ≠ .poolOverflow) := by
  rw [relinkText]
  cases hwantedText : reference.wanted? with
  | none => exact Meets.pure htallied
  | some text =>
    refine Meets.bind (extending_meets (utf8_tallied htallied (hwanted text hwantedText))) ?_
    rintro found middle ⟨⟨htalliedMiddle, -⟩, -⟩
    refine patch_meets.imp ?_ ?_
    · rintro _ current' ⟨hextension, -⟩
      rwa [hextension]
    · rintro _ ⟨rfl, -⟩ ⟨⟩

end Relinking

namespace ClassFile

open Relinking

variable {file : ClassFile} {methods : List BootstrapMethod} {held : List Slot}

theorem mem_wantedTexts {site : StringSite} {text : String} (hsite : site ∈ file.declaration.sites)
    (hwanted : site.wanted? = some text) : text ∈ file.declaration.wantedTexts := by
  rw [Declaration.wantedTexts, List.mem_dedup]
  exact List.mem_filterMap.mpr ⟨site, hsite, hwanted⟩

/-- A file whose pool has room for all that may be wanted is not refused for want of room. -/
theorem Legible.relink_ne_poolOverflow (hlegible : file.Legible methods held)
    (hroom : file.pool.slots.size + 2 * file.declaration.wantedTexts.length + file.pool.namedTexts.length ≤ maxSlots) :
    file.relink ≠ .error .poolOverflow := by
  have hsettle : Meets file.settle { extension := { base := file.pool } }
      (fun _ current => Tallied file.pool file.declaration.wantedTexts file.pool.namedTexts current.extension)
      (· ≠ .poolOverflow) := by
    refine Meets.bind (Meets.forM (fun _ (current : Relinking) =>
      Tallied file.pool file.declaration.wantedTexts file.pool.namedTexts current.extension) ?_ (.start hroom)) ?_
    -- The tally is kept by every round of both loops, since all that a reference wants is wanted by some site.
    · rintro done ⟨index, members⟩ rest current hentries htallied
      have hentry : (index, members) ∈ byIndex file.stringReferences := by
        rw [hentries]
        exact List.mem_append_right _ List.mem_cons_self
      obtain ⟨rfl, hne⟩ := mem_byIndex.mp hentry
      obtain ⟨first, hfirst⟩ := List.exists_mem_of_ne_nil _ hne
      obtain ⟨hfirstMem, rfl⟩ := mem_group.mp hfirst
      obtain ⟨storedText, hget, hutf8⟩ := hlegible.relinkable.named first hfirstMem
      refine relinkString_tallied htallied hget hutf8 (ConstantPool.mem_namedTexts hget) ?_
      intro member hmember text hwanted
      obtain ⟨site, hsite, rfl⟩ := exists_site_of_wanted (mem_group.mp hmember).1 hwanted
      exact mem_wantedTexts hsite hwanted
    · intro _ current htallied
      refine Meets.forM (fun _ (current : Relinking) =>
        Tallied file.pool file.declaration.wantedTexts file.pool.namedTexts current.extension) ?_ htallied
      intro done reference rest current hreferences htallied
      have hmem : reference ∈ file.textReferences := by
        rw [hreferences]
        exact List.mem_append_right _ List.mem_cons_self
      obtain ⟨site, hsite, -, rfl⟩ := mem_textReferences.mp hmem
      exact relinkText_tallied htallied fun text => mem_wantedTexts hsite
  intro herror
  rw [relink_eq] at herror
  cases hrun : file.settle { extension := { base := file.pool } } with
  | error error =>
    rw [hrun] at herror
    cases herror
    exact hsettle.of_error hrun rfl
  | ok result =>
    rw [hrun] at herror
    cases herror

end ClassFile

end Retoken
