import Retoken.Proofs.PoolExtension.Bytes
import Retoken.Proofs.PoolExtension.Interning

/-!
# Calls on an extension

An extension is asked for texts and strings any number of times. `callAll` makes calls one after the other and goes on after a call that fails, with what that call has added. `Interned` says what any row of calls comes to: the constants that were added stand behind the pool in the order of their indices, no two of them are the same, an index that was answered means what was asked for, and what was answered once is answered like that for ever.
-/

namespace Retoken

open BigEndian Text

namespace PoolExtension

inductive Call where
  | utf8 (text : String)
  | string (text : String)
  | stringNaming (text : UInt16)

namespace Call

def perform : Call → Extending UInt16
  | utf8 text => PoolExtension.utf8 text
  | string text => PoolExtension.string text
  | stringNaming text => PoolExtension.stringNaming text

def text? : Call → Option String
  | utf8 text | string text => some text
  | stringNaming _ => none

def Means (pool : ConstantPool) (index : UInt16) : Call → Prop
  | utf8 text => pool.get? index = some (.utf8 (ModifiedUtf8.ofString text))
  | string text => ∃ named, pool.get? index = some (.string named)
      ∧ pool.get? named = some (.utf8 (ModifiedUtf8.ofString text))
  | stringNaming text => pool.get? index = some (.string text)

end Call

/-- A string may only be asked for with the index of a text constant. -/
def Permits (extension : PoolExtension) (call : Call) : Prop :=
  ∀ text, call = .stringNaming text → extension.pool.isUtf8 text = true

def answer (extension : PoolExtension) (call : Call) : Except ClassError UInt16 :=
  (call.perform extension).map (·.1)

/-- The extension after a call. If there is no room for a string, its text has been added all the same. -/
def after (extension : PoolExtension) (call : Call) : PoolExtension :=
  match call.perform extension with
  | .ok (_, next) => next
  | .error _ =>
    match call with
    | .string text =>
      match utf8 text extension with
      | .ok (_, next) => next
      | .error _ => extension
    | .utf8 _ | .stringNaming _ => extension

def callAll (extension : PoolExtension) : List Call → List (Call × Except ClassError UInt16) × PoolExtension
  | [] => ([], extension)
  | call :: calls =>
    let (answers, last) := (extension.after call).callAll calls
    ((call, extension.answer call) :: answers, last)

def PermitsAll (extension : PoolExtension) : List Call → Prop
  | [] => True
  | call :: calls => extension.Permits call ∧ (extension.after call).PermitsAll calls

instance (extension : PoolExtension) : (call : Call) → Decidable (extension.Permits call)
  | .utf8 _ | .string _ => .isTrue nofun
  | .stringNaming text =>
    decidable_of_iff (extension.pool.isUtf8 text = true)
      ⟨fun hutf8 _ hcall => Call.stringNaming.inj hcall ▸ hutf8, fun hpermits => hpermits text rfl⟩

instance decidablePermitsAll :
    (extension : PoolExtension) → (calls : List Call) → Decidable (extension.PermitsAll calls)
  | _, [] => .isTrue trivial
  | extension, call :: calls =>
    have := decidablePermitsAll (extension.after call) calls
    inferInstanceAs (Decidable (extension.Permits call ∧ (extension.after call).PermitsAll calls))

def Refuses (extension : PoolExtension) (call : Call) (error : ClassError) : Prop :=
  error = .poolOverflow ∧ extension.slotCount = maxSlots
    ∨ ∃ text, call.text? = some text ∧ maxTextSize < (ModifiedUtf8.ofString text).length
      ∧ error = .stringTooLong (ModifiedUtf8.ofString text).length

/-- Calls that were answered on an extension of a pool, and the extension after them. -/
structure Interned (source : ConstantPool) (answers : List (Call × Except ClassError UInt16)) (last : PoolExtension) :
    Prop where
  /-- The original constants stay where they are. -/
  base_eq : last.base = source
  slotCount_eq : last.slotCount = source.slots.size + last.added.size
  slotCount_le : last.slotCount ≤ maxSlots
  /-- The extended pool is written as its count, the original entries and those that were added. -/
  bytes : last.pool.toBytes = bytes16 (UInt16.ofNat last.slotCount)
    ++ (ConstantPool.entriesToBytes source.slots.toList ++ last.added.toList.flatMap Constant.toBytes)
  read : ∀ position rest, ConstantPool.read ⟨position, last.pool.toBytes ++ rest⟩
    = .ok (last.pool, ⟨position + last.pool.toBytes.length, rest⟩)
  kept : ∀ index constant, source.get? index = some constant → last.pool.get? index = some constant
  /-- Every added constant has the index of its place, which no word is too short for. -/
  placed : ∀ (i : Nat) constant, last.added[i]? = some constant →
    ∃ index : UInt16, index.toNat = source.slots.size + i ∧ last.pool.get? index = some constant
  textual : ∀ constant ∈ last.added, (∃ content, constant = .utf8 content) ∨ ∃ text, constant = .string text
  distinct : ∀ (i j : Nat) constant, last.added[i]? = some constant → last.added[j]? = some constant → i = j
  new : ∀ content, .utf8 content ∈ last.added → ∀ index, source.get? index ≠ some (.utf8 content)
  answered : ∀ call index, (call, .ok index) ∈ answers → call.Means last.pool index
  refused : ∀ call error, (call, .error error) ∈ answers → last.Refuses call error
  /-- What was answered once is answered in the same way for ever. -/
  repeated : answers.Pairwise fun earlier later => earlier.1 = later.1 → ∀ index, earlier.2 = .ok index →
    later.2 = .ok index

variable {source : ConstantPool} {extension extension' : PoolExtension} {call : Call} {calls : List Call}
  {index : UInt16} {text : String}

/-! ### Where the answers are -/

def found? (extension : PoolExtension) : Call → Option UInt16
  | .utf8 text => extension.textIndex? text
  | .string text => (extension.textIndex? text).bind fun index => extension.addedIndex? (.string index)
  | .stringNaming text => extension.addedIndex? (.string text)

theorem Adds.found? (hadds : extension.Adds extension') (hfound : extension.found? call = some index) :
    extension'.found? call = some index := by
  cases call with
  | utf8 text => exact hadds.textIndex? hfound
  | string text =>
    obtain ⟨named, htext, hstring⟩ := Option.bind_eq_some_iff.mp hfound
    exact Option.bind_eq_some_iff.mpr ⟨named, hadds.textIndex? htext, hadds.2.addedIndex? hstring⟩
  | stringNaming text => exact hadds.2.addedIndex? hfound

theorem means_of_found? (hover : Over source extension) (hfound : extension.found? call = some index) :
    call.Means extension.pool index := by
  cases call with
  | utf8 text => exact get?_of_textIndex? hover hfound
  | string text =>
    obtain ⟨named, htext, hstring⟩ := Option.bind_eq_some_iff.mp hfound
    exact ⟨named, (get?_of_addedIndex? hover.fits hstring).2, get?_of_textIndex? hover htext⟩
  | stringNaming text => exact (get?_of_addedIndex? hover.fits hfound).2

def Call.Short (call : Call) : Prop :=
  ∀ text, call.text? = some text → (ModifiedUtf8.ofString text).length ≤ maxTextSize

theorem utf8_of_found? (hshort : (ModifiedUtf8.ofString text).length ≤ maxTextSize)
    (hfound : extension.textIndex? text = some index) : utf8 text extension = .ok (index, extension) := by
  rw [utf8_eq, if_neg (Nat.not_lt_of_le hshort), hfound]

theorem stringNaming_of_found? {found : UInt16} (hfound : extension.addedIndex? (.string index) = some found) :
    stringNaming index extension = .ok (found, extension) := by
  rw [stringNaming, intern_eq, hfound]

theorem perform_of_found? (hshort : call.Short) (hfound : extension.found? call = some index) :
    call.perform extension = .ok (index, extension) := by
  cases call with
  | utf8 text => exact utf8_of_found? (hshort text rfl) hfound
  | string text =>
    obtain ⟨named, htext, hstring⟩ := Option.bind_eq_some_iff.mp hfound
    rw [Call.perform, string_eq, utf8_of_found? (hshort text rfl) htext]
    exact stringNaming_of_found? hstring
  | stringNaming text => exact stringNaming_of_found? hfound

/-! ### One call -/

structure Outcome (source : ConstantPool) (extension : PoolExtension) (call : Call) (answer : Except ClassError UInt16)
    (next : PoolExtension) : Prop where
  based : Over source next
  adds : extension.Adds next
  unrepeated : next.Unrepeated
  found : ∀ index, answer = .ok index → next.found? call = some index ∧ call.Short
  refused : ∀ error, answer = .error error → next.Refuses call error

theorem refuses_of_poolOverflow {error : ClassError} (hover : Over source extension) (herror : error = .poolOverflow)
    (hfull : error = .poolOverflow → maxSlots ≤ extension.slotCount) : extension.Refuses call error :=
  .inl ⟨herror, Nat.le_antisymm hover.fits (hfull herror)⟩

section

variable (hover : Over source extension) (hunrepeated : extension.Unrepeated)

include hover hunrepeated

theorem utf8_outcome :
    Meets (utf8 text) extension
      (fun index next => Outcome source extension (.utf8 text) (.ok index) next ∧ next.textIndex? text = some index
        ∧ (ModifiedUtf8.ofString text).length ≤ maxTextSize)
      (fun error => ∀ call : Call, call.text? = some text → extension.Refuses call error) := by
  refine ((utf8_over hover).and (utf8_unrepeated hunrepeated)).imp ?_ ?_
  · rintro index next ⟨⟨hoverNext, hadds, hindex, hshort⟩, hunrepeatedNext⟩
    refine ⟨⟨hoverNext, hadds, hunrepeatedNext, ?_, nofun⟩, hindex, hshort⟩
    rintro _ ⟨⟩
    refine ⟨hindex, ?_⟩
    rintro _ ⟨⟩
    exact hshort
  · rintro error ⟨hpool | ⟨hlong, rfl⟩, hfull⟩ call htext
    · exact refuses_of_poolOverflow hover hpool hfull
    · exact .inr ⟨text, htext, hlong, rfl⟩

theorem stringNaming_outcome (hutf8 : extension.pool.isUtf8 index = true) :
    Meets (stringNaming index) extension
      (fun found next => Outcome source extension (.stringNaming index) (.ok found) next
        ∧ next.addedIndex? (.string index) = some found)
      (fun error => ∀ call : Call, extension.Refuses call error) := by
  refine ((stringNaming_over hover hutf8).and (stringNaming_unrepeated hunrepeated)).imp ?_ ?_
  · rintro found next ⟨⟨hoverNext, hadds, hfound⟩, hunrepeatedNext⟩
    refine ⟨⟨hoverNext, hadds, hunrepeatedNext, ?_, nofun⟩, hfound⟩
    rintro _ ⟨⟩
    exact ⟨hfound, nofun⟩
  · rintro error ⟨hpool, hfull⟩ call
    exact refuses_of_poolOverflow hover hpool hfull

theorem outcome_of_refused {error : ClassError} (hrefused : extension.Refuses call error) :
    Outcome source extension call (.error error) extension where
  based := hover
  adds := .refl extension
  unrepeated := hunrepeated
  found := nofun
  refused := by
    rintro _ ⟨⟩
    exact hrefused

theorem string_outcome :
    Outcome source extension (.string text) (extension.answer (.string text)) (extension.after (.string text)) := by
  rw [answer, after, Call.perform, string_eq]
  have htext : Meets (utf8 text) extension _ _ := utf8_outcome hover hunrepeated
  cases hrun : utf8 text extension with
  | error error => exact outcome_of_refused hover hunrepeated (htext.of_error hrun _ rfl)
  | ok result =>
    obtain ⟨named, middle⟩ := result
    obtain ⟨houtcome, hnamed, hshort⟩ := htext.of_ok hrun
    have hutf8 : middle.pool.isUtf8 named = true := by
      rw [ConstantPool.isUtf8, get?_of_textIndex? houtcome.based hnamed]
    have hstring := stringNaming_outcome houtcome.based houtcome.unrepeated hutf8
    cases hrunString : stringNaming named middle with
    | error error =>
      simp only [hrunString]
      refine ⟨houtcome.based, houtcome.adds, houtcome.unrepeated, ?_, ?_⟩
      · rintro _ ⟨⟩
      · rintro _ ⟨⟩
        exact hstring.of_error hrunString _
    | ok result =>
      obtain ⟨found, next⟩ := result
      obtain ⟨houtcomeString, hfound⟩ := hstring.of_ok hrunString
      simp only [hrunString]
      refine ⟨houtcomeString.based, houtcome.adds.trans houtcomeString.adds, houtcomeString.unrepeated, ?_, ?_⟩
      · rintro _ ⟨⟩
        refine ⟨Option.bind_eq_some_iff.mpr ⟨named, houtcomeString.adds.textIndex? hnamed, hfound⟩, ?_⟩
        rintro _ ⟨⟩
        exact hshort
      · rintro _ ⟨⟩

/-- What any single call comes to. -/
theorem call_outcome (hpermits : extension.Permits call) :
    Outcome source extension call (extension.answer call) (extension.after call) := by
  cases call with
  | utf8 text =>
    have htext : Meets (utf8 text) extension _ _ := utf8_outcome hover hunrepeated
    rw [answer, after, Call.perform]
    cases hrun : utf8 text extension with
    | error error => exact outcome_of_refused hover hunrepeated (htext.of_error hrun _ rfl)
    | ok result => exact (htext.of_ok hrun).1
  | string text => exact string_outcome hover hunrepeated
  | stringNaming text =>
    have hstring := stringNaming_outcome hover hunrepeated (hpermits text rfl)
    rw [answer, after, Call.perform]
    cases hrun : stringNaming text extension with
    | error error => exact outcome_of_refused hover hunrepeated (hstring.of_error hrun _)
    | ok result => exact (hstring.of_ok hrun).1

end

/-! ### Any number of calls -/

theorem callAll_cons (extension : PoolExtension) (call : Call) (calls : List Call) :
    extension.callAll (call :: calls)
      = ((call, extension.answer call) :: ((extension.after call).callAll calls).1,
        ((extension.after call).callAll calls).2) :=
  rfl

theorem calls_of_callAll (extension : PoolExtension) (calls : List Call) :
    (extension.callAll calls).1.map (·.1) = calls := by
  induction calls generalizing extension with
  | nil => rfl
  | cons call calls ih => rw [callAll_cons, List.map_cons, ih]

theorem slotCount_le_of_adds (hadds : extension.Adds extension') : extension.slotCount ≤ extension'.slotCount := by
  obtain ⟨more, hmore⟩ := hadds.2.added
  rw [slotCount, slotCount, hadds.1, hmore, Array.size_append]
  omega

theorem Refuses.adds {error : ClassError} (hrefuses : extension.Refuses call error) (hadds : extension.Adds extension')
    (hover : Over source extension') : extension'.Refuses call error := by
  rcases hrefuses with ⟨hpool, hfull⟩ | hlong
  · refine .inl ⟨hpool, Nat.le_antisymm hover.fits ?_⟩
    rw [← hfull]
    exact slotCount_le_of_adds hadds
  · exact .inr hlong

/-- The extension after any number of calls. By induction on the calls: what one call keeps, all of them keep. -/
theorem callAll_outcome (hover : Over source extension) (hunrepeated : extension.Unrepeated)
    (hpermits : extension.PermitsAll calls) :
    Over source (extension.callAll calls).2 ∧ extension.Adds (extension.callAll calls).2
      ∧ (extension.callAll calls).2.Unrepeated := by
  induction calls generalizing extension with
  | nil => exact ⟨hover, .refl extension, hunrepeated⟩
  | cons call calls ih =>
    have houtcome := call_outcome hover hunrepeated hpermits.1
    obtain ⟨hoverLast, hadds, hunrepeatedLast⟩ := ih houtcome.based houtcome.unrepeated hpermits.2
    exact ⟨hoverLast, houtcome.adds.trans hadds, hunrepeatedLast⟩

/-- What an extension has is answered by its index whenever it is asked for. -/
theorem answer_of_found? (hover : Over source extension) (hunrepeated : extension.Unrepeated)
    (hpermits : extension.PermitsAll calls) (hshort : call.Short) (hfound : extension.found? call = some index) :
    ∀ answered ∈ (extension.callAll calls).1, answered.1 = call → answered.2 = .ok index := by
  induction calls generalizing extension with
  | nil => exact fun _ hmem => absurd hmem List.not_mem_nil
  | cons next calls ih =>
    have houtcome := call_outcome hover hunrepeated hpermits.1
    rw [callAll_cons]
    rintro answered hmem rfl
    rcases List.mem_cons.mp hmem with rfl | hlater
    · rw [answer, perform_of_found? hshort hfound]
      rfl
    · exact ih houtcome.based houtcome.unrepeated hpermits.2 (houtcome.adds.found? hfound) answered hlater rfl

theorem callAll_repeated (hover : Over source extension) (hunrepeated : extension.Unrepeated)
    (hpermits : extension.PermitsAll calls) :
    (extension.callAll calls).1.Pairwise
      fun earlier later => earlier.1 = later.1 → ∀ index, earlier.2 = .ok index → later.2 = .ok index := by
  induction calls generalizing extension with
  | nil => exact .nil
  | cons call calls ih =>
    have houtcome := call_outcome hover hunrepeated hpermits.1
    rw [callAll_cons]
    refine .cons (fun later hlater hsame index hindex => ?_) (ih houtcome.based houtcome.unrepeated hpermits.2)
    obtain ⟨hfound, hshort⟩ := houtcome.found index hindex
    exact answer_of_found? houtcome.based houtcome.unrepeated hpermits.2 hshort hfound later hlater hsame.symm

/-- Each call's answer as the last extension sees it. -/
theorem callAll_answers (hover : Over source extension) (hunrepeated : extension.Unrepeated)
    (hpermits : extension.PermitsAll calls) {answer : Except ClassError UInt16}
    (hanswer : (call, answer) ∈ (extension.callAll calls).1) :
    (∀ index, answer = .ok index → (extension.callAll calls).2.found? call = some index)
      ∧ ∀ error, answer = .error error → (extension.callAll calls).2.Refuses call error := by
  induction calls generalizing extension with
  | nil => cases hanswer
  | cons next calls ih =>
    have houtcome := call_outcome hover hunrepeated hpermits.1
    rw [callAll_cons] at hanswer ⊢
    rcases List.mem_cons.mp hanswer with heq | hlater
    · cases heq
      obtain ⟨hoverLast, hadds, -⟩ := callAll_outcome houtcome.based houtcome.unrepeated hpermits.2
      exact ⟨fun index hindex => hadds.found? (houtcome.found index hindex).1,
        fun error herror => (houtcome.refused error herror).adds hadds hoverLast⟩
    · exact ih houtcome.based houtcome.unrepeated hpermits.2 hlater

theorem interned (hreadable : source.Readable) (hpermits : PermitsAll { base := source } calls) :
    Interned source (callAll { base := source } calls).1 (callAll { base := source } calls).2 := by
  have hstart : Over source { base := source } := .start hreadable.size_le
  obtain ⟨hover, hadds, hunrepeated⟩ := callAll_outcome hstart (.start source) hpermits
  have hanswers := fun call answer (hanswer : (call, answer) ∈ (callAll { base := source } calls).1) =>
    callAll_answers hstart (.start source) hpermits hanswer
  have hrepeated := callAll_repeated hstart (.start source) hpermits
  generalize (callAll { base := source } calls).1 = answers at hanswers hrepeated
  generalize (callAll { base := source } calls).2 = last at *
  have hbase : last.base = source := hadds.1
  have hfits := hover.fits
  have hcount : last.slotCount = source.slots.size + last.added.size := by rw [slotCount, hbase]
  refine ⟨hbase, hcount, hfits, ?_, ?_, ?_, ?_, ?_, ?_, ?_, ?_, ?_, hrepeated⟩
  · have hsize : last.pool.slots.size = last.slotCount := by
      rw [pool, Array.size_append, Array.size_map, slotCount]
    rw [ConstantPool.toBytes, hsize, entriesToBytes_pool, hbase]
  · exact fun position rest => ConstantPool.read_of_spells (hover.readable hreadable) (.of_rest rfl)
  · exact fun index constant hget => get?_pool_of_base (hbase ▸ hget)
  · intro i constant hconstant
    have hlt := (Array.getElem?_eq_some_iff.mp hconstant).1
    rw [hcount, maxSlots] at hfits
    have hword : (UInt16.ofNat (source.slots.size + i)).toNat = source.slots.size + i := by
      rw [UInt16.toNat_ofNat']
      omega
    refine ⟨_, hword, ?_⟩
    rw [get?_pool, hword, hbase, if_neg (by omega), Nat.add_sub_cancel_left, hconstant]
  · intro constant hconstant
    rcases hover.added constant hconstant with ⟨content, rfl, -⟩ | ⟨text, rfl, -⟩
    · exact .inl ⟨content, rfl⟩
    · exact .inr ⟨text, rfl⟩
  · intro i j constant hi hj
    rw [← Array.getElem?_toList] at hi hj
    exact (List.getElem?_inj (List.getElem?_eq_some_iff.mp hi).1 hunrepeated.nodup).mp (hi.trans hj.symm)
  · intro content hcontent index hindex
    have hnone := hunrepeated.new content hcontent
    rw [hbase, ConstantPool.findUtf8?, Array.findIdx?_eq_none_iff] at hnone
    have hmem := Array.mem_of_getElem? (Option.join_eq_some_iff.mp hindex)
    simpa using hnone _ hmem
  · exact fun call index hanswer => means_of_found? hover ((hanswers call _ hanswer).1 index rfl)
  · exact fun call error hanswer => (hanswers call _ hanswer).2 error rfl

end PoolExtension

end Retoken
