import Retoken.ClassFile.Basic
import Retoken.Proofs.ConstantPool.Serialisation
import Retoken.Proofs.RoundTrip

/-!
# Files that end too early or too late

A class file says of each of its parts how long it is, so a file that was read tells exactly where it ends. With a byte less the read runs into the end, and with a byte more it finds that something is left. This holds although the bodies of attributes are read on their own and the instructions at the very end: a body is looked into only once it is there as a whole, and the instructions only once nothing is left.
-/

namespace Retoken

open BigEndian

namespace Reader

/-- The file ends at the given position, and what was to be read there does not fit before it. -/
def CutOff {α : Type} (result : Except ClassError α) (finish : Nat) : Prop :=
  ∃ offset needed, result = .error (.truncated offset needed) ∧ offset ≤ finish ∧ finish < offset + needed

/-- A run that uses up some bytes. It does not depend on what stands behind them, and with only a part of them it fails. -/
structure Uses {α : Type} (reader : Reader α) (start : Cursor) (a : α) (stop : Cursor) (used : List UInt8) : Prop where
  spells : start.Spells used stop
  whole : ∀ rest, reader ⟨start.position, used ++ rest⟩ = .ok (a, ⟨stop.position, rest⟩)
  part : ∀ n < used.length, CutOff (reader ⟨start.position, used.take n⟩) (start.position + n)

def Progressive {α : Type} (reader : Reader α) : Prop :=
  ∀ start a stop, reader start = .ok (a, stop) → ∃ used, Uses reader start a stop used

/-- Whether the runs of a reader use up the file, so that they fail if anything is taken from its end or put there. -/
def Exhaustive {α : Type} (reader : Reader α) : Prop :=
  ∀ start result, reader start = .ok result →
    (∀ n < start.rest.length, CutOff (reader ⟨start.position, start.rest.take n⟩) (start.position + n))
      ∧ ∀ extra, extra ≠ [] → reader ⟨start.position, start.rest ++ extra⟩
        = .error (.malformed (.trailingBytes extra.length))

variable {α β : Type} {first item reader : Reader α} {next : α → Reader β} {start middle stop : Cursor}

theorem run_bind_error {error : ClassError} (hfirst : first start = .error error) :
    (first >>= next) start = .error error := by
  simp only [bind, StateT.bind, hfirst, Except.bind]

theorem CutOff.followed {finish : Nat} (hfirst : CutOff (first start) finish) :
    CutOff ((first >>= next) start) finish := by
  obtain ⟨offset, needed, hrun, hbounds⟩ := hfirst
  exact ⟨offset, needed, run_bind_error hrun, hbounds⟩

/-- A sequence is cut off in its first part or behind it. -/
theorem Uses.part_bind {a : α} {used rest : List UInt8} (huses : Uses first start a middle used)
    (hrest : ∀ n < rest.length, CutOff (next a ⟨middle.position, rest.take n⟩) (middle.position + n)) :
    ∀ n < (used ++ rest).length,
      CutOff ((first >>= next) ⟨start.position, (used ++ rest).take n⟩) (start.position + n) := by
  intro n hn
  rw [List.length_append] at hn
  rw [List.take_append]
  by_cases hinFirst : n < used.length
  · rw [Nat.sub_eq_zero_of_le (Nat.le_of_lt hinFirst), List.take_zero, List.append_nil]
    exact (huses.part n hinFirst).followed
  · have hmiddle : start.position + n = middle.position + (n - used.length) := by
      rw [huses.spells.2]
      omega
    rw [List.take_of_length_le (Nat.le_of_not_lt hinFirst), run_bind (huses.whole _), hmiddle]
    apply hrest
    omega

/-! ### Single readers -/

namespace Progressive

theorem pure (a : α) : Progressive (pure a : Reader α) := by
  intro start b stop hrun
  obtain ⟨rfl, rfl⟩ := pure_eq_ok.mp hrun
  exact ⟨[], ⟨rfl, rfl⟩, fun rest => rfl, fun n hn => absurd hn (Nat.not_lt_zero n)⟩

theorem position : Progressive position := by
  intro start a stop hrun
  cases hrun
  exact ⟨[], ⟨rfl, rfl⟩, fun rest => rfl, fun n hn => absurd hn (Nat.not_lt_zero n)⟩

theorem lift (result : Except ClassError α) : Progressive (liftM result : Reader α) := by
  intro start a stop hrun
  obtain ⟨rfl, rfl⟩ := lift_eq_ok.mp hrun
  exact ⟨[], ⟨rfl, rfl⟩, fun rest => rfl, fun n hn => absurd hn (Nat.not_lt_zero n)⟩

theorem throw (error : ClassError) : Progressive (throw error : Reader α) :=
  fun _ _ _ hrun => absurd hrun throw_ne_ok

theorem fail (cause : Malformation) : Progressive (fail cause : Reader α) :=
  throw _

theorem of_width (width : Nat)
    (hshort : ∀ cursor : Cursor, cursor.rest.length < width → reader cursor = .error (.truncated cursor.position width))
    (hrun : ∀ start a stop, reader start = .ok (a, stop) → ∃ used, used.length = width ∧ start.Spells used stop
      ∧ ∀ rest, reader ⟨start.position, used ++ rest⟩ = .ok (a, ⟨stop.position, rest⟩)) :
    Progressive reader := by
  intro start a stop hread
  obtain ⟨used, hlength, hspells, hwhole⟩ := hrun start a stop hread
  refine ⟨used, hspells, hwhole, fun n hn => ?_⟩
  refine ⟨start.position, width, hshort _ ?_, Nat.le_add_right _ _, by omega⟩
  change (used.take n).length < width
  rw [List.length_take]
  omega

theorem u8 : Progressive u8 := by
  apply of_width 1
  · rintro ⟨position, rest⟩ hshort
    obtain rfl : rest = [] := List.length_eq_zero_iff.mp (Nat.lt_one_iff.mp hshort)
    rfl
  · intro start byte stop hread
    obtain ⟨hrest, hposition⟩ := u8_eq_ok.mp hread
    exact ⟨[byte], rfl, ⟨hrest, hposition⟩, fun rest => u8_eq_ok.mpr ⟨rfl, hposition⟩⟩

theorem u16 : Progressive u16 := by
  apply of_width 2
  · rintro ⟨position, _ | ⟨a, _ | ⟨b, rest⟩⟩⟩ hshort
    · rfl
    · rfl
    · simp only [List.length_cons] at hshort
      omega
  · intro start word stop hread
    obtain ⟨hrest, hposition⟩ := u16_eq_ok.mp hread
    exact ⟨bytes16 word, rfl, ⟨hrest, hposition⟩, fun rest => u16_eq_ok.mpr ⟨rfl, hposition⟩⟩

theorem u32 : Progressive u32 := by
  apply of_width 4
  · rintro ⟨position, _ | ⟨a, _ | ⟨b, _ | ⟨c, _ | ⟨d, rest⟩⟩⟩⟩⟩ hshort
    · rfl
    · rfl
    · rfl
    · rfl
    · simp only [List.length_cons] at hshort
      omega
  · intro start word stop hread
    obtain ⟨hrest, hposition⟩ := u32_eq_ok.mp hread
    exact ⟨bytes32 word, rfl, ⟨hrest, hposition⟩, fun rest => u32_eq_ok.mpr ⟨rfl, hposition⟩⟩

theorem take (n : Nat) : Progressive (take n) := by
  apply of_width n
  · intro cursor hshort
    rw [Reader.take, if_pos]
    rw [List.length_take]
    omega
  · intro start taken stop hread
    obtain ⟨hrest, hlength, hposition⟩ := take_eq_ok.mp hread
    refine ⟨taken, hlength, ⟨hrest, by rw [hposition, hlength]⟩, fun rest => ?_⟩
    exact take_eq_ok.mpr ⟨rfl, hlength, hposition⟩

/-! ### Sequences and repetitions -/

theorem bind (hfirst : Progressive first) (hnext : ∀ a, Progressive (next a)) : Progressive (first >>= next) := by
  intro start b stop hrun
  obtain ⟨a, middle, hrunFirst, hrunNext⟩ := bind_eq_ok.mp hrun
  obtain ⟨usedFirst, huses⟩ := hfirst start a middle hrunFirst
  obtain ⟨usedNext, husesNext⟩ := hnext a middle b stop hrunNext
  refine ⟨usedFirst ++ usedNext, huses.spells.append husesNext.spells, fun rest => ?_, ?_⟩
  · rw [List.append_assoc, run_bind (huses.whole _), husesNext.whole]
  · exact huses.part_bind husesNext.part

theorem skip (n : Nat) : Progressive (skip n) :=
  bind (take n) fun _ => pure _

theorem slice (n : Nat) : Progressive (slice n) :=
  bind position fun _ => bind (take n) fun _ => pure _

theorem u64 : Progressive u64 :=
  bind u32 fun _ => bind u32 fun _ => pure _

theorem times (hitem : Progressive item) (n : Nat) : Progressive (times item n) := by
  induction n with
  | zero => exact pure _
  | succ n ih =>
    rw [times_succ]
    exact bind hitem fun _ => bind ih fun _ => pure _

theorem counted (hitem : Progressive item) : Progressive (counted item) :=
  bind u16 fun _ => times hitem _

end Progressive

namespace Exhaustive

theorem throw (error : ClassError) : Exhaustive (throw error : Reader α) :=
  fun _ _ hrun => absurd hrun throw_ne_ok

theorem bind (hfirst : Progressive first) (hnext : ∀ a, Exhaustive (next a)) : Exhaustive (first >>= next) := by
  intro start ⟨b, stop⟩ hrun
  obtain ⟨a, middle, hrunFirst, hrunNext⟩ := bind_eq_ok.mp hrun
  obtain ⟨used, huses⟩ := hfirst start a middle hrunFirst
  obtain ⟨hcut, hextra⟩ := hnext a middle _ hrunNext
  rw [huses.spells.1]
  refine ⟨huses.part_bind hcut, fun extra hne => ?_⟩
  rw [List.append_assoc, run_bind (huses.whole _)]
  exact hextra extra hne

/-- What is done once the file is used up makes no difference. -/
theorem followed (hfirst : Exhaustive first) : Exhaustive (first >>= next) := by
  intro start ⟨b, stop⟩ hrun
  obtain ⟨a, middle, hrunFirst, -⟩ := bind_eq_ok.mp hrun
  obtain ⟨hcut, hextra⟩ := hfirst start (a, middle) hrunFirst
  exact ⟨fun n hn => (hcut n hn).followed, fun extra hne => run_bind_error (hextra extra hne)⟩

end Exhaustive

end Reader

open Reader

/-! ### The parts of a class file -/

theorem Constant.read_progressive (slot : Nat) : Progressive (Constant.read slot) := by
  have hpair : ∀ make : UInt16 → UInt16 → Constant,
      Progressive (do return make (← u16) (← u16) : Reader Constant) :=
    fun make => .bind .u16 fun _ => .bind .u16 fun _ => .pure _
  refine .bind .u8 fun tag => ?_
  split
  case h_1 => exact .bind .u16 fun _ => .bind (.take _) fun _ => .pure _
  case h_2 | h_3 => exact .bind .u32 fun _ => .pure _
  case h_4 | h_5 => exact .bind .u64 fun _ => .pure _
  case h_6 | h_7 | h_13 | h_16 | h_17 => exact .bind .u16 fun _ => .pure _
  case h_12 => exact .bind .u8 fun _ => .bind .u16 fun _ => .pure _
  case h_18 => exact .fail _
  all_goals exact hpair _

namespace ConstantPool

theorem readSlots_progressive (slots : Array (Option Constant)) (missing : Nat) :
    Progressive (readSlots slots missing) := by
  induction missing using Nat.strongRecOn generalizing slots with
  | ind missing ih =>
    cases missing with
    | zero => exact .pure _
    | succ missing =>
      rw [readSlots]
      refine .bind (Constant.read_progressive _) fun constant => ?_
      by_cases hwide : constant.isWide
      · rw [if_pos hwide]
        cases missing with
        | zero => exact .fail _
        | succ missing => exact ih missing (by omega) _
      · rw [if_neg hwide]
        exact ih missing (by omega) _

theorem read_progressive : Progressive ConstantPool.read := by
  refine .bind .u16 fun count => ?_
  split
  · exact .fail _
  · refine .bind (readSlots_progressive _ _) fun slots => ?_
    dsimp only
    split
    · exact .fail _
    · exact .pure _

end ConstantPool

variable (pool : ConstantPool)

/-- The bodies of attributes are taken whole, whatever is then found in them. -/
theorem Attribute.collect_progressive {α : Type} (add : α → Attribute → Except ClassError α) (start : α) :
    Progressive (Attribute.collect pool add start) := by
  have hread : Progressive (Attribute.read pool) :=
    .bind .u16 fun _ => .bind (.lift _) fun _ => .bind .u32 fun _ => .bind (.slice _) fun _ => .pure _
  exact .bind (.counted hread) fun _ => .lift _

theorem Field.read_progressive : Progressive (Field.read pool) :=
  .bind .u16 fun _ => .bind .u16 fun _ => .bind (.lift _) fun _ => .bind .u16 fun _ => .bind (.lift _) fun _ =>
    Attribute.collect_progressive pool _ _

theorem PendingMethod.read_progressive : Progressive (PendingMethod.read pool) :=
  .bind .u16 fun _ => .bind .u16 fun _ => .bind (.lift _) fun _ => .bind .u16 fun _ => .bind (.lift _) fun _ =>
    Attribute.collect_progressive pool _ _

namespace ClassFile

theorem readSuperclass_progressive : Progressive (readSuperclass pool) := by
  refine .bind .u16 fun index => ?_
  by_cases hnone : index = 0
  · rw [if_pos hnone]
    exact .pure _
  · rw [if_neg hnone]
    exact .bind (.lift _) fun _ => .pure _

/-- The declaration is the last thing in the file: what is left behind it is refused before the instructions are looked at. -/
theorem readDeclaration_exhaustive (minor major : UInt16) : Exhaustive (readDeclaration pool minor major) := by
  have hclassName : Progressive (do pool.className (← u16) : Reader String) := .bind .u16 fun _ => .lift _
  refine .bind .u16 fun access => .bind .u16 fun _ => .bind (.lift _) fun name => ?_
  refine .bind (readSuperclass_progressive pool) fun superclass? => .bind (.counted hclassName) fun interfaces => ?_
  refine .bind (.counted (Field.read_progressive pool)) fun fields => ?_
  refine .bind (.counted (PendingMethod.read_progressive pool)) fun pending => ?_
  refine .bind (Attribute.collect_progressive pool _ _) fun attributes => ?_
  intro start result hrun
  rw [run_bind run_get] at hrun
  obtain ⟨hnothing, -⟩ := refuse_eq_ok.mp hrun
  have hrest : start.rest = [] := by simpa using hnothing
  constructor
  · intro n hn
    rw [hrest] at hn
    cases hn
  · intro extra hextra
    rw [run_bind run_get, hrest, List.nil_append, if_pos (by simpa using hextra)]
    rfl

theorem read_exhaustive : Exhaustive ClassFile.read := by
  refine .bind .u32 fun found => ?_
  by_cases hother : found != magic
  · rw [if_pos hother]
    exact .followed (.throw _)
  · rw [if_neg hother]
    refine .bind .u16 fun minor => .bind .u16 fun major => .bind ConstantPool.read_progressive fun pool => ?_
    exact .followed (readDeclaration_exhaustive pool minor major)

theorem ofBytes_error {bytes : List UInt8} {error : ClassError} (hread : ClassFile.read ⟨0, bytes⟩ = .error error) :
    ofBytes bytes = .error error := by
  rw [ofBytes, hread]
  rfl

/-- No class file is the beginning of another one. If bytes are missing at the end, reading fails where they are missing, and if there are more, it fails because of those. -/
theorem ofBytes_prefix_free {bytes : List UInt8} {file : ClassFile} (hfile : ofBytes bytes = .ok file) :
    (∀ n < bytes.length, ∃ offset needed, ofBytes (bytes.take n) = .error (.truncated offset needed)
        ∧ offset ≤ n ∧ n < offset + needed)
      ∧ ∀ extra, extra ≠ [] → ofBytes (bytes ++ extra) = .error (.malformed (.trailingBytes extra.length)) := by
  obtain ⟨result, hread, -⟩ := except_bind_eq_ok.mp hfile
  obtain ⟨hcut, hextra⟩ := read_exhaustive ⟨0, bytes⟩ result hread
  constructor
  · intro n hn
    obtain ⟨offset, needed, hcutRead, hbounds⟩ := hcut n hn
    rw [Nat.zero_add] at hbounds
    exact ⟨offset, needed, ofBytes_error hcutRead, hbounds⟩
  · intro extra hne
    exact ofBytes_error (hextra extra hne)

/-- Any byte of this class is missed, in the pool as in the code, and one more byte is too many. -/
theorem ofBytes_prefix_free_sharedClass : (∃ file, ofBytes sharedClass = .ok file)
    ∧ (∀ n < sharedClass.length, ∃ offset needed, ofBytes (sharedClass.take n) = .error (.truncated offset needed)
      ∧ offset ≤ n ∧ n < offset + needed)
    ∧ ofBytes (sharedClass ++ [0]) = .error (.malformed (.trailingBytes 1)) := by
  have hrun : (ofBytes sharedClass).isOk = true := by
    decide +kernel
  cases hfile : ofBytes sharedClass with
  | error error =>
    rw [hfile] at hrun
    cases hrun
  | ok file =>
    obtain ⟨hcut, hextra⟩ := ofBytes_prefix_free hfile
    exact ⟨⟨file, rfl⟩, hcut, hextra [0] (List.cons_ne_nil _ _)⟩

end ClassFile

end Retoken
