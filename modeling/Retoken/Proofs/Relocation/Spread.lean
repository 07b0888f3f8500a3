import Retoken.ClassFile.StringSite
import Mathlib.Data.List.Perm.Subperm

/-!
# Slots spread over a stretch of the file

The slots that reading a stretch of the file comes across are met in the order of their positions, and none reaches into the next. So two of them that share a byte are one slot, which is what makes it safe to overwrite all of them at once.
-/

namespace Retoken

namespace Slot

def stop (slot : Slot) : Nat :=
  slot.position + slot.kind.width

def Covers (slot : Slot) (position : Nat) : Prop :=
  slot.position ≤ position ∧ position < slot.stop

theorem width_pos (kind : SlotKind) : 0 < kind.width := by
  cases kind <;> decide

theorem covers_position (slot : Slot) : slot.Covers slot.position := by
  have hwidth := width_pos slot.kind
  exact ⟨Nat.le_refl _, by rw [stop]; omega⟩

end Slot

/-- The slots lie between two positions, in order and without touching each other. -/
def Spread (low high : Nat) : List Slot → Prop
  | [] => low ≤ high
  | slot :: slots => low ≤ slot.position ∧ Spread slot.stop high slots

namespace Spread

variable {low middle high : Nat} {slot other : Slot} {slots first second : List Slot}

theorem singleton (hlow : low ≤ slot.position) (hhigh : slot.stop ≤ high) :
    Spread low high [slot] :=
  ⟨hlow, hhigh⟩

theorem le (hspread : Spread low high slots) : low ≤ high := by
  induction slots generalizing low with
  | nil => exact hspread
  | cons slot slots ih =>
    have hrest := ih hspread.2
    have hlow := hspread.1
    rw [Slot.stop] at hrest
    omega

theorem mono_left {low' : Nat} (hle : low' ≤ low) (hspread : Spread low high slots) :
    Spread low' high slots := by
  cases slots with
  | nil => exact Nat.le_trans hle hspread
  | cons slot slots => exact ⟨Nat.le_trans hle hspread.1, hspread.2⟩

theorem mono_right {high' : Nat} (hle : high ≤ high') (hspread : Spread low high slots) :
    Spread low high' slots := by
  induction slots generalizing low with
  | nil => exact Nat.le_trans hspread hle
  | cons slot slots ih => exact ⟨hspread.1, ih hspread.2⟩

theorem append (hfirst : Spread low middle first) (hsecond : Spread middle high second) :
    Spread low high (first ++ second) := by
  induction first generalizing low with
  | nil => exact hsecond.mono_left hfirst
  | cons slot first ih => exact ⟨hfirst.1, ih hfirst.2⟩

theorem bounds (hspread : Spread low high slots) (hslot : slot ∈ slots) :
    low ≤ slot.position ∧ slot.stop ≤ high := by
  induction slots generalizing low with
  | nil => cases hslot
  | cons head slots ih =>
    obtain ⟨hlow, hrest⟩ := hspread
    rcases List.mem_cons.mp hslot with rfl | hslot
    · exact ⟨hlow, hrest.le⟩
    · have hbounds := ih hrest hslot
      rw [Slot.stop] at hbounds
      omega

theorem pairwise (hspread : Spread low high slots) :
    slots.Pairwise fun earlier later => earlier.stop ≤ later.position := by
  induction slots generalizing low with
  | nil => exact List.Pairwise.nil
  | cons head slots ih =>
    exact List.pairwise_cons.mpr ⟨fun later hlater => (hspread.2.bounds hlater).1, ih hspread.2⟩

theorem eq_of_covers (hspread : Spread low high slots) (hslot : slot ∈ slots) (hother : other ∈ slots)
    {position : Nat} (hcovers : slot.Covers position) (hcoversOther : other.Covers position) :
    slot = other := by
  obtain ⟨hstart, hstop⟩ := hcovers
  obtain ⟨hstartOther, hstopOther⟩ := hcoversOther
  induction slots generalizing low with
  | nil => cases hslot
  | cons head slots ih =>
    rcases List.mem_cons.mp hslot with hhead | hmem <;>
      rcases List.mem_cons.mp hother with hheadOther | hmemOther
    · rw [hhead, hheadOther]
    · have := (hspread.2.bounds hmemOther).1
      rw [← hhead] at this
      omega
    · have := (hspread.2.bounds hmem).1
      rw [← hheadOther] at this
      omega
    · exact ih hspread.2 hmem hmemOther

theorem eq_of_position (hspread : Spread low high slots) (hslot : slot ∈ slots)
    (hother : other ∈ slots) (hposition : slot.position = other.position) : slot = other :=
  hspread.eq_of_covers hslot hother slot.covers_position
    (by rw [hposition]; exact other.covers_position)

theorem nodup_positions (hspread : Spread low high slots) : (slots.map (·.position)).Nodup := by
  refine List.pairwise_map.mpr (hspread.pairwise.imp fun {earlier later} hstop heq => ?_)
  have hwidth := Slot.width_pos earlier.kind
  rw [← heq, Slot.stop] at hstop
  omega

end Spread

end Retoken
