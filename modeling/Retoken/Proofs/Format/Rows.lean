import Retoken.ClassFile.ElementLayout
import Retoken.Proofs.ConstantPool.Serialisation

/-!
# Parts that stand behind each other

A reader undoes a way of writing if whatever it reads is written that way. What is written is called a layout here: it holds the indices and lengths that the file holds, and nothing that is looked up. Items that are read one by one are written one by one, so each of them comes with the position where its layout begins.
-/

namespace Retoken

open Reader

variable {α α' β γ δ : Type}

/-- Whatever is read has been written for a layout, which is related to the result by the position where it begins. -/
def Undoes (reader : Reader α) (toBytes : β → List UInt8) (related : Nat → β → α → Prop) : Prop :=
  ∀ (start stop : Cursor) (a : α), reader start = .ok (a, stop) →
    ∃ layout, start.Spells (toBytes layout) stop ∧ related start.position layout a

def UndoesWhen (property : α → Prop) (reader : Reader α) (toBytes : β → List UInt8)
    (related : Nat → β → α → Prop) : Prop :=
  ∀ (start stop : Cursor) (a : α), reader start = .ok (a, stop) → property a →
    ∃ layout, start.Spells (toBytes layout) stop ∧ related start.position layout a

inductive Row (toBytes : β → List UInt8) (related : Nat → β → α → Prop) : Nat → List β → List α → Prop where
  | nil {position : Nat} : Row toBytes related position [] []
  | cons {position : Nat} {layout : β} {layouts : List β} {a : α} {items : List α} (hhead : related position layout a)
      (htail : Row toBytes related (position + (toBytes layout).length) layouts items) :
      Row toBytes related position (layout :: layouts) (a :: items)

def inRow (toBytes : β → List UInt8) (contents : Nat → β → List γ) : Nat → List β → List γ
  | _, [] => []
  | position, layout :: layouts =>
    contents position layout ++ inRow toBytes contents (position + (toBytes layout).length) layouts

def AllInRow (toBytes : β → List UInt8) (property : Nat → β → Prop) : Nat → List β → Prop
  | _, [] => True
  | position, layout :: layouts =>
    property position layout ∧ AllInRow toBytes property (position + (toBytes layout).length) layouts

def maxCount : Nat := 65535

def countedToBytes (toBytes : β → List UInt8) (layouts : List β) : List UInt8 :=
  ElementLayout.countBytes layouts ++ layouts.flatMap toBytes

variable {toBytes : β → List UInt8} {related : Nat → β → α → Prop} {position : Nat} {layouts : List β} {items : List α}

/-! ### Contents -/

theorem inRow_filterMap (contents : Nat → β → List γ) (f : γ → Option δ) (position : Nat) (layouts : List β) :
    (inRow toBytes contents position layouts).filterMap f
      = inRow toBytes (fun position layout => (contents position layout).filterMap f) position layouts := by
  induction layouts generalizing position with
  | nil => rfl
  | cons layout layouts ih => rw [inRow, List.filterMap_append, ih, inRow]

theorem inRow_map (contents : Nat → β → List γ) (f : γ → δ) (position : Nat) (layouts : List β) :
    (inRow toBytes contents position layouts).map f
      = inRow toBytes (fun position layout => (contents position layout).map f) position layouts := by
  induction layouts generalizing position with
  | nil => rfl
  | cons layout layouts ih => rw [inRow, List.map_append, ih, inRow]

theorem allInRow_origin {property : Nat → β → Prop} {origin offset : Nat} :
    AllInRow toBytes (fun position => property (position - origin)) (origin + offset) layouts
      ↔ AllInRow toBytes property offset layouts := by
  induction layouts generalizing offset with
  | nil => exact Iff.rfl
  | cons layout layouts ih =>
    simp only [AllInRow, Nat.add_sub_cancel_left, Nat.add_assoc, ih]

namespace Row

theorem flatMap_eq {f : α → List γ} {contents : Nat → β → List γ} (hrow : Row toBytes related position layouts items)
    (hcontents : ∀ position layout a, related position layout a → f a = contents position layout) :
    items.flatMap f = inRow toBytes contents position layouts := by
  induction hrow with
  | nil => rfl
  | cons hhead _ ih => rw [List.flatMap_cons, inRow, hcontents _ _ _ hhead, ih]

theorem map_eq {f : α → γ} {content : Nat → β → γ} (hrow : Row toBytes related position layouts items)
    (hcontent : ∀ position layout a, related position layout a → f a = content position layout) :
    items.map f = inRow toBytes (fun position layout => [content position layout]) position layouts := by
  induction hrow with
  | nil => rfl
  | cons hhead _ ih => rw [List.map_cons, inRow, hcontent _ _ _ hhead, ih, List.singleton_append]

theorem forall_layouts {property : β → Prop} (hrow : Row toBytes related position layouts items)
    (hproperty : ∀ position layout a, related position layout a → property layout) :
    ∀ layout ∈ layouts, property layout := by
  induction hrow with
  | nil => exact fun _ hmem => absurd hmem List.not_mem_nil
  | cons hhead _ ih => exact List.forall_mem_cons.mpr ⟨hproperty _ _ _ hhead, ih⟩

theorem allInRow {property : Nat → β → Prop} (hrow : Row toBytes related position layouts items)
    (hproperty : ∀ position layout a, related position layout a → property position layout) :
    AllInRow toBytes property position layouts := by
  induction hrow with
  | nil => trivial
  | cons hhead _ ih => exact ⟨hproperty _ _ _ hhead, ih⟩

/-- The layout from which an item of a row was read, and what stands behind it. -/
theorem split_at {i : Nat} {a : α} (hrow : Row toBytes related position layouts items) (hitem : items[i]? = some a) :
    ∃ before layout after, layouts = before ++ layout :: after
      ∧ related (position + (before.flatMap toBytes).length) layout a
      ∧ Row toBytes related (position + (before.flatMap toBytes).length + (toBytes layout).length) after
        (items.drop (i + 1)) := by
  induction hrow generalizing i with
  | nil => cases hitem
  | @cons position layout layouts b items hhead htail ih =>
    cases i with
    | zero =>
      obtain rfl : b = a := Option.some.inj hitem
      exact ⟨[], layout, layouts, rfl, hhead, htail⟩
    | succ i =>
      obtain ⟨before, found, after, rfl, hfound, hafter⟩ := ih hitem
      refine ⟨layout :: before, found, after, rfl, ?_, ?_⟩
      · rw [List.flatMap_cons, List.length_append, ← Nat.add_assoc]
        exact hfound
      · rw [List.flatMap_cons, List.length_append, ← Nat.add_assoc]
        exact hafter

theorem mapM {f : α → Except ClassError α'} {results : List α'} (hrow : Row toBytes related position layouts items)
    (hresults : items.mapM f = .ok results) :
    Row toBytes (fun position layout b => ∃ a, related position layout a ∧ f a = .ok b) position layouts results := by
  induction hrow generalizing results with
  | nil =>
    cases hresults
    exact .nil
  | cons hhead _ ih =>
    obtain ⟨b, rest, hb, hrest, rfl⟩ := mapM_cons_eq_ok.mp hresults
    exact .cons ⟨_, hhead, hb⟩ (ih hrest)

end Row

/-! ### Readers -/

variable {reader item : Reader α} {property : α → Prop}

namespace UndoesWhen

theorem times (hitem : UndoesWhen property item toBytes related) (n : Nat) :
    UndoesWhen (∀ a ∈ ·, property a) (Reader.times item n) (·.flatMap toBytes) fun position layouts items =>
      layouts.length = n ∧ Row toBytes related position layouts items := by
  induction n with
  | zero =>
    intro start stop items hread hproperty
    obtain ⟨rfl, rfl⟩ := pure_eq_ok.mp hread
    exact ⟨[], ⟨rfl, rfl⟩, rfl, .nil⟩
  | succ n ih =>
    intro start stop items hread hproperty
    rw [times_succ] at hread
    obtain ⟨a, middle, ha, hread⟩ := bind_eq_ok.mp hread
    obtain ⟨rest, _, hrest, hpure⟩ := bind_eq_ok.mp hread
    obtain ⟨rfl, rfl⟩ := pure_eq_ok.mp hpure
    obtain ⟨hpropertyHead, hpropertyRest⟩ := List.forall_mem_cons.mp hproperty
    obtain ⟨layout, hspells, hhead⟩ := hitem _ _ _ ha hpropertyHead
    obtain ⟨layouts, hspellsRest, hlength, htail⟩ := ih _ _ _ hrest hpropertyRest
    rw [hspells.2] at htail
    refine ⟨layout :: layouts, ?_, congrArg Nat.succ hlength, .cons hhead htail⟩
    simp only [List.flatMap_cons]
    exact hspells.append hspellsRest

theorem counted (hitem : UndoesWhen property item toBytes related) :
    UndoesWhen (∀ a ∈ ·, property a) (Reader.counted item) (countedToBytes toBytes) fun position layouts items =>
      layouts.length ≤ maxCount ∧ Row toBytes related (position + 2) layouts items := by
  intro start stop items hread hproperty
  obtain ⟨count, afterCount, hcount, hread⟩ := bind_eq_ok.mp hread
  obtain ⟨layouts, hspells, hlength, hrow⟩ := hitem.times _ _ _ _ hread hproperty
  have hcountSpelled := u16_eq_ok.mp hcount
  have hposition := hcountSpelled.2
  rw [hposition] at hrow
  refine ⟨layouts, Cursor.Spells.append ?_ hspells, ?_, hrow⟩
  · rw [ElementLayout.countBytes, hlength, UInt16.ofNat_toNat]
    exact hcountSpelled
  · have hlt := count.toNat_lt
    rw [hlength, maxCount]
    omega

end UndoesWhen

namespace Undoes

theorem always (hreader : Undoes reader toBytes related) : UndoesWhen (fun _ => True) reader toBytes related :=
  fun _ _ _ hread _ => hreader _ _ _ hread

theorem times (hitem : Undoes item toBytes related) (n : Nat) :
    Undoes (Reader.times item n) (·.flatMap toBytes) fun position layouts items =>
      layouts.length = n ∧ Row toBytes related position layouts items :=
  fun _ _ _ hread => hitem.always.times n _ _ _ hread fun _ _ => trivial

theorem counted (hitem : Undoes item toBytes related) :
    Undoes (Reader.counted item) (countedToBytes toBytes) fun position layouts items =>
      layouts.length ≤ maxCount ∧ Row toBytes related (position + 2) layouts items :=
  fun _ _ _ hread => hitem.always.counted _ _ _ hread fun _ _ => trivial

/-- A reader that goes on up to the end leaves nothing, as long as no layout is empty. -/
theorem untilEnd (hitem : Undoes item toBytes related) (hnonempty : ∀ layout, toBytes layout ≠ []) {start stop : Cursor}
    {items : List α} (hread : Reader.untilEnd item start = .ok (items, stop)) :
    ∃ layouts, start.rest = layouts.flatMap toBytes ∧ Row toBytes related start.position layouts items := by
  suffices hfuel : ∀ (fuel : Nat) {start : Cursor} {items : List α}, start.rest.length ≤ fuel →
      untilEndAfter item [] fuel start = .ok (items, stop) →
      ∃ layouts, start.rest = layouts.flatMap toBytes ∧ Row toBytes related start.position layouts items from
    hfuel _ (Nat.le_refl _) hread
  -- The fuel is at least as much as there are bytes left, and every item takes one.
  intro fuel
  induction fuel with
  | zero =>
    intro start items hle hread
    obtain ⟨rfl, -⟩ := pure_eq_ok.mp hread
    exact ⟨[], List.eq_nil_of_length_eq_zero (Nat.le_zero.mp hle), .nil⟩
  | succ fuel ih =>
    intro start items hle hread
    rw [untilEndAfter_succ] at hread
    split at hread
    case isTrue hended =>
      cases hread
      exact ⟨[], List.isEmpty_iff.mp hended, .nil⟩
    case isFalse =>
      obtain ⟨a, middle, ha, hread⟩ := bind_eq_ok.mp hread
      obtain ⟨rest, _, hrest, hpure⟩ := bind_eq_ok.mp hread
      obtain ⟨rfl, rfl⟩ := pure_eq_ok.mp hpure
      obtain ⟨layout, ⟨hspelled, hposition⟩, hhead⟩ := hitem _ _ _ ha
      have hpositive := List.length_pos_of_ne_nil (hnonempty layout)
      have hlength := congrArg List.length hspelled
      rw [List.length_append] at hlength
      obtain ⟨layouts, hrestSpelled, htail⟩ := ih (by omega) hrest
      rw [hposition] at htail
      refine ⟨layout :: layouts, ?_, .cons hhead htail⟩
      rw [List.flatMap_cons, hspelled, hrestSpelled]

end Undoes

/-- A reader that can read each layout where it stands reads all of them up to the end. -/
theorem exists_untilEnd {property : Nat → β → Prop} {start : Cursor}
    (hitem : ∀ (start stop : Cursor) (layout : β), property start.position layout → start.Spells (toBytes layout) stop →
      ∃ a, item start = .ok (a, stop))
    (hnonempty : ∀ layout, toBytes layout ≠ []) (hrest : start.rest = layouts.flatMap toBytes)
    (hall : AllInRow toBytes property start.position layouts) :
    ∃ items stop, untilEnd item start = .ok (items, stop) := by
  suffices hfuel : ∀ (fuel : Nat) {start : Cursor}, start.rest.length ≤ fuel → start.rest = layouts.flatMap toBytes →
      AllInRow toBytes property start.position layouts →
        ∃ items stop, untilEndAfter item [] fuel start = .ok (items, stop) from
    hfuel _ (Nat.le_refl _) hrest hall
  clear hrest hall
  induction layouts with
  | nil =>
    intro fuel start _ hrest _
    cases fuel with
    | zero => exact ⟨[], start, rfl⟩
    | succ fuel =>
      have hended : start.rest.isEmpty = true := by rw [hrest]; rfl
      rw [untilEndAfter_succ, if_pos hended]
      exact ⟨[], start, rfl⟩
  | cons layout layouts ih =>
    intro fuel start hle hrest hall
    rw [List.flatMap_cons] at hrest
    have hpositive := List.length_pos_of_ne_nil (hnonempty layout)
    have hlength := congrArg List.length hrest
    rw [List.length_append] at hlength
    obtain ⟨a, ha⟩ := hitem start _ layout hall.1 (.of_rest hrest)
    cases fuel with
    | zero => omega
    | succ fuel =>
      have hgoes : ¬ start.rest.isEmpty = true := by
        rw [List.isEmpty_iff]
        exact List.ne_nil_of_length_pos (by omega)
      have hshorter : (layouts.flatMap toBytes).length ≤ fuel := by omega
      obtain ⟨items, stop, hitems⟩ : ∃ items stop, untilEndAfter item [] fuel
          ⟨start.position + (toBytes layout).length, layouts.flatMap toBytes⟩ = .ok (items, stop) :=
        ih fuel hshorter rfl hall.2
      rw [untilEndAfter_succ, if_neg hgoes, run_bind ha, run_bind hitems]
      exact ⟨a :: items, stop, rfl⟩

end Retoken
