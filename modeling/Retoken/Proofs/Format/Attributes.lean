import Retoken.Proofs.Format.Annotations
import Retoken.Proofs.Format.Code

/-!
# Attributes and their layouts

The body of an attribute is set aside first and read when the attribute is taken into account, so its layout is known only then. What is collected is compared with the layouts name by name: under each name stands what the last attribute with that name holds.
-/

namespace Retoken

open BigEndian Reader

variable {pool : ConstantPool} {start stop : Cursor}

theorem ConstantPool.nameAt_of_text {index : UInt16} {text : String} (htext : pool.text index = .ok text) :
    pool.nameAt index = text := by
  rw [ConstantPool.nameAt, ConstantPool.textAt?_eq_some.mpr (ConstantPool.text_eq_ok.mp htext), Option.getD_some]

namespace Attribute

/-- The name of an attribute, and its body as it stands in the file. -/
abbrev Raw := UInt16 × List UInt8

def rawToBytes (raw : Raw) : List UInt8 :=
  bytes16 raw.1 ++ (bytes32 (UInt32.ofNat raw.2.length) ++ raw.2)

structure SetAside (pool : ConstantPool) (position : Nat) (raw : Raw) (attr : Attribute) : Prop where
  name : attr.name = pool.nameAt raw.1
  body : attr.body = ⟨position + 6, raw.2⟩
  length : raw.2.length < 2 ^ 32

theorem read_undoes : Undoes (read pool) rawToBytes (SetAside pool) := by
  intro start stop attr hread
  obtain ⟨name, body⟩ := attr
  obtain ⟨afterName, length, afterLength, hname, hlength, hbody⟩ := read_eq_ok.mp hread
  obtain ⟨index, hindex, htext⟩ := indexed_spells hname
  obtain ⟨hrest, hbodyLength, hbodyPosition, hstop⟩ := slice_eq_ok.mp hbody
  have hlengthSpelled := u32_eq_ok.mp hlength
  have hposition := hlengthSpelled.2
  rw [hindex.2] at hposition
  refine ⟨(index, body.rest), hindex.append (Cursor.Spells.append ?_ ⟨hrest, by rw [hstop, hbodyLength]⟩), ?_, ?_, ?_⟩
  · rw [hbodyLength, UInt32.ofNat_toNat]
    exact hlengthSpelled
  · exact (ConstantPool.nameAt_of_text htext).symm
  · obtain ⟨bodyPosition, bodyRest⟩ := body
    simp only [length_bytes16, Nat.add_assoc] at hposition hbodyPosition
    rw [hbodyPosition, hposition]
  · rw [hbodyLength]
    exact length.toNat_lt

/-- A body that is used up is written for a layout. -/
theorem parse_undoes {α β : Type} {reader : Reader α} {toBytes : β → List UInt8} {related : Nat → β → α → Prop}
    {attr : Attribute} {value : α} (hreader : Undoes reader toBytes related) (hparse : attr.parse reader = .ok value) :
    ∃ layout, toBytes layout = attr.body.rest ∧ related attr.body.position layout value := by
  obtain ⟨stop, hrun, hended⟩ := parse_eq_ok.mp hparse
  obtain ⟨layout, hspells, hrelated⟩ := hreader _ _ _ hrun
  have hrest := hspells.1
  rw [hended, List.append_nil] at hrest
  exact ⟨layout, hrest.symm, hrelated⟩

section Collecting

variable {σ γ : Type} {add : σ → Attribute → Except ClassError σ} {kindOf : String → AttributeKind}
  {found : σ → String → γ} {related : Nat → AttributeContent → γ → Prop} {property : σ → Prop}

structure Adds (kindOf : String → AttributeKind) (found : σ → String → γ) (related : Nat → AttributeContent → γ → Prop)
    (state : σ) (attr : Attribute) (state' : σ) (content : AttributeContent) : Prop where
  bytes : content.toBytes = attr.body.rest
  kind : content.kind = kindOf attr.name
  wellFormed : content.WellFormed
  named : related attr.body.position content (found state' attr.name)
  others : ∀ name, name ≠ attr.name → found state' name = found state name

/-- What is found under a name: what the last attribute with the name holds, or what was there before. -/
def FoundLast (pool : ConstantPool) (found : σ → String → γ) (related : Nat → AttributeContent → γ → Prop) (state : σ)
    (position : Nat) (layouts : List AttributeLayout) (state' : σ) : Prop :=
  ∀ name, match AttributeLayout.last? pool name position layouts with
    | some (body, content) => related body content (found state' name)
    | none => found state' name = found state name

theorem foldlM_undoes
    (hadd : ∀ {state state' : σ} {attr : Attribute}, add state attr = .ok state' → property state' →
      property state ∧ ∃ content, Adds kindOf found related state attr state' content)
    {position : Nat} {raws : List Raw} {attributes : List Attribute}
    (hrow : Row rawToBytes (SetAside pool) position raws attributes) {state state' : σ}
    (hfold : attributes.foldlM add state = .ok state') (hproperty : property state') :
    property state ∧ ∃ layouts : List AttributeLayout,
      layouts.length = raws.length ∧ layouts.flatMap AttributeLayout.toBytes = raws.flatMap rawToBytes
        ∧ (∀ attr ∈ layouts, attr.WellFormed pool kindOf)
          ∧ FoundLast pool found related state position layouts state' := by
  induction hrow generalizing state with
  | nil =>
    cases hfold
    exact ⟨hproperty, [], rfl, rfl, fun _ hmem => absurd hmem List.not_mem_nil, fun _ => rfl⟩
  | @cons position raw raws attr attributes haside _ ih =>
    rw [List.foldlM_cons] at hfold
    obtain ⟨between, hfirst, hrest⟩ := except_bind_eq_ok.mp hfold
    obtain ⟨hbetween, layouts, hlength, hbytes, hlayouts, hlast⟩ := ih hrest
    obtain ⟨hstate, content, hadds⟩ := hadd hfirst hbetween
    obtain ⟨hname, hbody, hbodyLength⟩ := haside
    have hcontent : content.toBytes = raw.2 := by rw [hadds.bytes, hbody]
    have hlayout : (⟨raw.1, content⟩ : AttributeLayout).toBytes = rawToBytes raw := by
      simp only [AttributeLayout.toBytes, rawToBytes, hcontent]
    refine ⟨hstate, ⟨raw.1, content⟩ :: layouts, congrArg Nat.succ hlength, ?_, ?_, fun name => ?_⟩
    · rw [List.flatMap_cons, List.flatMap_cons, hlayout, hbytes]
    · refine List.forall_mem_cons.mpr ⟨⟨?_, hadds.wellFormed, ?_⟩, hlayouts⟩
      · rw [hadds.kind, hname]
      · rw [hcontent]
        exact hbodyLength
    · have hfound := hlast name
      rw [AttributeLayout.last?, hlayout]
      -- What is found is what a later attribute with the name holds, and else what this one does if it has the name.
      cases hlater : AttributeLayout.last? pool name (position + (rawToBytes raw).length) layouts with
      | some later =>
        rw [hlater] at hfound
        exact hfound
      | none =>
        simp only [hlater] at hfound
        by_cases hsame : pool.nameAt raw.1 = name
        · have hnamed := hadds.named
          rw [hbody, hname, hsame] at hnamed
          rw [if_pos hsame, hfound]
          exact hnamed
        · rw [if_neg hsame]
          exact hfound.trans (hadds.others name fun hother => hsame (hname.symm.trans hother.symm))

variable (kindOf found related property) in
theorem collect_undoes
    (hadd : ∀ {state state' : σ} {attr : Attribute}, add state attr = .ok state' → property state' →
      property state ∧ ∃ content, Adds kindOf found related state attr state' content)
    {state state' : σ} (hread : collect pool add state start = .ok (state', stop)) (hproperty : property state') :
    ∃ layouts : List AttributeLayout, start.Spells (countedToBytes AttributeLayout.toBytes layouts) stop
      ∧ layouts.length ≤ maxCount ∧ (∀ attr ∈ layouts, attr.WellFormed pool kindOf)
      ∧ FoundLast pool found related state (start.position + 2) layouts state' := by
  obtain ⟨attributes, middle, hattributes, hlifted⟩ := bind_eq_ok.mp hread
  obtain ⟨hfold, rfl⟩ := lift_eq_ok.mp hlifted
  obtain ⟨raws, hspells, hcount, hrow⟩ := read_undoes.counted _ _ _ hattributes
  obtain ⟨-, layouts, hlength, hbytes, hlayouts, hlast⟩ := foldlM_undoes hadd hrow hfold hproperty
  refine ⟨layouts, ?_, hlength ▸ hcount, hlayouts, hlast⟩
  rw [countedToBytes, ElementLayout.countBytes, hlength, hbytes]
  exact hspells

end Collecting

end Attribute

end Retoken
