import Mathlib.Logic.Relation
import Retoken.ClassFile.Relinking
import Retoken.Proofs.ConstantPool.Lookups
import Retoken.Proofs.ConstantPool.References

/-!
# Chains of references

A look-up goes from a constant to those it refers to, and from these on. In a pool whose references are all of the required kinds no look-up meets a constant that is missing or of another kind, however far it goes, so what is left for it to fail at is a text that cannot be decoded.
-/

namespace Retoken.ConstantPool

open Text

def lookUp (pool : ConstantPool) (index : UInt16) : ConstantKind → Except ClassError Unit
  | .utf8 => (pool.text index).map fun _ => ()
  | .classInfo => (pool.className index).map fun _ => ()
  | .string => (Relinking.textIndex pool index).map fun _ => ()
  | .nameAndType => (pool.nameAndType index).map fun _ => ()
  | .member => (pool.member index).map fun _ => ()
  | .methodHandle => (pool.methodHandle index).map fun _ => ()

def Refers (pool : ConstantPool) (source target : UInt16 × ConstantKind) : Prop :=
  ∃ constant, pool.get? source.1 = some constant ∧ constant.kind? = some source.2 ∧ target ∈ constant.references

abbrev Leads (pool : ConstantPool) : UInt16 × ConstantKind → UInt16 × ConstantKind → Prop :=
  Relation.ReflTransGen pool.Refers

/-- The error says that a text on a chain from the constant cannot be decoded. -/
def Undecodable (pool : ConstantPool) (origin : UInt16 × ConstantKind) (error : ClassError) : Prop :=
  ∃ index bytes, pool.Leads origin (index, .utf8) ∧ pool.get? index = some (.utf8 bytes)
    ∧ ModifiedUtf8.toString? bytes = none ∧ error = .malformed (.undecodableText index)

variable {pool : ConstantPool} {index : UInt16} {source target : UInt16 × ConstantKind} {error : ClassError}

theorem Undecodable.of_refers (hundecodable : pool.Undecodable target error) (hrefers : pool.Refers source target) :
    pool.Undecodable source error := by
  obtain ⟨index, bytes, hleads, hrest⟩ := hundecodable
  exact ⟨index, bytes, .head hrefers hleads, hrest⟩

theorem utf8Bytes_of_hasKind (hkind : pool.HasKind index .utf8) :
    ∃ bytes, pool.get? index = some (.utf8 bytes) ∧ pool.utf8Bytes index = .ok bytes := by
  obtain ⟨constant, hget, hconstant⟩ := hkind
  cases constant with
  | utf8 bytes => exact ⟨bytes, hget, utf8Bytes_eq_ok.mpr hget⟩
  | _ => cases hconstant

theorem text_fails (hkind : pool.HasKind index .utf8) (herror : pool.text index = .error error) :
    pool.Undecodable (index, .utf8) error := by
  obtain ⟨bytes, hget, hbytes⟩ := utf8Bytes_of_hasKind hkind
  refine ⟨index, bytes, .refl, hget, ?_⟩
  cases hdecoded : ModifiedUtf8.toString? bytes with
  | some text =>
    rw [text_eq_ok.mpr ⟨bytes, hget, hdecoded⟩] at herror
    cases herror
  | none =>
    rcases except_bind_eq_error.mp herror with hfailed | ⟨found, hfound, hrest⟩
    · rw [hbytes] at hfailed
      cases hfailed
    · rw [hbytes] at hfound
      cases hfound
      simp only [hdecoded] at hrest
      cases hrest
      exact ⟨rfl, rfl⟩

section

variable (hunbroken : pool.firstBroken? = none)

include hunbroken

theorem hasKind_of_refers (hrefers : pool.Refers source target) : pool.HasKind target.1 target.2 := by
  obtain ⟨constant, hget, -, htarget⟩ := hrefers
  have hmem : some constant ∈ pool.slots := Array.mem_of_getElem? (Option.join_eq_some_iff.mp hget)
  exact (refersWell_iff.mp (firstBroken?_eq_none.mp hunbroken constant hmem)).hasKind target htarget

/-- By induction on the chain: it never leaves the constants that are as required. -/
theorem hasKind_of_leads (hkind : pool.HasKind source.1 source.2) (hleads : pool.Leads source target) :
    pool.HasKind target.1 target.2 := by
  induction hleads with
  | refl => exact hkind
  | tail _ hrefers _ => exact hasKind_of_refers hunbroken hrefers

theorem className_fails (hkind : pool.HasKind index .classInfo) (herror : pool.className index = .error error) :
    pool.Undecodable (index, .classInfo) error := by
  obtain ⟨constant, hget, hconstant⟩ := hkind
  cases constant with
  | classInfo name =>
    have hrefers : pool.Refers (index, .classInfo) (name, .utf8) := ⟨_, hget, rfl, List.mem_singleton.mpr rfl⟩
    rw [className, get_eq_ok.mpr hget] at herror
    exact (text_fails (hasKind_of_refers hunbroken hrefers) herror).of_refers hrefers
  | _ => cases hconstant

theorem textIndex_of_hasKind (hkind : pool.HasKind index .string) :
    ∃ text, Relinking.textIndex pool index = .ok text ∧ pool.HasKind text .utf8 := by
  obtain ⟨constant, hget, hconstant⟩ := hkind
  cases constant with
  | string text =>
    have hrefers : pool.Refers (index, .string) (text, .utf8) := ⟨_, hget, rfl, List.mem_singleton.mpr rfl⟩
    refine ⟨text, ?_, hasKind_of_refers hunbroken hrefers⟩
    rw [Relinking.textIndex, get_eq_ok.mpr hget]
    rfl
  | _ => cases hconstant

theorem nameAndType_fails (hkind : pool.HasKind index .nameAndType)
    (herror : pool.nameAndType index = .error error) : pool.Undecodable (index, .nameAndType) error := by
  obtain ⟨constant, hget, hconstant⟩ := hkind
  cases constant with
  | nameAndType name descriptor =>
    have hname : pool.Refers (index, .nameAndType) (name, .utf8) := ⟨_, hget, rfl, List.mem_cons_self⟩
    have hdescriptor : pool.Refers (index, .nameAndType) (descriptor, .utf8) :=
      ⟨_, hget, rfl, List.mem_cons_of_mem _ (List.mem_singleton.mpr rfl)⟩
    have hrun : pool.nameAndType index
        = pool.text name >>= fun name => pool.text descriptor >>= fun descriptor => pure (name, descriptor) := by
      rw [nameAndType, get_eq_ok.mpr hget]
      rfl
    rw [hrun] at herror
    rcases except_bind_eq_error.mp herror with hfailed | ⟨_, -, hrest⟩
    · exact (text_fails (hasKind_of_refers hunbroken hname) hfailed).of_refers hname
    · rcases except_bind_eq_error.mp hrest with hfailed | ⟨_, -, hdone⟩
      · exact (text_fails (hasKind_of_refers hunbroken hdescriptor) hfailed).of_refers hdescriptor
      · cases hdone
  | _ => cases hconstant

theorem member_fails (hkind : pool.HasKind index .member) (herror : pool.member index = .error error) :
    pool.Undecodable (index, .member) error := by
  obtain ⟨constant, hget, hconstant⟩ := hkind
  cases constant with
  | member kind owner pair =>
    have howner : pool.Refers (index, .member) (owner, .classInfo) := ⟨_, hget, rfl, List.mem_cons_self⟩
    have hpair : pool.Refers (index, .member) (pair, .nameAndType) :=
      ⟨_, hget, rfl, List.mem_cons_of_mem _ (List.mem_singleton.mpr rfl)⟩
    have hrun : pool.member index
        = pool.className owner >>= fun owner => pool.nameAndType pair >>= fun pair => pure (owner, pair) := by
      rw [member, get_eq_ok.mpr hget]
      rfl
    rw [hrun] at herror
    rcases except_bind_eq_error.mp herror with hfailed | ⟨_, -, hrest⟩
    · exact (className_fails hunbroken (hasKind_of_refers hunbroken howner) hfailed).of_refers howner
    · rcases except_bind_eq_error.mp hrest with hfailed | ⟨_, -, hdone⟩
      · exact (nameAndType_fails hunbroken (hasKind_of_refers hunbroken hpair) hfailed).of_refers hpair
      · cases hdone
  | _ => cases hconstant

theorem methodHandle_fails (hkind : pool.HasKind index .methodHandle)
    (herror : pool.methodHandle index = .error error) : pool.Undecodable (index, .methodHandle) error := by
  obtain ⟨constant, hget, hconstant⟩ := hkind
  cases constant with
  | methodHandle kind reference =>
    have hreference : pool.Refers (index, .methodHandle) (reference, .member) :=
      ⟨_, hget, rfl, List.mem_singleton.mpr rfl⟩
    have hrun : pool.methodHandle index = pool.member reference >>= fun found =>
        pure { kind, owner := found.1, name := found.2.1, descriptor := found.2.2 } := by
      rw [methodHandle, get_eq_ok.mpr hget]
      rfl
    rw [hrun] at herror
    rcases except_bind_eq_error.mp herror with hfailed | ⟨_, -, hdone⟩
    · exact (member_fails hunbroken (hasKind_of_refers hunbroken hreference) hfailed).of_refers hreference
    · cases hdone
  | _ => cases hconstant

theorem lookUp_fails {kind : ConstantKind} (hkind : pool.HasKind index kind)
    (herror : pool.lookUp index kind = .error error) : pool.Undecodable (index, kind) error := by
  cases kind with
  | utf8 => exact text_fails hkind (except_map_eq_error.mp herror)
  | classInfo => exact className_fails hunbroken hkind (except_map_eq_error.mp herror)
  | string =>
    obtain ⟨text, htext, -⟩ := textIndex_of_hasKind hunbroken hkind
    rw [lookUp, htext] at herror
    cases herror
  | nameAndType => exact nameAndType_fails hunbroken hkind (except_map_eq_error.mp herror)
  | member => exact member_fails hunbroken hkind (except_map_eq_error.mp herror)
  | methodHandle => exact methodHandle_fails hunbroken hkind (except_map_eq_error.mp herror)

end

end Retoken.ConstantPool
