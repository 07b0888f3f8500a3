import Retoken.Proofs.Declaration.Sites
import Retoken.Proofs.Relocation.Basic
import Retoken.Proofs.Relocation.Readers

/-!
# Loadable constants in a relocated file

The constant behind a slot is found again through the relocated slot: a readable string with the text that the relocation says, anything else as it was.
-/

namespace Retoken

variable {pool : ConstantPool} {slot : Slot}

namespace Relocation.Keeps

variable {relocation : Relocation}

theorem constant (hkeeps : relocation.Keeps slot) (hkind : slot.kind.namesString = true)
    {constant : Constant} (hget : relocation.source.get? slot.index = some constant)
    (hother : ∀ text, constant ≠ .string text) :
    relocation.target.get? (relocation.index slot) = some constant := by
  rcases hkeeps with ⟨hsame, -⟩ | ⟨⟨old, hold⟩, -⟩
  · exact hsame.trans hget
  · obtain ⟨text, hstring, -⟩ := (ConstantPool.shownText?_string hkind).mp hold
    rw [hget] at hstring
    exact absurd (Option.some.inj hstring) (hother text)

theorem suits (hkind : slot.kind.namesString = true) {constant : Constant}
    (hget : pool.get? slot.index = some constant) : pool.Suits slot := by
  refine ⟨constant, hget, fun htext => ?_⟩
  rw [htext] at hkind
  cases hkind

theorem get (hkeeps : relocation.Keeps slot) (hkind : slot.kind.namesString = true)
    {constant : Constant} (hget : relocation.source.get? slot.index = some constant) :
    ∃ constant', relocation.target.get? (relocation.index slot) = some constant' := by
  rcases hkeeps with ⟨hsame, -⟩ | ⟨-, hnew⟩
  · exact ⟨constant, hsame.trans hget⟩
  · obtain ⟨text, hstring, -⟩ := (ConstantPool.shownText?_string hkind).mp hnew
    exact ⟨_, hstring⟩

theorem string (hkeeps : relocation.Keeps slot) (hkind : slot.kind.namesString = true)
    {text : UInt16} {bytes : List UInt8} (hget : relocation.source.get? slot.index = some (.string text))
    (hbytes : relocation.source.utf8Bytes text = .ok bytes) :
    ∃ text' bytes', relocation.target.get? (relocation.index slot) = some (.string text')
      ∧ relocation.target.utf8Bytes text' = .ok bytes'
      ∧ StringSite.ofBytes? bytes' (relocation.slot slot)
        = (StringSite.ofBytes? bytes slot).map relocation.site := by
  rcases hkeeps with ⟨hsame, htext⟩ | ⟨⟨old, hold⟩, hnew⟩
  · refine ⟨text, bytes, hsame.trans hget, utf8Bytes_kept hbytes, ?_⟩
    rw [StringSite.ofBytes?, StringSite.ofBytes?]
    cases hdecoded : Text.ModifiedUtf8.toString? bytes with
    | none => rfl
    | some decoded =>
      have hshown : relocation.source.shownText? slot.kind slot.index = some decoded :=
        (ConstantPool.shownText?_string hkind).mpr ⟨text, hget, ConstantPool.textAt?_eq_some.mpr
          ⟨bytes, ConstantPool.utf8Bytes_eq_ok.mp hbytes, hdecoded⟩⟩
      rw [← htext decoded hshown]
      rfl
  · obtain ⟨oldText, holdGet, holdText⟩ := (ConstantPool.shownText?_string hkind).mp hold
    obtain ⟨newText, hnewGet, hnewText⟩ := (ConstantPool.shownText?_string hkind).mp hnew
    obtain ⟨oldBytes, holdBytes, holdDecoded⟩ := ConstantPool.textAt?_eq_some.mp holdText
    obtain ⟨newBytes, hnewBytes, hnewDecoded⟩ := ConstantPool.textAt?_eq_some.mp hnewText
    rw [hget] at holdGet
    cases holdGet
    rw [ConstantPool.utf8Bytes_eq_ok.mp hbytes] at holdBytes
    cases holdBytes
    refine ⟨newText, newBytes, hnewGet, ConstantPool.utf8Bytes_eq_ok.mpr hnewBytes, ?_⟩
    rw [StringSite.ofBytes?, StringSite.ofBytes?, hnewDecoded, holdDecoded]
    rfl

end Relocation.Keeps

namespace Loadable

def ofSite? : Option StringSite → Loadable StringSite
  | some site => string site
  | none => nonText

theorem map_ofSite? (f : StringSite → StringSite) (site? : Option StringSite) :
    (ofSite? site?).map f = ofSite? (site?.map f) := by
  cases site? <;> rfl

theorem ofSlot_eq (slot : Slot) {constant : Constant} (hget : pool.get? slot.index = some constant) :
    ofSlot pool slot = match constant with
      | .string text => (fun bytes => ofSite? (StringSite.ofBytes? bytes slot)) <$> pool.utf8Bytes text
      | .integer value => .ok (.number (.integer value))
      | .float bits => .ok (.number (.float bits))
      | .long value => .ok (.number (.long value))
      | .double bits => .ok (.number (.double bits))
      | .classInfo name => .classRef <$> pool.text name
      | .methodType descriptor => .methodType <$> pool.text descriptor
      | .methodHandle .. => .methodHandle <$> pool.methodHandle slot.index
      | .dynamic _ nameAndType => (fun pair => .dynamic pair.1 pair.2) <$> pool.nameAndType nameAndType
      | _ => .error (.malformed (.notLoadable slot.index slot.position)) := by
  rw [ofSlot, ConstantPool.get_eq_ok.mpr hget]
  cases constant with
  | string text =>
    simp only [bind, Except.bind, Functor.map, Except.map]
    cases pool.utf8Bytes text with
    | error e => rfl
    | ok bytes => cases hsite : StringSite.ofBytes? bytes slot <;> simp only [hsite] <;> rfl
  | _ => rfl

theorem ofSlot_kept {relocation : Relocation} (hkind : slot.kind.namesString = true)
    (hkeeps : relocation.source.Suits slot → relocation.Keeps slot) {constant : Loadable StringSite}
    (hread : ofSlot relocation.source slot = .ok constant) :
    ofSlot relocation.target (relocation.slot slot) = .ok (constant.map relocation.site) := by
  obtain ⟨found, hfound, -⟩ := except_bind_eq_ok.mp hread
  have hget := ConstantPool.get_eq_ok.mp hfound
  have hkept : relocation.Keeps slot := hkeeps (Relocation.Keeps.suits hkind hget)
  rw [ofSlot_eq slot hget] at hread
  cases found with
  | string text =>
    obtain ⟨bytes, hbytes, rfl⟩ := except_map_eq_ok.mp hread
    obtain ⟨text', bytes', hget', hbytes', hsite'⟩ := hkept.string hkind hget hbytes
    rw [ofSlot_eq (relocation.slot slot) hget', map_ofSite?, ← hsite']
    exact except_map_eq_ok.mpr ⟨bytes', hbytes', rfl⟩
  | classInfo name =>
    obtain ⟨text, htext, rfl⟩ := except_map_eq_ok.mp hread
    rw [ofSlot_eq (relocation.slot slot) (hkept.constant hkind hget nofun)]
    exact except_map_eq_ok.mpr ⟨text, relocation.text_kept htext, rfl⟩
  | methodType descriptor =>
    obtain ⟨text, htext, rfl⟩ := except_map_eq_ok.mp hread
    rw [ofSlot_eq (relocation.slot slot) (hkept.constant hkind hget nofun)]
    exact except_map_eq_ok.mpr ⟨text, relocation.text_kept htext, rfl⟩
  | methodHandle kind reference =>
    obtain ⟨handle, hhandle, rfl⟩ := except_map_eq_ok.mp hread
    have hget' := hkept.constant hkind hget nofun
    rw [ofSlot_eq (relocation.slot slot) hget']
    exact except_map_eq_ok.mpr ⟨handle, relocation.methodHandle_kept (hget'.trans hget.symm) hhandle, rfl⟩
  | dynamic bootstrap nameAndType =>
    obtain ⟨pair, hpair, rfl⟩ := except_map_eq_ok.mp hread
    rw [ofSlot_eq (relocation.slot slot) (hkept.constant hkind hget nofun)]
    exact except_map_eq_ok.mpr ⟨pair, relocation.nameAndType_kept hpair, rfl⟩
  | integer value | float bits | long value | double bits =>
    cases hread
    rw [ofSlot_eq (relocation.slot slot) (hkept.constant hkind hget nofun)]
    rfl
  | utf8 | member | nameAndType | invokeDynamic | moduleInfo | packageInfo => cases hread

theorem slots_ofSlot {constant : Loadable StringSite} (hread : ofSlot pool slot = .ok constant) :
    (constant.sites.map (·.slot)).Sublist [slot] := by
  obtain ⟨found, hfound, -⟩ := except_bind_eq_ok.mp hread
  rw [ofSlot_eq slot (ConstantPool.get_eq_ok.mp hfound)] at hread
  cases found with
  | string text =>
    obtain ⟨bytes, -, rfl⟩ := except_map_eq_ok.mp hread
    rw [StringSite.ofBytes?]
    cases Text.ModifiedUtf8.toString? bytes with
    | none => exact List.nil_sublist _
    | some text => exact List.Sublist.refl _
  | classInfo | methodType | methodHandle | dynamic =>
    obtain ⟨_, -, rfl⟩ := except_map_eq_ok.mp hread
    exact List.nil_sublist _
  | integer | float | long | double =>
    cases hread
    exact List.nil_sublist _
  | utf8 | member | nameAndType | invokeDynamic | moduleInfo | packageInfo => cases hread

end Loadable

end Retoken
