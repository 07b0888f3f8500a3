import Retoken.Proofs.Unchanged

/-!
# Replacing tokens twice

A second run with the same tokens changes nothing exactly if the first one has left no key in the text of a site. That no value has a key in it is not enough for this: taking a value out, or putting one in, may bring together what stood on both sides to a key. It is enough if also no key can occur across an edge of a value.
-/

namespace Retoken

namespace ClassFile

open Declaration

variable {file : ClassFile} {bytes out : List UInt8} {tokens : TokenTable} {tally : Tally}

/-- Nothing is replaced in a class exactly if no key occurs in the text of a listed site. -/
theorem retoken_eq_none_iff (hvalues : tokens.ValuesFree) (hfile : ofBytes bytes = .ok file) :
    (∃ tally, retoken tokens bytes = .ok ⟨tally, none⟩ ∧ tally.replaced = 0)
      ↔ ∀ record ∈ file.declaration.records, tokens.KeysAbsent record.text := by
  have hunchanged : (file.replaceTokens tokens).2.changed = false
      ↔ ∀ record ∈ file.declaration.records, tokens.KeysAbsent record.text := by
    rw [changed_replaceTokens_eq_false_iff]
    exact forall₂_congr fun record _ => TokenTable.unchanged_iff_absent hvalues
  rw [retoken_of_ofBytes hfile, ← hunchanged]
  cases hchanged : (file.replaceTokens tokens).2.changed with
  | false =>
    have hzero : (file.replaceTokens tokens).2.replaced = 0 := by
      simpa [Tally.changed] using hchanged
    exact ⟨fun _ => rfl, fun _ => ⟨_, rfl, hzero⟩⟩
  | true =>
    constructor
    · intro hunreplaced
      obtain ⟨tally, hnone, -⟩ := hunreplaced
      obtain ⟨_, -, hresult⟩ := except_map_eq_ok.mp hnone
      cases hresult
    · intro hfalse
      cases hfalse

/-- A class whose tokens were replaced is left alone by the same tokens if no value has a key in it and no key can occur across an edge of a value. Without the latter it is left alone exactly if no key has come about at a site. -/
theorem retoken_again (hvalues : tokens.ValuesFree) (hretoken : retoken tokens bytes = .ok ⟨tally, some out⟩) :
    (tokens.JoinFree → ∃ tally', retoken tokens out = .ok ⟨tally', none⟩ ∧ tally'.replaced = 0)
      ∧ ∃ file', ofBytes out = .ok file'
        ∧ ((∃ tally', retoken tokens out = .ok ⟨tally', none⟩ ∧ tally'.replaced = 0)
          ↔ ∀ record ∈ file'.declaration.records, tokens.KeysAbsent record.text) := by
  obtain ⟨file, file', -, hread, -, htexts⟩ := texts_of_retoken hretoken
  refine ⟨fun hjoinFree => ?_, file', hread, retoken_eq_none_iff hvalues hread⟩
  rw [retoken_eq_none_iff hvalues hread, records_of_texts htexts]
  intro record hrecord
  obtain ⟨read, -, rfl⟩ := List.mem_map.mp hrecord
  exact TokenTable.absent_substitute hvalues hjoinFree read.text

/-- A class with a load of the text "aabb". -/
def nestedClass : List UInt8 :=
  [0xCA, 0xFE, 0xBA, 0xBE, 0x00, 0x00, 0x00, 0x3D, 0x00, 0x06, 0x07, 0x00, 0x02, 0x01, 0x00, 0x01,
    0x41, 0x08, 0x00, 0x04, 0x01, 0x00, 0x04, 0x61, 0x61, 0x62, 0x62, 0x01, 0x00, 0x04, 0x43, 0x6F,
    0x64, 0x65, 0x00, 0x00, 0x00, 0x01, 0x00, 0x00, 0x00, 0x00, 0x00, 0x00, 0x00, 0x01, 0x00, 0x00,
    0x00, 0x02, 0x00, 0x02, 0x00, 0x01, 0x00, 0x05, 0x00, 0x00, 0x00, 0x0E, 0x00, 0x00, 0x00, 0x00,
    0x00, 0x00, 0x00, 0x02, 0x12, 0x03, 0x00, 0x00, 0x00, 0x00, 0x00, 0x00]

/-- The inner of two nested keys is replaced by a dash, which keeps apart what stands around it. -/
theorem retoken_again_nestedClass : ∃ out,
    retoken ⟨[("ab", "-")]⟩ nestedClass = .ok ⟨⟨1, 1⟩, some out⟩
      ∧ ∃ tally', retoken ⟨[("ab", "-")]⟩ out = .ok ⟨tally', none⟩ ∧ tally'.replaced = 0 := by
  let tokens : TokenTable := ⟨[("ab", "-")]⟩
  have hrun : (retoken tokens nestedClass).map (fun retokened => (retokened.tally, retokened.bytes?.isSome))
      = .ok (⟨1, 1⟩, true) := by
    decide +kernel
  have hvalues : tokens.ValuesFree := by
    decide
  have hedges : Text.Seamless "ab".toList "-".toList := Text.seamless_of_disjoint (by decide) (by simp)
  have hjoinFree : tokens.JoinFree := by
    constructor
    · exact List.pairwise_singleton _ _
    · intro entry hentry
      rw [List.mem_singleton.mp hentry]
      exact hedges
  obtain ⟨⟨tally, bytes?⟩, hretoken, hresult⟩ := except_map_eq_ok.mp hrun
  cases bytes? with
  | none => cases hresult
  | some out =>
    obtain rfl : tally = ⟨1, 1⟩ := congrArg Prod.fst hresult
    exact ⟨out, hretoken, (retoken_again hvalues hretoken).1 hjoinFree⟩

/-- Once the inner of two nested keys is taken out, the outer one comes together. So that no value has a key in it does not make a second run change nothing. -/
theorem not_retoken_again_of_valuesFree :
    ¬ ∀ (tokens : TokenTable) (bytes out : List UInt8) (tally : Tally), tokens.ValuesFree →
      retoken tokens bytes = .ok ⟨tally, some out⟩ →
        ∃ tally', retoken tokens out = .ok ⟨tally', none⟩ ∧ tally'.replaced = 0 := by
  intro hagain
  let tokens : TokenTable := ⟨[("ab", "")]⟩
  have hvalues : tokens.ValuesFree := by
    decide
  have hrun : (retoken tokens nestedClass).bind (fun first =>
      (first.bytes?.elim (.error .poolOverflow) (retoken tokens)).map fun second =>
        (first.tally, second.tally)) = .ok (⟨1, 1⟩, ⟨1, 1⟩) := by
    decide +kernel
  obtain ⟨⟨tally, bytes?⟩, hfirst, hrun⟩ := except_bind_eq_ok.mp hrun
  cases bytes? with
  | none => cases hrun
  | some out =>
    obtain ⟨second, hsecond, htallies⟩ := except_map_eq_ok.mp hrun
    obtain ⟨tally', hnone, hzero⟩ := hagain tokens nestedClass out tally hvalues hfirst
    have hsame : second = ⟨tally', none⟩ := Except.ok.inj (hsecond.symm.trans hnone)
    have htally : tally' = ⟨1, 1⟩ := by
      rw [hsame] at htallies
      exact congrArg Prod.snd htallies
    rw [htally] at hzero
    cases hzero

end ClassFile

end Retoken
