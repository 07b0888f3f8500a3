import Retoken.Proofs.PoolExtension.Calls
import Retoken.Proofs.Relinking.Room
import Retoken.Proofs.RoundTrip

/-!
# How pools grow

Whatever an extension of a pool is asked for, it adds nothing twice and answers with indices that mean what was asked for. How much writing a file can add is known before: two constants for each text that is wanted, and one for each text that a string of the pool names.
-/

namespace Retoken.ClassFile

open PoolExtension

theorem interned_and_ne_poolOverflow :
    (∀ start pool stop, ConstantPool.read start = .ok (pool, stop) →
      ∀ calls, PermitsAll { base := pool } calls →
        (callAll { base := pool } calls).1.map (·.1) = calls
          ∧ Interned pool (callAll { base := pool } calls).1 (callAll { base := pool } calls).2)
    ∧ ∀ bytes file edited, ofBytes bytes = .ok file → edited.map StringSite.reverted = file.declaration →
      file.pool.slots.size + 2 * edited.wantedTexts.length + file.pool.namedTexts.length ≤ maxSlots →
        ({ file with declaration := edited } : ClassFile).toBytes ≠ .error .poolOverflow := by
  refine ⟨fun start pool stop hread calls hpermits => ?_, fun bytes file edited hfile hedited hroom herror => ?_⟩
  · have hreadable := (ConstantPool.spells_of_read hread).1
    exact ⟨calls_of_callAll _ calls, interned hreadable hpermits⟩
  · obtain ⟨-, methods, held, hlegible⟩ := exists_legible hfile hedited
    exact hlegible.relink_ne_poolOverflow hroom (toBytes_eq_error.mp herror).2

/-- The second call finds the text of the first, and the last two name the texts of the pool and of the first. -/
theorem interned_and_ne_poolOverflow_sharedClass :
    (∃ pool stop, ConstantPool.read ⟨8, sharedClass.drop 8⟩ = .ok (pool, stop)
      ∧ (callAll { base := pool } [.utf8 "y", .string "y", .string "x", .stringNaming 4, .stringNaming 11]).1.map
          (·.2.toOption) = [some 11, some 12, some 13, some 13, some 12]
      ∧ Interned pool
          (callAll { base := pool } [.utf8 "y", .string "y", .string "x", .stringNaming 4, .stringNaming 11]).1
          (callAll { base := pool } [.utf8 "y", .string "y", .string "x", .stringNaming 4, .stringNaming 11]).2)
    ∧ ∃ file edited, ofBytes sharedClass = .ok file ∧ edited.map StringSite.reverted = file.declaration
      ∧ edited.wantedTexts = ["y", "z"] ∧ file.pool.namedTexts = [4]
      ∧ ({ file with declaration := edited } : ClassFile).toBytes ≠ .error .poolOverflow := by
  constructor
  · have hrun : (ConstantPool.read ⟨8, sharedClass.drop 8⟩).map (fun result =>
        ((callAll { base := result.1 } [.utf8 "y", .string "y", .string "x", .stringNaming 4, .stringNaming 11]).1.map
            (·.2.toOption),
          decide (PermitsAll { base := result.1 }
            [.utf8 "y", .string "y", .string "x", .stringNaming 4, .stringNaming 11])))
        = .ok ([some 11, some 12, some 13, some 13, some 12], true) := by
      decide +kernel
    obtain ⟨⟨pool, stop⟩, hread, hresults⟩ := except_map_eq_ok.mp hrun
    obtain ⟨hanswers, hpermits⟩ := Prod.mk.inj hresults
    have hinterned := interned_and_ne_poolOverflow.1 _ pool stop hread _ (of_decide_eq_true hpermits)
    exact ⟨pool, stop, hread, hanswers, hinterned.2⟩
  · have hrun : (ofBytes sharedClass).map (fun file =>
        ((file.declaration.map sharedEdit).wantedTexts, file.pool.namedTexts, file.pool.slots.size))
          = .ok (["y", "z"], [4], 11) := by
      decide +kernel
    obtain ⟨file, hfile, hresults⟩ := except_map_eq_ok.mp hrun
    obtain ⟨hwanted, hresults⟩ := Prod.mk.inj hresults
    obtain ⟨hnamed, hsize⟩ := Prod.mk.inj hresults
    have hedited := reverted_sharedEdit hfile
    refine ⟨file, _, hfile, hedited, hwanted, hnamed, ?_⟩
    refine interned_and_ne_poolOverflow.2 _ file _ hfile hedited ?_
    rw [hwanted, hnamed, hsize]
    decide

end Retoken.ClassFile
