import Retoken.Proofs.ConstantPool.Serialisation
import Retoken.Proofs.Relocation.Declaration
import Retoken.ClassFile.Relinking

/-!
# A relocated file as a whole

A file that can be read is a header, its pool, and a stretch that holds slots. If another pool is put into it and the stretch is overwritten at the slots only, the new file can be read as well, and declares the same with other texts.
-/

namespace Retoken

open Reader

namespace ClassFile

theorem stringSlots_eq (pool : ConstantPool) (methods : List BootstrapMethod) :
    stringSlots pool methods = (methods.flatMap BootstrapMethod.slots).filter (isString pool ·.index) := by
  have hall : methods.flatMap BootstrapMethod.slots = (methods.flatMap (·.arguments)).map (·.slot) := by
    rw [List.map_flatMap]
    exact List.flatMap_congr fun method _ => (List.map_eq_flatMap ..).symm
  rw [hall, stringSlots]
  induction methods.flatMap (·.arguments) with
  | nil => rfl
  | cons argument arguments ih =>
    rw [List.filterMap_cons, List.map_cons, List.filter_cons, ih]
    by_cases hstring : isString pool argument.index = true
    · rw [if_pos hstring]
      exact (if_pos hstring).symm
    · rw [if_neg hstring]
      exact (if_neg hstring).symm

/-- What is known about the bytes of a file that was read: where its slots are, and that it can be read again after a relocation. -/
structure Layout (file : ClassFile) (methods : List BootstrapMethod) (held : List Slot) : Prop where
  spread : Spread file.poolEnd file.bytes.length held
  slots : (file.declaration.ownSites.map (·.slot) ++ methods.flatMap BootstrapMethod.slots).Subperm held
  calls : ∀ call ∈ file.declaration.calls, ∃ method ∈ methods,
    method.handle = call.1 ∧ ∀ site ∈ call.2, site.slot ∈ method.slots
  strings : file.bootstrapStrings = stringSlots file.pool methods
  readable : file.pool.Readable
  split : file.bytes
    = file.bytes.take poolStart ++ (file.pool.toBytes ++ file.bytes.drop file.poolEnd)
  reread : ∀ relocation : Relocation, relocation.source = file.pool →
    relocation.target.toBytes.length = file.pool.toBytes.length + relocation.shift →
      relocation.target.Readable → relocation.Fits file.poolEnd file.bytes.length held →
        ∃ file', ofBytes (file.bytes.take poolStart ++ relocation.target.toBytes
            ++ relocation.overwrite file.poolEnd (file.bytes.drop file.poolEnd)) = .ok file'
          ∧ file'.pool = relocation.target
          ∧ file'.declaration = file.declaration.map relocation.site

theorem read_eq_ok {start stop : Cursor} {pool : ConstantPool} {strings : List Slot}
    {declaration : Declaration StringSite} :
    read start = .ok ((pool, strings, declaration), stop)
      ↔ ∃ minor major afterHeader afterPool,
        start.Spells (BigEndian.bytes32 magic ++ (BigEndian.bytes16 minor ++ BigEndian.bytes16 major)) afterHeader
          ∧ ConstantPool.read afterHeader = .ok (pool, afterPool)
          ∧ readDeclaration pool minor major afterPool = .ok ((strings, declaration), stop) := by
  rw [read, bind_eq_ok]
  constructor
  · rintro ⟨found, afterMagic, hfound, hread⟩
    by_cases hmagic : found = magic
    · rw [if_neg (by simpa using hmagic)] at hread
      obtain ⟨minor, afterMinor, hminor, hread⟩ := bind_eq_ok.mp hread
      obtain ⟨major, afterMajor, hmajor, hread⟩ := bind_eq_ok.mp hread
      obtain ⟨pool', afterPool, hpool, hread⟩ := bind_eq_ok.mp hread
      obtain ⟨result, _, hdeclaration, hpure⟩ := bind_eq_ok.mp hread
      obtain ⟨hresult, rfl⟩ := pure_eq_ok.mp hpure
      cases hresult
      rw [hmagic] at hfound
      refine ⟨minor, major, afterMajor, afterPool, ?_, hpool, hdeclaration⟩
      exact Cursor.Spells.append (u32_eq_ok.mp hfound)
        (Cursor.Spells.append (u16_eq_ok.mp hminor) (u16_eq_ok.mp hmajor))
    · rw [if_pos (by simpa using hmagic)] at hread
      cases hread
  · rintro ⟨minor, major, afterHeader, afterPool, hheader, hpool, hdeclaration⟩
    obtain ⟨afterMagic, hmagic, hversions⟩ := Cursor.Spells.append_iff.mp hheader
    obtain ⟨afterMinor, hminor, hmajor⟩ := Cursor.Spells.append_iff.mp hversions
    refine ⟨magic, afterMagic, u32_eq_ok.mpr hmagic, ?_⟩
    rw [if_neg (by decide)]
    refine (run_bind (u16_eq_ok.mpr hminor)).trans ?_
    rw [run_bind (u16_eq_ok.mpr hmajor), run_bind hpool, run_bind hdeclaration]
    rfl

variable {bytes : List UInt8} {file : ClassFile} (hfile : ofBytes bytes = .ok file)

include hfile

theorem read_of_ofBytes : file.bytes = bytes ∧ ∃ minor major afterHeader afterPool stop,
    Cursor.Spells ⟨0, bytes⟩ (BigEndian.bytes32 magic ++ (BigEndian.bytes16 minor ++ BigEndian.bytes16 major))
        afterHeader
      ∧ ConstantPool.read afterHeader = .ok (file.pool, afterPool)
      ∧ readDeclaration file.pool minor major afterPool
        = .ok ((file.bootstrapStrings, file.declaration), stop) := by
  obtain ⟨⟨⟨pool, strings, declaration⟩, stop⟩, hread, hpure⟩ := except_bind_eq_ok.mp hfile
  cases hpure
  obtain ⟨minor, major, afterHeader, afterPool, hheader, hpool, hdeclaration⟩ := read_eq_ok.mp hread
  exact ⟨rfl, minor, major, afterHeader, afterPool, stop, hheader, hpool, hdeclaration⟩

theorem exists_layout : file.bytes = bytes ∧ ∃ methods held, file.Layout methods held := by
  obtain ⟨rfl, minor, major, afterHeader, afterPool, stop, hheader, hpool, hdeclaration⟩ := read_of_ofBytes hfile
  obtain ⟨hreadable, hpoolSpelled⟩ := ConstantPool.spells_of_read hpool
  obtain ⟨methods, hstrings, hended, hcalls, hreaches, held, hspread, hslots, hcarried⟩ :=
    readDeclaration_carried hdeclaration
  obtain ⟨hheaderRest, hheaderPosition⟩ := hheader
  obtain ⟨hpoolRest, hpoolPosition⟩ := hpoolSpelled
  generalize hheader : BigEndian.bytes32 magic ++ (BigEndian.bytes16 minor ++ BigEndian.bytes16 major)
    = header at hheaderRest hheaderPosition
  have hheaderLength : header.length = poolStart := by rw [← hheader]; rfl
  simp only [hheaderLength, Nat.zero_add] at hheaderRest hheaderPosition
  have hpoolEnd : afterPool.position = poolStart + file.pool.toBytes.length := by
    rw [hpoolPosition, hheaderPosition]
  have hbytes : file.bytes = header ++ (file.pool.toBytes ++ afterPool.rest) := by rw [hheaderRest, hpoolRest]
  have htake : file.bytes.take poolStart = header := by
    rw [hbytes, ← hheaderLength, List.take_left]
  have hdrop : file.bytes.drop (poolStart + file.pool.toBytes.length) = afterPool.rest := by
    rw [hbytes, ← hheaderLength, ← List.append_assoc, ← List.length_append, List.drop_left]
  -- Nothing is left behind the last part, so the stretch that holds the slots ends with the file.
  have hfinish : stop.position = file.bytes.length := by
    have hstop : stop.finish = stop.position := by rw [Cursor.finish, hended]; rfl
    rw [← hstop, hreaches.finish_eq, Cursor.finish, hpoolEnd, hbytes, List.length_append,
      List.length_append, hheaderLength, Nat.add_assoc]
  rw [hpoolEnd, hfinish] at hspread hcarried
  refine ⟨rfl, methods, held, hspread, hslots, hcalls, hstrings, hreadable, ?_, ?_⟩
  · simp only [poolEnd, htake, hdrop]
    exact hbytes
  · intro relocation hsource hlength htarget hfits
    have hrun := hcarried relocation hsource hfits
    simp only [poolEnd, htake, hdrop, List.append_assoc]
    have hpoolRun : ConstantPool.read
        ⟨poolStart, relocation.target.toBytes
          ++ relocation.overwrite (poolStart + file.pool.toBytes.length) afterPool.rest⟩
        = .ok (relocation.target, relocation.cursor afterPool) := by
      refine ConstantPool.read_of_spells htarget ⟨?_, ?_⟩
      · rw [Relocation.cursor, hpoolEnd]
      · simp only [Relocation.cursor, hpoolEnd, hlength, Nat.add_assoc]
    refine ⟨_, except_bind_eq_ok.mpr ⟨_, read_eq_ok.mpr ⟨minor, major, _, _, ?_, hpoolRun, hrun⟩, rfl⟩, rfl, rfl⟩
    rw [hheader]
    exact ⟨rfl, by rw [hheaderLength, Nat.zero_add]⟩

end ClassFile

end Retoken
