import Retoken.Proofs.Relinking.Written

/-!
# Writing a file and reading it again

Whatever texts are given to the sites of a file, the bytes written for it are read as the edited declaration. The one condition is that sites at one bootstrap argument agree, since the file has room for one text only.
-/

namespace Retoken.ClassFile

open Relinking

variable {file : ClassFile} {bytes out : List UInt8} {edited : Declaration StringSite}

theorem text_eq_of_unmodified {declaration : Declaration StringSite} (hunmodified : declaration.isModified = false)
    {site : StringSite} (hsite : site ∈ declaration.sites) : site.text = site.stored := by
  have hsame := List.any_eq_false.mp hunmodified site hsite
  simpa [StringSite.isModified] using hsame

theorem Legible.text_of_mem {methods : List BootstrapMethod} {held : List Slot} {relinking : Relinking}
    (hlegible : file.Legible methods held) (hrelinked : file.Relinked relinking)
    (hagree : ∀ one ∈ file.declaration.callArguments, ∀ other ∈ file.declaration.callArguments,
      one.slot.position = other.slot.position → one.text = other.text)
    {site : StringSite} (hsite : site ∈ file.declaration.sites) :
    (relinking.relocation hrelinked.extended).text site.slot = site.text := by
  refine hlegible.text_of_agreeing hrelinked hsite fun other hother hposition => ?_
  by_cases hsame : other = site
  · rw [hsame]
  · obtain ⟨hargument, hargumentSite⟩ := hlegible.callArguments_of_position hother hsite hposition hsame
    exact hagree other hargument site hargumentSite hposition

/-- What is written for an edited file can be read, and holds the edited texts. -/
theorem texts_of_toBytes (hfile : ofBytes bytes = .ok file)
    (hedited : edited.map StringSite.reverted = file.declaration)
    (hagree : ∀ one ∈ edited.callArguments, ∀ other ∈ edited.callArguments,
      one.slot.position = other.slot.position → one.text = other.text)
    (hout : ({ file with declaration := edited } : ClassFile).toBytes = .ok out) :
    ∃ file', ofBytes out = .ok file' ∧ file'.declaration.map (·.text) = edited.map (·.text) := by
  obtain ⟨hbytes, methods, held, hlegible⟩ := exists_legible hfile hedited
  rcases toBytes_eq_ok.mp hout with ⟨hunmodified, rfl⟩ | ⟨-, relinking, hrelink, rfl⟩
  · refine ⟨file, by rw [hbytes]; exact hfile, ?_⟩
    rw [← hedited, Declaration.map_map]
    exact Declaration.map_congr fun site hsite => (text_eq_of_unmodified hunmodified hsite).symm
  · have hrelinked := settled_of_relink hlegible.relinkable hrelink
    obtain ⟨file', hread, hdeclaration⟩ := hlegible.ofBytes_assemble hrelinked
    refine ⟨file', hread, ?_⟩
    rw [hdeclaration, Declaration.map_map]
    exact Declaration.map_congr fun site hsite => hlegible.text_of_mem hrelinked hagree hsite

/-- What is written for an edited file is read as the edited declaration, with the edited texts stored. -/
theorem ofBytes_toBytes (hfile : ofBytes bytes = .ok file)
    (hedited : edited.map StringSite.reverted = file.declaration)
    (hagree : ∀ one ∈ edited.callArguments, ∀ other ∈ edited.callArguments,
      one.slot.position = other.slot.position → one.text = other.text)
    (hout : ({ file with declaration := edited } : ClassFile).toBytes = .ok out) :
    ∃ file', ofBytes out = .ok file' ∧ file'.declaration.map (·.text) = edited.map (·.text)
      ∧ file'.declaration.map (·.stored) = edited.map (·.text) := by
  obtain ⟨file', hread, htexts⟩ := texts_of_toBytes hfile hedited hagree hout
  have hstored : file'.declaration.map (·.stored) = file'.declaration.map (·.text) :=
    Declaration.map_congr fun site hsite => congrArg StringSite.text (reverted_of_mem hread hsite)
  exact ⟨file', hread, htexts, hstored.trans htexts⟩

/-- A class with a load of one byte and two dynamic calls through one bootstrap method, all of which name one string constant. -/
def sharedClass : List UInt8 :=
  [0xCA, 0xFE, 0xBA, 0xBE, 0x00, 0x00, 0x00, 0x3D, 0x00, 0x0B, 0x07, 0x00, 0x02, 0x01, 0x00, 0x01,
    0x41, 0x08, 0x00, 0x04, 0x01, 0x00, 0x01, 0x78, 0x0F, 0x06, 0x00, 0x06, 0x0A, 0x00, 0x01, 0x00,
    0x07, 0x0C, 0x00, 0x02, 0x00, 0x02, 0x12, 0x00, 0x00, 0x00, 0x07, 0x01, 0x00, 0x04, 0x43, 0x6F,
    0x64, 0x65, 0x01, 0x00, 0x10, 0x42, 0x6F, 0x6F, 0x74, 0x73, 0x74, 0x72, 0x61, 0x70, 0x4D, 0x65,
    0x74, 0x68, 0x6F, 0x64, 0x73, 0x00, 0x00, 0x00, 0x01, 0x00, 0x00, 0x00, 0x00, 0x00, 0x00, 0x00,
    0x01, 0x00, 0x00, 0x00, 0x02, 0x00, 0x02, 0x00, 0x01, 0x00, 0x09, 0x00, 0x00, 0x00, 0x14, 0x00,
    0x00, 0x00, 0x00, 0x00, 0x00, 0x00, 0x0C, 0x12, 0x03, 0xBA, 0x00, 0x08, 0x00, 0x00, 0xBA, 0x00,
    0x08, 0x00, 0x00, 0x00, 0x01, 0x00, 0x0A, 0x00, 0x00, 0x00, 0x08, 0x00, 0x01, 0x00, 0x05, 0x00,
    0x01, 0x00, 0x03]

/-- Gives the load of `sharedClass` another text than the arguments of its calls. -/
def sharedEdit (site : StringSite) : StringSite :=
  { site with text := if site.slot.position = 104 then "y" else "z" }

theorem reverted_sharedEdit (hfile : ofBytes bytes = .ok file) :
    (file.declaration.map sharedEdit).map StringSite.reverted = file.declaration := by
  rw [Declaration.map_map]
  exact map_reverted hfile

theorem text_sharedEdit {declaration : Declaration StringSite} {one other : StringSite}
    (hone : one ∈ (declaration.map sharedEdit).callArguments)
    (hother : other ∈ (declaration.map sharedEdit).callArguments)
    (hposition : one.slot.position = other.slot.position) :
    one.text = other.text := by
  rw [Declaration.callArguments_map] at hone hother
  obtain ⟨site, -, rfl⟩ := List.mem_map.mp hone
  obtain ⟨site', -, rfl⟩ := List.mem_map.mp hother
  simp only [sharedEdit] at hposition ⊢
  rw [hposition]

theorem ofBytes_toBytes_sharedClass : ∃ file edited out, ofBytes sharedClass = .ok file
    ∧ edited.map StringSite.reverted = file.declaration
    ∧ ({ file with declaration := edited } : ClassFile).toBytes = .ok out
    ∧ edited.sites.map (·.text) = ["y", "z", "z"]
    ∧ ∃ file', ofBytes out = .ok file' ∧ file'.declaration.map (·.text) = edited.map (·.text)
      ∧ file'.declaration.map (·.stored) = edited.map (·.text) := by
  have hrun : ((ofBytes sharedClass).bind fun file =>
      (({ file with declaration := file.declaration.map sharedEdit } : ClassFile).toBytes).map fun _ =>
        (file.declaration.map sharedEdit).sites.map (·.text)) = .ok ["y", "z", "z"] := by
    decide +kernel
  obtain ⟨file, hfile, hrun⟩ := except_bind_eq_ok.mp hrun
  obtain ⟨out, hout, htexts⟩ := except_map_eq_ok.mp hrun
  have hedited := reverted_sharedEdit hfile
  have hread := ofBytes_toBytes hfile hedited (fun _ hone _ hother => text_sharedEdit hone hother) hout
  exact ⟨file, _, out, hfile, hedited, hout, htexts, hread⟩

end Retoken.ClassFile
