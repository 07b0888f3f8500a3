import Retoken.ClassFile.Editing
import Retoken.Proofs.Relinking.Refusals
import Retoken.Proofs.RoundTrip

/-!
# Differing texts at one bootstrap argument

Calls through one bootstrap method share its arguments, and a file has room for one text in each of them. Writing a file in which two sites at one argument want different texts is refused if neither wants what their string constant takes for itself. Otherwise the one that does is passed over, and both sites read as the other one afterwards.
-/

namespace Retoken

namespace Declaration

theorem map_set_of_same {α β : Type} {f : α → β} {items : List α} {i : Nat} {old new : α}
    (hold : items[i]? = some old) (hsame : f new = f old) : (items.set i new).map f = items.map f := by
  obtain ⟨hi, rfl⟩ := List.getElem?_eq_some_iff.mp hold
  have hlength : i < (items.map f).length := by rwa [List.length_map]
  have hkept : (items.map f).set i (items.map f)[i] = items.map f := List.set_getElem_self hlength
  rwa [List.getElem_map, ← hsame, ← List.map_set] at hkept

/-- Giving a text to an argument changes no more than the text of one site. -/
theorem setArgument?_reverted {declaration edited : Declaration StringSite} {method instruction argument : Nat}
    {text : String} (hedited : declaration.setArgument? method instruction argument text = some edited) :
    edited.map StringSite.reverted = declaration.map StringSite.reverted := by
  obtain ⟨found, hfound, hedited⟩ := Option.bind_eq_some_iff.mp hedited
  obtain ⟨call, hcall, hedited⟩ := Option.bind_eq_some_iff.mp hedited
  cases call with
  | load | other => cases hedited
  | invokeDynamic offset name descriptor bootstrap arguments =>
    obtain ⟨constant, hconstant, hedited⟩ := Option.bind_eq_some_iff.mp hedited
    obtain ⟨site, hsite, hedited⟩ := Option.bind_eq_some_iff.mp hedited
    cases constant with
    | string _ =>
      cases hsite
      cases hedited
      have harguments : (arguments.set argument (.string { site with text })).map (·.map StringSite.reverted)
          = arguments.map (·.map StringSite.reverted) := map_set_of_same hconstant rfl
      have hinstruction : (Instruction.invokeDynamic offset name descriptor bootstrap
            (arguments.set argument (.string { site with text }))).map StringSite.reverted
          = (Instruction.invokeDynamic offset name descriptor bootstrap arguments).map StringSite.reverted := by
        rw [Instruction.map_invokeDynamic, Instruction.map_invokeDynamic, harguments]
      have hinstructions := map_set_of_same (f := Instruction.map StringSite.reverted) hcall hinstruction
      have hmethod : ({ found with instructions := found.instructions.set instruction (.invokeDynamic offset name
            descriptor bootstrap (arguments.set argument (.string { site with text }))) }
              : Method StringSite).map StringSite.reverted = found.map StringSite.reverted := by
        rw [Method.map, Method.map, hinstructions]
      rw [map_eq, map_eq, map_set_of_same hfound hmethod]
    | _ => cases hsite

end Declaration

namespace ClassFile

open Relinking

variable {file : ClassFile} {bytes : List UInt8} {edited : Declaration StringSite} {one other : StringSite}

namespace Legible

variable {methods : List BootstrapMethod} {held : List Slot} {relinking : Relinking}
  (hlegible : file.Legible methods held)

include hlegible

theorem text_of_redirected_argument (hrelinked : file.Relinked relinking)
    (hone : one ∈ file.declaration.callArguments)
    (hredirected : one.wanted? ≠ primaryOf file.stringReferences one.slot.index) :
    (relinking.relocation hrelinked.extended).text one.slot = one.text := by
  refine hlegible.text_of_redirected hrelinked (Declaration.mem_sites.mpr (.inr hone)) ?_ hredirected
  rw [hlegible.kind_of_mem_callArguments hone]
  rfl

/-- A conflict is about two arguments at one position, neither of which wants what its constant takes. -/
theorem differing_of_conflict {position : Nat} (herror : file.toBytes = .error (.conflictingSlot position)) :
    ∃ first ∈ file.declaration.callArguments, ∃ second ∈ file.declaration.callArguments,
      first.slot.position = position ∧ second.slot.position = position ∧ first.text ≠ second.text
        ∧ first.wanted? ≠ primaryOf file.stringReferences first.slot.index
        ∧ second.wanted? ≠ primaryOf file.stringReferences second.slot.index := by
  cases hlegible.refusal_of_toBytes herror with
  | conflict hfirst hsecond hposition hdiffers hredirected hredirectedOther =>
    exact ⟨_, hfirst, _, hsecond, rfl, hposition.symm, hdiffers, hredirected, hredirectedOther⟩

section

variable (hone : one ∈ file.declaration.callArguments) (hother : other ∈ file.declaration.callArguments)
  (hposition : one.slot.position = other.slot.position)

include hone hother hposition

theorem slot_eq_of_arguments : one.slot = other.slot :=
  hlegible.slot_eq_of_position (Declaration.mem_sites.mpr (.inr hone)) (Declaration.mem_sites.mpr (.inr hother))
    hposition

variable (hdiffers : one.text ≠ other.text)

include hdiffers

theorem wanted?_ne_of_differing : one.wanted? ≠ other.wanted? := by
  have hslot := hlegible.slot_eq_of_arguments hone hother hposition
  have hstored : one.stored = other.stored :=
    hlegible.stored_eq_of_index (Declaration.mem_sites.mpr (.inr hone)) (Declaration.mem_sites.mpr (.inr hother))
      (congrArg Slot.kind hslot) (congrArg Slot.index hslot)
  exact fun hwanted => hdiffers ((StringSite.wanted?_eq_iff hstored).mp hwanted)

theorem relinked_of_differing {out : List UInt8} (hout : file.toBytes = .ok out) :
    ∃ relinking, file.Relinked relinking ∧ out = file.assemble relinking := by
  cases hmodified : one.isModified with
  | true => exact hlegible.relinked_of_toBytes hout (Declaration.mem_sites.mpr (.inr hone)) hmodified
  | false =>
    refine hlegible.relinked_of_toBytes hout (Declaration.mem_sites.mpr (.inr hother)) ?_
    by_contra hunmodified
    refine hlegible.wanted?_ne_of_differing hone hother hposition hdiffers ?_
    rw [StringSite.wanted?, StringSite.wanted?, hmodified, if_neg hunmodified]
    rfl

/-- Two sites at one slot cannot both be given constants of their own, unless they want the same. -/
theorem primary_of_differing (hrelinked : file.Relinked relinking)
    (hredirected : one.wanted? ≠ primaryOf file.stringReferences one.slot.index) :
    other.wanted? = primaryOf file.stringReferences other.slot.index := by
  by_contra hredirectedOther
  refine hdiffers ?_
  rw [← hlegible.text_of_redirected_argument hrelinked hone hredirected,
    ← hlegible.text_of_redirected_argument hrelinked hother hredirectedOther,
    hlegible.slot_eq_of_arguments hone hother hposition]

/-- Of two sites at one slot one is given a constant of its own, and its text is what stands there. -/
theorem text_of_differing (hrelinked : file.Relinked relinking) :
    one.wanted? = primaryOf file.stringReferences one.slot.index
        ∧ other.wanted? ≠ primaryOf file.stringReferences other.slot.index
        ∧ (relinking.relocation hrelinked.extended).text one.slot = other.text
      ∨ other.wanted? = primaryOf file.stringReferences other.slot.index
        ∧ one.wanted? ≠ primaryOf file.stringReferences one.slot.index
        ∧ (relinking.relocation hrelinked.extended).text other.slot = one.text := by
  have hslot := hlegible.slot_eq_of_arguments hone hother hposition
  by_cases hredirected : one.wanted? = primaryOf file.stringReferences one.slot.index
  · have hredirectedOther : other.wanted? ≠ primaryOf file.stringReferences other.slot.index := by
      rw [← hslot, ← hredirected]
      exact (hlegible.wanted?_ne_of_differing hone hother hposition hdiffers).symm
    refine .inl ⟨hredirected, hredirectedOther, ?_⟩
    rw [hslot]
    exact hlegible.text_of_redirected_argument hrelinked hother hredirectedOther
  · have htaken := hlegible.primary_of_differing hone hother hposition hdiffers hrelinked hredirected
    refine .inr ⟨htaken, hredirected, ?_⟩
    rw [← hslot]
    exact hlegible.text_of_redirected_argument hrelinked hone hredirected

end

end Legible

/-- Two arguments at one position that want different texts lead to an error if neither wants what their constant takes. If one does, bytes may be written, and both are read with the text of the other one. -/
theorem toBytes_of_differing_arguments (hfile : ofBytes bytes = .ok file)
    (hedited : edited.map StringSite.reverted = file.declaration)
    (hone : one ∈ edited.callArguments) (hother : other ∈ edited.callArguments)
    (hposition : one.slot.position = other.slot.position) (hdiffers : one.text ≠ other.text) :
    let changed : ClassFile := { file with declaration := edited }
    let taken := primaryOf changed.stringReferences
    (one.wanted? ≠ taken one.slot.index → other.wanted? ≠ taken other.slot.index →
        ∃ error, changed.toBytes = .error error)
      ∧ (∀ out, changed.toBytes = .ok out → ∃ (file' : ClassFile) (texts : Slot → String), ofBytes out = .ok file'
        ∧ file'.declaration.map (·.text) = edited.map (fun site => texts site.slot)
        ∧ (one.wanted? = taken one.slot.index ∧ other.wanted? ≠ taken other.slot.index
            ∧ texts one.slot = other.text
          ∨ other.wanted? = taken other.slot.index ∧ one.wanted? ≠ taken one.slot.index
            ∧ texts other.slot = one.text))
      ∧ ∀ position, changed.toBytes = .error (.conflictingSlot position) →
        ∃ first ∈ edited.callArguments, ∃ second ∈ edited.callArguments,
          first.slot.position = position ∧ second.slot.position = position ∧ first.text ≠ second.text
            ∧ first.wanted? ≠ taken first.slot.index ∧ second.wanted? ≠ taken second.slot.index := by
  intro changed taken
  obtain ⟨-, methods, held, hlegible⟩ := exists_legible hfile hedited
  refine ⟨fun hredirected hredirectedOther => ?_, fun out hout => ?_, fun _ => hlegible.differing_of_conflict⟩
  · cases hrun : changed.toBytes with
    | error error => exact ⟨error, rfl⟩
    | ok out =>
      obtain ⟨relinking, hrelinked, -⟩ := hlegible.relinked_of_differing hone hother hposition hdiffers hrun
      have htaken := hlegible.primary_of_differing hone hother hposition hdiffers hrelinked hredirected
      exact absurd htaken hredirectedOther
  · obtain ⟨relinking, hrelinked, rfl⟩ := hlegible.relinked_of_differing hone hother hposition hdiffers hout
    obtain ⟨file', hread, hdeclaration⟩ := hlegible.ofBytes_assemble hrelinked
    refine ⟨file', (relinking.relocation hrelinked.extended).text, hread, ?_, ?_⟩
    · rw [hdeclaration, Declaration.map_map]
      rfl
    · exact hlegible.text_of_differing hone hother hposition hdiffers hrelinked

/-- The first of two calls through one bootstrap method is given a text, and afterwards both have it. -/
theorem toBytes_of_differing_arguments_sharedClass : ∃ file edited out file',
    ofBytes sharedClass = .ok file ∧ file.declaration.setArgument? 0 1 0 "y" = some edited
      ∧ edited.callArguments.map (·.text) = ["y", "x"]
      ∧ ({ file with declaration := edited } : ClassFile).toBytes = .ok out
      ∧ ofBytes out = .ok file' ∧ file'.declaration.callArguments.map (·.text) = ["y", "y"] := by
  let slot : Slot := ⟨.wideString, 129, 3⟩
  have hrun : ((ofBytes sharedClass).bind fun file => (file.declaration.setArgument? 0 1 0 "y").elim
      (.error .poolOverflow) fun edited =>
        (({ file with declaration := edited } : ClassFile).toBytes).map fun _ => (edited.callArguments,
          primaryOf ({ file with declaration := edited } : ClassFile).stringReferences 3))
      = .ok ([⟨"x", "y", slot⟩, ⟨"x", "x", slot⟩], none) := by
    decide +kernel
  obtain ⟨file, hfile, hrun⟩ := except_bind_eq_ok.mp hrun
  cases hargument : file.declaration.setArgument? 0 1 0 "y" with
  | none =>
    rw [hargument] at hrun
    cases hrun
  | some edited =>
    rw [hargument] at hrun
    obtain ⟨out, hout, hfound⟩ := except_map_eq_ok.mp hrun
    obtain ⟨harguments, hprimary⟩ := Prod.mk.injEq .. ▸ hfound
    have hedited : edited.map StringSite.reverted = file.declaration := by
      rw [Declaration.setArgument?_reverted hargument, map_reverted hfile]
    have hone : (⟨"x", "y", slot⟩ : StringSite) ∈ edited.callArguments := by
      rw [harguments]
      exact List.mem_cons_self
    have hother : (⟨"x", "x", slot⟩ : StringSite) ∈ edited.callArguments := by
      rw [harguments]
      exact List.mem_cons_of_mem _ List.mem_cons_self
    obtain ⟨-, hwritten, -⟩ :=
      toBytes_of_differing_arguments hfile hedited hone hother rfl (by decide : "y" ≠ "x")
    obtain ⟨file', texts, hread, htexts, ⟨htaken, -⟩ | ⟨-, -, hlost⟩⟩ := hwritten out hout
    · rw [hprimary] at htaken
      cases htaken
    · refine ⟨file, edited, out, file', hfile, hargument, by rw [harguments]; rfl, hout, hread, ?_⟩
      have hcalls := congrArg Declaration.callArguments htexts
      rw [Declaration.callArguments_map, Declaration.callArguments_map, harguments] at hcalls
      rw [hcalls]
      simp only [List.map_cons, List.map_nil, hlost]

end ClassFile

end Retoken
