import Retoken.Proofs.Declaration.Located
import Retoken.Proofs.Declaration.Visiting
import Retoken.Proofs.RoundTrip
import Retoken.Retokening

/-!
# Replacing tokens in a class file

Visiting a declaration maps its open sites and runs through them in order, so replacing tokens and listing sites are described by where the open sites stand and what they hold. All sites at one bootstrap argument are open or none is, and all open sites with one text are given the same text. So the sites at one slot still agree after tokens were replaced, and the file that is written declares the same, with the tokens replaced at the open sites.
-/

namespace Retoken

namespace Declaration

variable {σ : Type}

def retokened (tokens : TokenTable) (isOpen : Bool) (site : StringSite) : StringSite :=
  if isOpen then { site with text := (tokens.substitute site.text).1 } else site

@[simp] theorem slot_retokened (tokens : TokenTable) (isOpen : Bool) (site : StringSite) :
    (retokened tokens isOpen site).slot = site.slot := by
  cases isOpen <;> rfl

theorem text_retokened_congr {site other : StringSite} (tokens : TokenTable) (isOpen : Bool)
    (htext : site.text = other.text) : (retokened tokens isOpen site).text = (retokened tokens isOpen other).text := by
  cases isOpen with
  | true => exact congrArg (fun text => (tokens.substitute text).1) htext
  | false => exact htext

def recordOf (marked : Option Place × StringSite) : Option SiteRecord :=
  marked.1.map fun place => ⟨place, marked.2.text⟩

def listed (state : Tally × Array SiteRecord) : Option Place × StringSite → Tally × Array SiteRecord
  | (none, _) => state
  | (some place, site) => (state.1.count false, state.2.push ⟨place, site.text⟩)

theorem foldl_listed (marked : List (Option Place × StringSite)) (state : Tally × Array SiteRecord) :
    (marked.foldl listed state).2.toList = state.2.toList ++ marked.filterMap recordOf := by
  induction marked generalizing state with
  | nil => simp
  | cons head marked ih =>
    obtain ⟨place?, site⟩ := head
    rw [List.foldl_cons, ih]
    cases place? with
    | none => rfl
    | some place => simp [listed, recordOf]

theorem records_eq (declaration : Declaration StringSite) :
    declaration.records = declaration.located.sites.filterMap recordOf := by
  let collect (place : Place) (site : StringSite) : StateM (Array SiteRecord) (String × Bool) := do
    modify (·.push ⟨place, site.text⟩)
    return (site.text, false)
  have hsteps : (Machine.ofNested Tally (Array SiteRecord)).Steps (visitSite collect) Prod.snd listed := by
    rintro ⟨place?, site⟩ state
    cases place? <;> rfl
  have hrun := congrArg (·.2.2.toList) (Declaration.run_traverse hsteps declaration.located ({}, #[]))
  refine hrun.trans ?_
  rw [foldl_listed, List.nil_append]

def tallied (tokens : TokenTable) (tally : Tally) (marked : Option Place × StringSite) : Tally :=
  if marked.1.isSome then tally.count (tokens.substitute marked.2.text).2 else tally

theorem foldl_tallied (tokens : TokenTable) (marked : List (Option Place × StringSite)) (tally : Tally) :
    marked.foldl (tallied tokens) tally = ⟨tally.sites + (marked.filterMap recordOf).length,
      tally.replaced + (marked.filterMap recordOf).countP fun record => (tokens.substitute record.text).2⟩ := by
  induction marked generalizing tally with
  | nil => rfl
  | cons head marked ih =>
    obtain ⟨place?, site⟩ := head
    rw [List.foldl_cons, ih]
    cases place? with
    | none => rfl
    | some place =>
      simp only [tallied, recordOf, Tally.count, Option.isSome_some, if_true, List.filterMap_cons, Option.map_some,
        List.length_cons, List.countP_cons]
      congr 1 <;> omega

theorem replaceTokens_eq (tokens : TokenTable) (declaration : Declaration StringSite) :
    declaration.replaceTokens tokens = (declaration.mapOpen (retokened tokens),
      ⟨declaration.records.length, declaration.records.countP fun record => (tokens.substitute record.text).2⟩) := by
  let replace (_ : Place) (site : StringSite) : Id (String × Bool) := pure (tokens.substitute site.text)
  have hsteps : (Machine.ofState Tally).Steps (visitSite replace)
      (fun marked => retokened tokens marked.1.isSome marked.2) (tallied tokens) := by
    rintro ⟨place?, site⟩ tally
    cases place? <;> rfl
  have hrun := Declaration.run_traverse hsteps declaration.located {}
  rw [located_map_isSome, foldl_tallied, ← records_eq, Nat.zero_add, Nat.zero_add] at hrun
  exact hrun

/-- Listing the sites of a declaration needs no more of them than their texts. -/
theorem records_of_map_text {declaration changed : Declaration StringSite} {f : Bool → String → String}
    (htexts : changed.map (·.text) = declaration.mapOpen fun isOpen site => f isOpen site.text) :
    changed.records = declaration.records.map fun record => ⟨record.place, f true record.text⟩ := by
  let ofText (marked : Option Place × String) : Option SiteRecord := marked.1.map fun place => ⟨place, marked.2⟩
  have hlocated : changed.located.map (fun marked => (marked.1, marked.2.text))
      = declaration.located.map fun marked => (marked.1, f marked.1.isSome marked.2.text) := by
    rw [← located_map, htexts, ← located_map_isSome, located_map_located]
  have hlisted := congrArg (fun texts => texts.sites.filterMap ofText) hlocated
  simp only [sites_map, List.filterMap_map] at hlisted
  rw [records_eq, records_eq, List.map_filterMap]
  refine hlisted.trans (congrArg (fun g => declaration.located.sites.filterMap g) (funext fun marked => ?_))
  obtain ⟨place?, site⟩ := marked
  cases place? <;> rfl

end Declaration

namespace ClassFile

open Declaration

variable {file : ClassFile} {bytes out : List UInt8} {tokens : TokenTable} {tally : Tally} {error : ClassError}

theorem retokened_reverted (hfile : ofBytes bytes = .ok file) (tokens : TokenTable) :
    (file.declaration.mapOpen (retokened tokens)).map StringSite.reverted = file.declaration := by
  have hreverted : ∀ (isOpen : Bool) (site : StringSite), (retokened tokens isOpen site).reverted = site.reverted := by
    intro isOpen site
    cases isOpen <;> rfl
  rw [mapOpen_map]
  simp only [hreverted]
  rw [mapOpen_const, map_reverted hfile]

theorem text_eq_of_index {site other : StringSite} (hfile : ofBytes bytes = .ok file)
    (hsite : site ∈ file.declaration.sites) (hother : other ∈ file.declaration.sites)
    (hkind : site.slot.kind = other.slot.kind) (hindex : site.slot.index = other.slot.index) :
    site.text = other.text := by
  obtain ⟨-, methods, held, hlegible⟩ := exists_legible hfile (map_reverted hfile)
  rw [← reverted_of_mem hfile hsite, ← reverted_of_mem hfile hother]
  exact hlegible.stored_eq_of_index hsite hother hkind hindex

/-- The sites at one bootstrap argument still agree after tokens were replaced. -/
theorem retokened_agree (hfile : ofBytes bytes = .ok file) (tokens : TokenTable) :
    ∀ one ∈ (file.declaration.mapOpen (retokened tokens)).callArguments,
      ∀ other ∈ (file.declaration.mapOpen (retokened tokens)).callArguments,
        one.slot.position = other.slot.position → one.text = other.text := by
  intro one hone other hother hposition
  obtain ⟨-, methods, held, hlegible⟩ := exists_legible hfile (map_reverted hfile)
  obtain ⟨call, hcall, hone⟩ := mem_callArguments.mp hone
  obtain ⟨call', hcall', hother⟩ := mem_callArguments.mp hother
  rw [calls_mapOpen] at hcall hcall'
  obtain ⟨⟨handle, sites⟩, hmem, rfl⟩ := List.mem_map.mp hcall
  obtain ⟨⟨handle', sites'⟩, hmem', rfl⟩ := List.mem_map.mp hcall'
  obtain ⟨site, hsite, rfl⟩ := List.mem_map.mp hone
  obtain ⟨site', hsite', rfl⟩ := List.mem_map.mp hother
  rw [slot_retokened, slot_retokened] at hposition
  obtain rfl : handle = handle' := hlegible.handle_eq_of_position hmem hmem' hsite hsite' hposition
  refine text_retokened_congr tokens _ ?_
  have hread := mem_sites_of_mem_call hmem hsite
  have hread' := mem_sites_of_mem_call hmem' hsite'
  have hslot := hlegible.slot_eq_of_position hread hread' hposition
  exact text_eq_of_index hfile hread hread' (congrArg Slot.kind hslot) (congrArg Slot.index hslot)

/-- A file that can be read is retokened by writing it, if that changes anything. -/
theorem retoken_of_ofBytes (hfile : ofBytes bytes = .ok file) (tokens : TokenTable) :
    retoken tokens bytes = if (file.replaceTokens tokens).2.changed then
      (file.replaceTokens tokens).1.toBytes.map fun out => ⟨(file.replaceTokens tokens).2, some out⟩
    else .ok ⟨(file.replaceTokens tokens).2, none⟩ := by
  have hrun : retoken tokens bytes = (ofBytes bytes).bind fun file =>
      if (file.replaceTokens tokens).2.changed then
        (file.replaceTokens tokens).1.toBytes.bind fun out => .ok ⟨(file.replaceTokens tokens).2, some out⟩
      else .ok ⟨(file.replaceTokens tokens).2, none⟩ := rfl
  rw [hrun, hfile]
  refine if_congr Iff.rfl ?_ rfl
  cases (file.replaceTokens tokens).1.toBytes <;> rfl

/-- The file that is written can be read, and has the texts of the open sites replaced. -/
theorem texts_of_retoken (hretoken : retoken tokens bytes = .ok ⟨tally, some out⟩) :
    ∃ file file', ofBytes bytes = .ok file ∧ ofBytes out = .ok file' ∧ tally = (file.replaceTokens tokens).2
      ∧ file'.declaration.map (·.text) = file.declaration.mapOpen fun isOpen site =>
        if isOpen then (tokens.substitute site.text).1 else site.text := by
  obtain ⟨file, hfile, -⟩ := except_bind_eq_ok.mp hretoken
  rw [retoken_of_ofBytes hfile] at hretoken
  split at hretoken
  case isFalse => cases hretoken
  case isTrue =>
    obtain ⟨written, hout, hresult⟩ := except_map_eq_ok.mp hretoken
    cases hresult
    rw [ClassFile.replaceTokens, replaceTokens_eq] at hout
    obtain ⟨file', hread, htexts⟩ :=
      texts_of_toBytes hfile (retokened_reverted hfile tokens) (retokened_agree hfile tokens) hout
    refine ⟨file, file', hfile, hread, rfl, ?_⟩
    rw [htexts, mapOpen_map]
    congr 1
    funext isOpen site
    cases isOpen <;> rfl

theorem records_of_texts {file' : ClassFile}
    (htexts : file'.declaration.map (·.text) = file.declaration.mapOpen fun isOpen site =>
      if isOpen then (tokens.substitute site.text).1 else site.text) :
    file'.declaration.records
      = file.declaration.records.map fun record => ⟨record.place, (tokens.substitute record.text).1⟩ :=
  records_of_map_text (f := fun isOpen text => if isOpen then (tokens.substitute text).1 else text) htexts

/-- The file that is written is read as the original one, with the tokens replaced at the open sites and nowhere else. -/
theorem retoken_eq_ok (hretoken : retoken tokens bytes = .ok ⟨tally, some out⟩) :
    ∃ file file', ofBytes bytes = .ok file ∧ ofBytes out = .ok file'
      ∧ file'.declaration.map (·.text) = file.declaration.mapOpen (fun isOpen site =>
        if isOpen then (tokens.substitute site.text).1 else site.text)
      ∧ file'.declaration.map (fun _ => ()) = file.declaration.map (fun _ => ())
      ∧ file'.declaration.calls.map (fun call => (call.1, call.2.map (·.text)))
        = file.declaration.calls.map (fun call => (call.1, call.2.map fun site =>
          if call.1.isStringConcat then (tokens.substitute site.text).1 else site.text))
      ∧ file'.declaration.records
        = file.declaration.records.map (fun record => ⟨record.place, (tokens.substitute record.text).1⟩)
      ∧ tally.sites = file'.declaration.records.length
      ∧ tally.replaced = file.declaration.records.countP fun record => (tokens.substitute record.text).2 := by
  obtain ⟨file, file', hfile, hread, rfl, htexts⟩ := texts_of_retoken hretoken
  have hrecords := records_of_texts htexts
  refine ⟨file, file', hfile, hread, htexts, ?_, ?_, hrecords, ?_, ?_⟩
  · have hshape := congrArg (Declaration.map fun _ => ()) htexts
    rw [mapOpen_map, mapOpen_const, map_map] at hshape
    exact hshape
  · rw [← calls_map, htexts, calls_mapOpen]
  · rw [hrecords, List.length_map, ClassFile.replaceTokens, replaceTokens_eq]
  · rw [ClassFile.replaceTokens, replaceTokens_eq]

/-- A load is given another text, and the calls that shared its constant keep theirs. -/
theorem retoken_eq_ok_sharedClass : ∃ out file',
    retoken ⟨[("x", "y")]⟩ sharedClass = .ok ⟨⟨1, 1⟩, some out⟩ ∧ ofBytes out = .ok file'
      ∧ file'.declaration.records = [⟨.load ⟨"A", "A"⟩ 0, "y"⟩]
      ∧ file'.declaration.calls.map (fun call => call.2.map (·.text)) = [["x"], ["x"]] := by
  let tokens : TokenTable := ⟨[("x", "y")]⟩
  have hrun : (retoken tokens sharedClass).map (fun retokened => (retokened.tally, retokened.bytes?.isSome))
      = .ok (⟨1, 1⟩, true) := by
    decide +kernel
  have hexpected : (ofBytes sharedClass).map (fun file =>
      (file.declaration.records.map fun record => (⟨record.place, (tokens.substitute record.text).1⟩ : SiteRecord),
        file.declaration.calls.map fun call => call.2.map fun site =>
          if call.1.isStringConcat then (tokens.substitute site.text).1 else site.text))
      = .ok ([⟨.load ⟨"A", "A"⟩ 0, "y"⟩], [["x"], ["x"]]) := by
    decide +kernel
  obtain ⟨⟨tally, bytes?⟩, hretoken, hresult⟩ := except_map_eq_ok.mp hrun
  cases bytes? with
  | none => cases hresult
  | some out =>
    obtain rfl : tally = ⟨1, 1⟩ := congrArg Prod.fst hresult
    obtain ⟨file, file', hfile, hread, -, -, hcalls, hrecords, -⟩ := retoken_eq_ok hretoken
    rw [hfile] at hexpected
    have hfound := Prod.mk.inj (Except.ok.inj hexpected)
    have htexts := congrArg (List.map Prod.snd) hcalls
    rw [List.map_map, List.map_map] at htexts
    exact ⟨out, file', hretoken, hread, hrecords.trans hfound.1, htexts.trans hfound.2⟩

end ClassFile

end Retoken
