import Retoken.Proofs.Declaration.Itinerary
import Retoken.Proofs.Unchanged

/-!
# What is visited and what is written

Two walks go through a declaration. Writing finds all its sites with a fold, and a visitor is called at the open ones by a traversal. They keep one order: a visitor is called for what a fold finds when the strings are taken from the dynamic calls that build no string. So whatever replacing tokens has changed is among the references that writing settles, and no other reference there wants a text.
-/

namespace Retoken

variable {σ : Type}

/-- The instruction without the strings that it passes on, if it is a dynamic call that does not build a string. -/
def Instruction.withoutClosed : Instruction σ → Instruction σ
  | invokeDynamic offset name descriptor bootstrap arguments =>
    invokeDynamic offset name descriptor bootstrap
      (if bootstrap.owner = "java/lang/invoke/StringConcatFactory" ∧ bootstrap.name = "makeConcatWithConstants"
        then arguments
        else arguments.filter (·.site?.isNone))
  | load offset opcode constant => load offset opcode constant
  | other offset opcode => other offset opcode

def Method.withoutClosed (method : Method σ) : Method σ :=
  { method with instructions := method.instructions.map (·.withoutClosed) }

def Declaration.withoutClosed (declaration : Declaration σ) : Declaration σ :=
  { declaration with methods := declaration.methods.map (·.withoutClosed) }

theorem map_snd_place {α : Type} (place : α) (sites : List σ) : (sites.map (place, ·)).map Prod.snd = sites := by
  rw [List.map_map]
  exact List.map_id _

/-- Containers that are numbered are gone through as without numbers. -/
theorem map_snd_flatten_mapIdx {α β : Type} (place : Nat → β) (contents : α → List σ) (items : List α) :
    ((items.mapIdx fun i item => (contents item).map (place i, ·)).flatten).map Prod.snd = items.flatMap contents := by
  rw [List.map_flatten, map_mapIdx]
  simp only [map_snd_place]
  rw [mapIdx_eq_map, List.flatMap_def]

theorem Loadable.sites_of_site?_eq_none {constant : Loadable σ} (hnone : constant.site?.isNone = true) :
    constant.sites = [] := by
  cases constant with
  | string site => cases hnone
  | _ => rfl

theorem Instruction.map_snd_itinerary (label : MethodLabel) (instruction : Instruction σ) :
    (instruction.itinerary label).map Prod.snd = instruction.withoutClosed.sites := by
  cases instruction with
  | load offset opcode constant => exact map_snd_place _ _
  | invokeDynamic offset name descriptor bootstrap arguments =>
    rw [itinerary, withoutClosed, sites]
    split
    case isTrue => exact map_snd_flatten_mapIdx _ _ _
    case isFalse =>
      refine (List.flatMap_eq_nil_iff.mpr fun constant hconstant => ?_).symm
      exact Loadable.sites_of_site?_eq_none (List.mem_filter.mp hconstant).2
  | other => rfl

theorem Method.map_snd_itinerary (method : Method σ) : method.itinerary.map Prod.snd = method.withoutClosed.sites := by
  have hparameters : ∀ (label : MethodLabel) (parameters : List (List (AnnotationUse σ))),
      (parameterItinerary label parameters).map Prod.snd = parameters.flatMap (·.flatMap (·.sites)) :=
    fun label parameters => map_snd_flatten_mapIdx _ _ _
  have hdefault : method.annotationDefault?.elim [] (·.sites) = (method.annotationDefault?.map (·.sites)).getD [] := by
    cases method.annotationDefault? <;> rfl
  simp only [itinerary, withoutClosed, sites, annotationSites, Annotations.sites, List.map_append, List.map_flatMap,
    Instruction.map_snd_itinerary, map_snd_place, hparameters, hdefault, List.flatMap_map, List.append_assoc]

theorem Field.map_snd_itinerary (field : Field σ) : field.itinerary.map Prod.snd = field.sites := by
  have hconstant : field.constant?.elim [] (·.sites) = (field.constant?.map (·.sites)).getD [] := by
    cases field.constant? <;> rfl
  simp only [itinerary, sites, Annotations.sites, List.map_append, map_snd_place, hconstant]

namespace Declaration

theorem map_snd_itinerary (declaration : Declaration σ) :
    declaration.itinerary.map Prod.snd = declaration.withoutClosed.sites := by
  simp only [sites_eq, itinerary, withoutClosed, Annotations.sites, List.map_append, List.map_flatMap, map_snd_place,
    Method.map_snd_itinerary, Field.map_snd_itinerary, List.flatMap_map, List.append_assoc]

section Visitors

variable {m : Type → Type} [Monad m] (visitor : Place → StringSite → m (String × Bool))

def recording (place : Place) (site : StringSite) : StateT (List StringSite) m (String × Bool) := do
  modify (· ++ [site])
  visitor place site

variable [LawfulMonad m]

theorem run_recording (stops : List (Place × StringSite)) (seen : List StringSite) :
    (stops.mapM fun stop => recording visitor stop.1 stop.2).run seen = (do
      let answers ← stops.mapM fun stop => visitor stop.1 stop.2
      return (answers, seen ++ stops.map Prod.snd)) := by
  induction stops generalizing seen with
  | nil => simp
  | cons stop stops ih =>
    have hfirst : (recording visitor stop.1 stop.2).run seen = (do
        let answer ← visitor stop.1 stop.2
        return (answer, seen ++ [stop.2])) := by
      simp [recording]
    rw [List.mapM_cons, List.mapM_cons, StateT.run_bind, hfirst]
    simp only [bind_assoc, pure_bind, StateT.run_bind, ih, StateT.run_pure, List.map_cons, List.append_assoc,
      List.singleton_append]

theorem run_visit_recording (declaration : Declaration StringSite) (seen : List StringSite) :
    (declaration.visit (recording visitor)).run seen = (do
      let result ← declaration.visit visitor
      return (result, seen ++ declaration.withoutClosed.sites)) := by
  rw [visit_eq_refill, visit_eq_refill, StateT.run_bind, run_recording, map_snd_itinerary]
  simp

end Visitors

variable {tokens : TokenTable}

def substituted (tokens : TokenTable) (site : StringSite) : StringSite :=
  { site with text := (tokens.substitute site.text).1 }

theorem located_mapOpen {τ : Type} (f : Bool → σ → τ) (declaration : Declaration σ) :
    (declaration.mapOpen f).located = declaration.located.map fun marked => (marked.1, f marked.1.isSome marked.2) := by
  rw [← located_map_isSome, located_map_located]

/-- Replacing tokens replaces them at the sites a visitor is called for. -/
theorem sites_withoutClosed_retokened (tokens : TokenTable) (declaration : Declaration StringSite) :
    (declaration.mapOpen (retokened tokens)).withoutClosed.sites
      = declaration.withoutClosed.sites.map (substituted tokens) := by
  rw [← map_snd_itinerary, ← map_snd_itinerary, ← filterMap_stop?, ← filterMap_stop?, located_mapOpen, sites_map,
    List.filterMap_map, List.map_filterMap, List.map_map, List.map_filterMap]
  refine congrArg (List.filterMap · _) (funext fun marked => ?_)
  obtain ⟨place?, site⟩ := marked
  cases place? <;> rfl

/-- A site that is not visited keeps its text, so among fresh sites only visited ones come to want another. -/
theorem filter_isModified_retokened {marked : List (Option Place × StringSite)}
    (hfresh : ∀ stop ∈ marked, stop.2.isModified = false) :
    (marked.map fun stop => retokened tokens stop.1.isSome stop.2).filter (·.isModified)
      = (((marked.filterMap stop?).map Prod.snd).map (substituted tokens)).filter (·.isModified) := by
  induction marked with
  | nil => rfl
  | cons stop marked ih =>
    obtain ⟨place?, site⟩ := stop
    obtain ⟨hsite, hlater⟩ := List.forall_mem_cons.mp hfresh
    cases place? with
    | none =>
      have hkept : ¬ (retokened tokens false site).isModified = true := ne_true_of_eq_false hsite
      exact (List.filter_cons_of_neg hkept).trans (ih hlater)
    | some place =>
      have hstop : ((some place, site) :: marked).filterMap stop? = (place, site) :: marked.filterMap stop? := rfl
      rw [hstop, List.map_cons, List.map_cons, List.map_cons, List.filter_cons, List.filter_cons, ih hlater]
      rfl

end Declaration

namespace ClassFile

open Declaration

variable {bytes : List UInt8} {file : ClassFile}

theorem isSome_wanted? (site : StringSite) : site.wanted?.isSome = site.isModified := by
  rw [StringSite.wanted?]
  cases site.isModified <;> rfl

theorem map_ofSite_wanting (sites : List StringSite) (kept : StringSite → Bool) :
    ((sites.filter kept).map Reference.ofSite).filter (·.wanted?.isSome)
      = ((sites.filter (·.isModified)).filter kept).map Reference.ofSite := by
  have hwanting : (fun reference : Reference => reference.wanted?.isSome) ∘ Reference.ofSite = StringSite.isModified :=
    funext isSome_wanted?
  rw [List.filter_map, hwanting, List.filter_filter, List.filter_filter]
  simp only [Bool.and_comm]

theorem stringReferences_wanting (file : ClassFile) : file.stringReferences.filter (·.wanted?.isSome)
    = ((file.declaration.sites.filter (·.isModified)).filter (·.slot.kind.namesString)).map Reference.ofSite := by
  rw [stringReferences, List.filter_append, map_ofSite_wanting]
  refine (congrArg _ (List.filter_eq_nil_iff.mpr fun reference hreference => ?_)).trans (List.append_nil _)
  obtain ⟨slot, -, rfl⟩ := List.mem_map.mp hreference
  exact Bool.false_ne_true

theorem textReferences_wanting (file : ClassFile) : file.textReferences.filter (·.wanted?.isSome)
    = ((file.declaration.sites.filter (·.isModified)).filter (!·.slot.kind.namesString)).map Reference.ofSite :=
  map_ofSite_wanting _ _

/-- The sites of a class that was read and had its tokens replaced that want another text are visited ones. -/
theorem filter_isModified_replaceTokens (hfile : ofBytes bytes = .ok file) (tokens : TokenTable) :
    (file.replaceTokens tokens).1.declaration.sites.filter (·.isModified)
      = (file.declaration.withoutClosed.sites.map (substituted tokens)).filter (·.isModified) := by
  have hfresh : ∀ stop ∈ file.declaration.located.sites, stop.2.isModified = false := by
    intro stop hstop
    have hsite : stop.2 ∈ file.declaration.sites := by
      rw [← located_map_snd file.declaration, sites_map]
      exact List.mem_map_of_mem hstop
    have hstored : stop.2.stored = stop.2.text := congrArg StringSite.text (reverted_of_mem hfile hsite)
    rw [StringSite.isModified, hstored, bne_self_eq_false]
  rw [declaration_replaceTokens, ← map_snd_itinerary, ← filterMap_stop?, ← located_map_isSome, sites_map]
  exact filter_isModified_retokened hfresh

/-- Visitors and writing see the same sites in the same order, but for the closed ones. After tokens were replaced in a class that was read, the references that want a text are those of the visited sites whose text is another one. -/
theorem visited_sites :
    (∀ declaration : Declaration StringSite,
      (∀ {β : Type} (f : β → StringSite → β) init, declaration.foldl f init = declaration.sites.foldl f init)
      ∧ (∀ (m : Type → Type) [Monad m] [LawfulMonad m] (visitor : Place → StringSite → m (String × Bool)) seen,
        (declaration.visit (recording visitor)).run seen = (do
          let result ← declaration.visit visitor
          return (result, seen ++ declaration.withoutClosed.sites)))
      ∧ declaration.records.map (·.text) = declaration.withoutClosed.sites.map (·.text)
      ∧ ∀ tokens, (declaration.replaceTokens tokens).1.withoutClosed.sites
          = declaration.withoutClosed.sites.map fun site => { site with text := (tokens.substitute site.text).1 })
    ∧ ∀ bytes file, ofBytes bytes = .ok file → ∀ tokens,
      let replaced := (file.replaceTokens tokens).1
      let wanting := (file.declaration.withoutClosed.sites.map fun site =>
        { site with text := (tokens.substitute site.text).1 }).filter (·.isModified)
      ((file.replaceTokens tokens).2.changed = false → replaced.declaration.isModified = false)
      ∧ replaced.declaration.sites.filter (·.isModified) = wanting
      ∧ replaced.stringReferences.filter (·.wanted?.isSome) = (wanting.filter (·.slot.kind.namesString)).map .ofSite
      ∧ replaced.textReferences.filter (·.wanted?.isSome)
        = (wanting.filter (!·.slot.kind.namesString)).map .ofSite := by
  refine ⟨fun declaration => ⟨fun f init => declaration.foldl_eq f init,
    fun m _ _ visitor seen => run_visit_recording visitor declaration seen, ?_, fun tokens => ?_⟩,
    fun bytes file hfile tokens => ⟨fun hunchanged => ?_, ?_, ?_, ?_⟩⟩
  · rw [records_eq_itinerary, ← map_snd_itinerary, List.map_map, List.map_map]
    rfl
  · rw [replaceTokens_eq]
    exact sites_withoutClosed_retokened tokens declaration
  · rw [declaration_replaceTokens]
    exact isModified_replaceTokens hfile hunchanged
  · exact filter_isModified_replaceTokens hfile tokens
  · rw [stringReferences_wanting, filter_isModified_replaceTokens hfile]
    rfl
  · rw [textReferences_wanting, filter_isModified_replaceTokens hfile]
    rfl

/-- Of three sites with one text a load is visited, and two arguments of calls are not. -/
theorem visited_sites_sharedClass : ∃ file, ofBytes sharedClass = .ok file
    ∧ file.declaration.sites.map (·.text) = ["x", "x", "x"]
    ∧ file.declaration.withoutClosed.sites.map (·.text) = ["x"]
    ∧ (file.replaceTokens ⟨[("y", "x")]⟩).1.declaration.isModified = false
    ∧ ((file.replaceTokens ⟨[("x", "y")]⟩).1.stringReferences.filter (·.wanted?.isSome)).map (·.wanted?)
      = [some "y"] := by
  let unused : TokenTable := ⟨[("y", "x")]⟩
  let used : TokenTable := ⟨[("x", "y")]⟩
  have hread : (ofBytes sharedClass).map (fun file =>
      (file.declaration.sites.map (·.text), file.declaration.withoutClosed.sites.map (·.text),
        (file.replaceTokens unused).2.changed,
        (((file.declaration.withoutClosed.sites.map fun site => { site with text :=
          (used.substitute site.text).1 }).filter
          (·.isModified)).filter (·.slot.kind.namesString)).map (·.wanted?)))
      = .ok (["x", "x", "x"], ["x"], false, [some "y"]) := by
    decide +kernel
  obtain ⟨file, hfile, hfound⟩ := except_map_eq_ok.mp hread
  simp only [Prod.mk.injEq] at hfound
  obtain ⟨hsites, hvisited, hchanged, hwanting⟩ := hfound
  obtain ⟨hunmodified, -⟩ := visited_sites.2 _ _ hfile unused
  obtain ⟨-, -, hreferences, -⟩ := visited_sites.2 _ _ hfile used
  refine ⟨file, hfile, hsites, hvisited, hunmodified hchanged, ?_⟩
  rw [hreferences, List.map_map]
  exact hwanting

end ClassFile

end Retoken
