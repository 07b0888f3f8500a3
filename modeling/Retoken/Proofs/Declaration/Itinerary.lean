import Retoken.Proofs.Declaration.Refilling
import Retoken.Proofs.Retokening

/-!
# The itinerary of a visitor

The itinerary of a declaration lists its open sites, each with the place where it stands, as they would be found by reading the declaration from top to bottom. A visit is a walk along the itinerary: in any monad, so whatever state the visitor keeps, it is called once for each entry, in order, and its answers are written at the sites it was called for and nowhere else.
-/

namespace Retoken

variable {σ τ : Type}

/-! ### Itineraries -/

def Instruction.itinerary (label : MethodLabel) : Instruction σ → List (Place × σ)
  | load offset _ constant => constant.sites.map (.load label offset, ·)
  | invokeDynamic offset _ _ bootstrap arguments =>
    if bootstrap.owner = "java/lang/invoke/StringConcatFactory" ∧ bootstrap.name = "makeConcatWithConstants" then
      (arguments.mapIdx fun i argument => argument.sites.map (.concatArgument label offset i, ·)).flatten
    else []
  | other .. => []

def parameterItinerary (label : MethodLabel) (parameters : List (List (AnnotationUse σ))) : List (Place × σ) :=
  (parameters.mapIdx fun i uses => (uses.flatMap (·.sites)).map (.onParameter label i, ·)).flatten

def Method.itinerary (method : Method σ) : List (Place × σ) :=
  let label : MethodLabel := ⟨method.name, method.descriptor⟩
  method.instructions.flatMap (·.itinerary label)
    ++ ((method.annotations.visible.flatMap (·.sites)).map (.onMethod label, ·)
      ++ ((method.annotations.invisible.flatMap (·.sites)).map (.onMethod label, ·)
        ++ (parameterItinerary label method.visibleOnParameters
          ++ (parameterItinerary label method.invisibleOnParameters
            ++ (method.annotationDefault?.elim [] (·.sites)).map (.annotationDefault label, ·)))))

def Field.itinerary (field : Field σ) : List (Place × σ) :=
  (field.constant?.elim [] (·.sites)).map (.fieldConstant field.name, ·)
    ++ ((field.annotations.visible.flatMap (·.sites)).map (.onField field.name, ·)
      ++ (field.annotations.invisible.flatMap (·.sites)).map (.onField field.name, ·))

def Declaration.itinerary (declaration : Declaration σ) : List (Place × σ) :=
  (declaration.annotations.visible.flatMap (·.sites)).map (.onClass, ·)
    ++ ((declaration.annotations.invisible.flatMap (·.sites)).map (.onClass, ·)
      ++ (declaration.methods.flatMap (·.itinerary) ++ declaration.fields.flatMap (·.itinerary)))

/-! ### Marked sites along the itinerary -/

/-- A marked site as an entry of the itinerary, if it is open. -/
def stop? (marked : Option Place × σ) : Option (Place × σ) :=
  marked.1.map (·, marked.2)

theorem filterMap_stop?_some (place : Place) (sites : List σ) :
    (sites.map (some place, ·)).filterMap stop? = sites.map (place, ·) := by
  rw [List.filterMap_map]
  exact congrFun (List.filterMap_eq_map (f := fun site => (place, site))) sites

theorem filterMap_stop?_none (sites : List σ) :
    (sites.map ((none : Option Place), ·)).filterMap stop? = [] := by
  rw [List.filterMap_map]
  exact List.filterMap_eq_nil_iff.mpr fun _ _ => rfl

theorem filterMap_flatMap_mapIdx {α γ δ : Type} (mark : Nat → α → γ) (contents : γ → List σ) (f : σ → Option δ)
    (items : List α) : ((items.mapIdx mark).flatMap contents).filterMap f
      = (items.mapIdx fun i item => (contents (mark i item)).filterMap f).flatten := by
  rw [List.flatMap_def, List.filterMap_flatten, List.map_map, map_mapIdx]
  rfl

theorem filterMap_flatMap_map {α γ δ : Type} (mark : α → γ) (contents : γ → List σ) (f : σ → Option δ)
    (items : List α) : ((items.map mark).flatMap contents).filterMap f
      = items.flatMap fun item => (contents (mark item)).filterMap f := by
  rw [List.flatMap_def, List.filterMap_flatten, List.map_map, List.map_map, List.flatMap_def]
  rfl

theorem AnnotationUse.filterMap_stop? (place : Place) (uses : List (AnnotationUse σ)) :
    ((uses.map (·.map (some place, ·))).flatMap (·.sites)).filterMap stop?
      = (uses.flatMap (·.sites)).map (place, ·) := by
  rw [flatMap_map_contents (some place, ·) fun use => AnnotationUse.sites_map _ use, filterMap_stop?_some]

theorem Annotations.filterMap_stop? (place : Place) (annotations : Annotations σ) :
    (annotations.map (some place, ·)).sites.filterMap stop?
      = (annotations.visible.flatMap (·.sites)).map (place, ·)
        ++ (annotations.invisible.flatMap (·.sites)).map (place, ·) := by
  rw [sites_map, filterMap_stop?_some, sites, List.map_append]

theorem Instruction.filterMap_stop? (label : MethodLabel) (instruction : Instruction σ) :
    (instruction.located label).sites.filterMap stop? = instruction.itinerary label := by
  cases instruction with
  | load offset opcode constant =>
    rw [located, sites, Loadable.sites_map, filterMap_stop?_some, itinerary]
  | invokeDynamic offset name descriptor bootstrap arguments =>
    have hconcat : bootstrap.isStringConcat = true
        ↔ bootstrap.owner = "java/lang/invoke/StringConcatFactory" ∧ bootstrap.name = "makeConcatWithConstants" := by
      rw [MethodHandle.isStringConcat, Bool.and_eq_true, beq_iff_eq, beq_iff_eq]
    rw [located, sites, filterMap_flatMap_mapIdx, itinerary, ← if_congr hconcat rfl rfl]
    simp only [Loadable.sites_map]
    cases bootstrap.isStringConcat with
    | true => simp only [if_true, filterMap_stop?_some]
    | false =>
      simp only [Bool.false_eq_true, if_false, filterMap_stop?_none]
      exact List.flatten_eq_nil_iff.mpr fun sites hsites => by
        obtain ⟨i, hi, rfl⟩ := List.mem_mapIdx.mp hsites
        rfl
  | other => rfl

theorem Method.filterMap_parameters (label : MethodLabel) (parameters : List (List (AnnotationUse σ))) :
    ((parameters.mapIdx fun i uses => uses.map (·.map (some (.onParameter label i), ·))).flatMap
      (·.flatMap (·.sites))).filterMap stop? = parameterItinerary label parameters := by
  rw [filterMap_flatMap_mapIdx]
  simp only [AnnotationUse.filterMap_stop?]
  rfl

theorem Method.filterMap_stop? (method : Method σ) : method.located.sites.filterMap stop? = method.itinerary := by
  have hdefault : ∀ (label : MethodLabel) (default? : Option (ElementValue σ)),
      ((((default?.map (·.map (some (.annotationDefault label), ·))).map (·.sites)).getD []).filterMap stop?)
        = (default?.elim [] (·.sites)).map (Place.annotationDefault label, ·) := by
    intro label default?
    cases default? with
    | none => rfl
    | some value => exact (congrArg _ (value.sites_map _)).trans (filterMap_stop?_some _ _)
  simp only [sites, annotationSites, located, List.filterMap_append, filterMap_flatMap_map,
    Instruction.filterMap_stop?, Annotations.filterMap_stop?, filterMap_parameters, hdefault, itinerary,
    List.append_assoc]

theorem Field.filterMap_stop? (field : Field σ) : field.located.sites.filterMap stop? = field.itinerary := by
  have hconstant : ∀ (name : String) (constant? : Option (Loadable σ)),
      ((((constant?.map (·.map (some (.fieldConstant name), ·))).map (·.sites)).getD []).filterMap stop?)
        = (constant?.elim [] (·.sites)).map (Place.fieldConstant name, ·) := by
    intro name constant?
    cases constant? with
    | none => rfl
    | some constant => exact (congrArg _ (constant.sites_map _)).trans (filterMap_stop?_some _ _)
  simp only [sites, located, List.filterMap_append, Annotations.filterMap_stop?, hconstant, itinerary]

theorem Declaration.filterMap_stop? (declaration : Declaration σ) :
    declaration.located.sites.filterMap stop? = declaration.itinerary := by
  simp only [sites_eq, located, List.filterMap_append, filterMap_flatMap_map, Annotations.filterMap_stop?,
    Method.filterMap_stop?, Field.filterMap_stop?, itinerary, List.append_assoc]

/-! ### Texts along the itinerary -/

section Texts

variable {marked : List (Option Place × StringSite)}

/-- The sites with texts written at the open ones, in order. Sites after the last text keep theirs. -/
def written : List (Option Place × StringSite) → List String → List StringSite
  | [], _ => []
  | (none, site) :: marked, texts => site :: written marked texts
  | (some _, site) :: marked, [] => site :: written marked []
  | (some _, site) :: marked, text :: texts => { site with text } :: written marked texts

theorem length_written (marked : List (Option Place × StringSite)) (texts : List String) :
    (written marked texts).length = marked.length := by
  fun_induction written marked texts <;> simp [*]

theorem written_own (marked : List (Option Place × StringSite)) :
    written marked ((marked.filterMap stop?).map (·.2.text)) = marked.map Prod.snd := by
  induction marked with
  | nil => rfl
  | cons head marked ih =>
    obtain ⟨place?, site⟩ := head
    cases place? with
    | none => exact congrArg (site :: ·) ih
    | some place => exact congrArg (site :: ·) ih

/-- The open sites afterwards. -/
theorem filterMap_stop?_written : ∀ {marked : List (Option Place × StringSite)} {texts : List String},
    texts.length = (marked.filterMap stop?).length →
      ((marked.map Prod.fst).zip (written marked texts)).filterMap stop?
        = List.zipWith (fun stop text => (stop.1, { stop.2 with text })) (marked.filterMap stop?) texts
  | [], texts, hlength => rfl
  | (none, site) :: marked, texts, hlength => @filterMap_stop?_written marked texts hlength
  | (some place, site) :: marked, [], hlength => by cases hlength
  | (some place, site) :: marked, text :: texts, hlength =>
    congrArg (List.cons (place, ({ site with text } : StringSite)))
      (@filterMap_stop?_written marked texts (Nat.succ.inj hlength))

def withoutText (isOpen : Bool) (site : StringSite) : StringSite :=
  if isOpen then { site with text := "" } else site

theorem map_withoutText_written (marked : List (Option Place × StringSite)) (texts : List String) :
    ((marked.map Prod.fst).zip (written marked texts)).map (fun stop => withoutText stop.1.isSome stop.2)
      = marked.map fun stop => withoutText stop.1.isSome stop.2 := by
  fun_induction written marked texts with
  | case1 => rfl
  | case2 site marked texts ih => exact congrArg (withoutText false site :: ·) ih
  | case3 place site marked ih => exact congrArg (withoutText true site :: ·) ih
  | case4 place site marked text texts ih => exact congrArg (withoutText true site :: ·) ih

end Texts

/-! ### Visits along the itinerary -/

namespace Declaration

def dictate : Option Place × StringSite → StateM (List String) StringSite
  | (none, site) => return site
  | (some _, site) => modifyGet fun
    | [] => (site, [])
    | text :: texts => ({ site with text }, texts)

def refill (texts : List String) (declaration : Declaration StringSite) : Declaration StringSite :=
  (declaration.located.traverse dictate texts).1

theorem run_dictate (marked : List (Option Place × StringSite)) (texts : List String) :
    (marked.mapM dictate texts).1 = written marked texts := by
  induction marked generalizing texts with
  | nil => rfl
  | cons head marked ih =>
    obtain ⟨place?, site⟩ := head
    cases place? with
    | none => 
      rw [List.mapM_cons, written, ← ih]
      rfl
    | some place =>
      cases texts with
      | nil => 
        rw [List.mapM_cons, written, ← ih]
        rfl
      | cons text texts =>
        rw [List.mapM_cons, written, ← ih]
        rfl

section Visits

variable {m : Type → Type} [Monad m] [LawfulMonad m] (visitor : Place → StringSite → m (String × Bool))

/-- The sites are written as the visitor answers, and each answer is counted. -/
theorem run_visitSite (marked : List (Option Place × StringSite)) (tally : Tally) :
    (marked.mapM (visitSite visitor)).run tally = (do
      let answers ← (marked.filterMap stop?).mapM fun stop => visitor stop.1 stop.2
      return (written marked (answers.map (·.1)),
        ⟨tally.sites + answers.length, tally.replaced + answers.countP (·.2)⟩)) := by
  induction marked generalizing tally with
  | nil =>
    rw [List.mapM_nil, StateT.run_pure, List.filterMap_nil, List.mapM_nil, pure_bind]
    rfl
  | cons head marked ih =>
    obtain ⟨place?, site⟩ := head
    cases place? with
    | none =>
      have hvisit : visitSite visitor (none, site) = pure site := rfl
      have hstops : ((none, site) :: marked).filterMap stop? = marked.filterMap stop? := rfl
      rw [List.mapM_cons, hvisit, pure_bind, StateT.run_bind, ih, hstops]
      simp only [bind_assoc, pure_bind, StateT.run_pure, written]
    | some place =>
      have hvisit : (visitSite visitor (some place, site)).run tally = (do
          let answer ← visitor place site
          return ({ site with text := answer.1 }, tally.count answer.2)) := by
        simp [visitSite]
      have hstops : ((some place, site) :: marked).filterMap stop? = (place, site) :: marked.filterMap stop? := rfl
      rw [List.mapM_cons, StateT.run_bind, hvisit, hstops, List.mapM_cons]
      simp only [bind_assoc, pure_bind, StateT.run_bind, ih, StateT.run_pure]
      refine bind_congr fun answer => bind_congr fun answers => congrArg pure (Prod.ext rfl ?_)
      simp only [Tally.count, List.length_cons, List.countP_cons]
      congr 1 <;> omega

end Visits

/-! ### Refilled declarations -/

theorem nonempty_stringSite : Nonempty StringSite :=
  ⟨.unedited "" ⟨.utf8, 0, 0⟩⟩

variable {declaration : Declaration StringSite}

theorem located_map_blank (declaration : Declaration StringSite) :
    declaration.located.map blank = declaration.map blank := by
  have hplain := congrArg (map blank) declaration.located_map_snd
  rwa [map_map] at hplain

theorem refill_eq (texts : List String) (declaration : Declaration StringSite) :
    (declaration.refill texts).sites = written declaration.located.sites texts
      ∧ (declaration.refill texts).map blank = declaration.map blank := by
  have := nonempty_stringSite
  obtain ⟨rebuild, hrun, hresult⟩ := refills_traverse dictate declaration.located
  have hrefill : declaration.refill texts = rebuild (written declaration.located.sites texts) := by
    rw [refill, hrun, ← run_dictate]
    rfl
  obtain ⟨hsites, hshape⟩ := hresult _ (length_written declaration.located.sites texts)
  rw [hrefill, hsites, hshape]
  exact ⟨rfl, declaration.located_map_blank⟩

/-- The open sites of the refilled declaration stand where they stood. -/
theorem located_refill (texts : List String) (declaration : Declaration StringSite) :
    (declaration.refill texts).located.sites
      = (declaration.located.sites.map Prod.fst).zip (written declaration.located.sites texts) := by
  obtain ⟨hsites, hshape⟩ := refill_eq texts declaration
  have hplaces := congrArg (fun shape => shape.located.sites.map Prod.fst) hshape
  simp only [located_map, sites_map, List.map_map] at hplaces
  have htexts := congrArg sites (declaration.refill texts).located_map_snd
  rw [sites_map, hsites] at htexts
  exact List.zip_of_prod hplaces htexts

theorem visit_eq_refill {m : Type → Type} [Monad m] [LawfulMonad m] (visitor : Place → StringSite → m (String × Bool))
    (declaration : Declaration StringSite) : declaration.visit visitor = (do
      let answers ← declaration.itinerary.mapM fun stop => visitor stop.1 stop.2
      return (declaration.refill (answers.map (·.1)), ⟨answers.length, answers.countP (·.2)⟩)) := by
  have := nonempty_stringSite
  obtain ⟨rebuild, hrun, hresult⟩ := refills_traverse (visitSite visitor) declaration.located
  have hrefill : ∀ texts, rebuild (written declaration.located.sites texts) = declaration.refill texts := by
    intro texts
    obtain ⟨hsites, hshape⟩ := hresult _ (length_written declaration.located.sites texts)
    obtain ⟨hsites', hshape'⟩ := refill_eq texts declaration
    exact container.eq (hshape.trans (declaration.located_map_blank.trans hshape'.symm)) (hsites.trans hsites'.symm)
  rw [visit, hrun, StateT.run_map, run_visitSite, filterMap_stop?]
  simp only [map_bind, map_pure, hrefill, Nat.zero_add]

theorem itinerary_refill {texts : List String} (hlength : texts.length = declaration.itinerary.length) :
    (declaration.refill texts).itinerary
      = List.zipWith (fun stop text => (stop.1, { stop.2 with text })) declaration.itinerary texts := by
  rw [← filterMap_stop?] at hlength
  rw [← filterMap_stop?, located_refill, filterMap_stop?_written hlength, filterMap_stop?]

theorem mapOpen_withoutText_refill (texts : List String) (declaration : Declaration StringSite) :
    (declaration.refill texts).mapOpen withoutText = declaration.mapOpen withoutText := by
  have hshape := (refill_eq texts declaration).2
  rw [← located_map_isSome, ← located_map_isSome]
  refine container.eq ?_ ?_
  · rw [map_map, map_map]
    exact (located_map_blank _).trans (hshape.trans declaration.located_map_blank.symm)
  · rw [sites_map, sites_map, located_refill, map_withoutText_written]

theorem refill_own (declaration : Declaration StringSite) :
    declaration.refill (declaration.itinerary.map (·.2.text)) = declaration := by
  obtain ⟨hsites, hshape⟩ := refill_eq (declaration.itinerary.map (·.2.text)) declaration
  refine container.eq hshape ?_
  rw [hsites, ← filterMap_stop?, written_own, ← sites_map, located_map_snd]

theorem records_eq_itinerary (declaration : Declaration StringSite) :
    declaration.records = declaration.itinerary.map fun stop => ⟨stop.1, stop.2.text⟩ := by
  rw [records_eq, ← filterMap_stop?, List.map_filterMap]
  congr 1
  funext ⟨place?, site⟩
  cases place? <;> rfl

def listing (place : Place) (site : StringSite) : StateM (Array SiteRecord) (String × Bool) := do
  modify (·.push ⟨place, site.text⟩)
  return (site.text, false)

theorem run_listing (stops : List (Place × StringSite)) (found : Array SiteRecord) :
    (stops.mapM fun stop => listing stop.1 stop.2).run found
      = (stops.map fun stop => (stop.2.text, false),
        found ++ (stops.map fun stop => (⟨stop.1, stop.2.text⟩ : SiteRecord)).toArray) := by
  induction stops generalizing found with
  | nil => exact congrArg (Prod.mk []) (Array.append_empty : found ++ #[] = found).symm
  | cons stop stops ih =>
    have hrest := ih (found.push ⟨stop.1, stop.2.text⟩)
    rw [List.mapM_cons, List.map_cons, List.map_cons, List.toArray_cons, ← Array.append_assoc]
    exact congrArg (fun result => ((stop.2.text, false) :: result.1, result.2)) hrest

theorem run_visit_listing (declaration : Declaration StringSite) :
    (declaration.visit listing).run #[] = ((declaration, ⟨declaration.itinerary.length, 0⟩),
      (declaration.itinerary.map fun stop => (⟨stop.1, stop.2.text⟩ : SiteRecord)).toArray) := by
  have hown : (declaration.itinerary.map fun stop => (stop.2.text, false)).map Prod.fst
      = declaration.itinerary.map (·.2.text) := List.map_map
  have hcount : (declaration.itinerary.map fun stop => (stop.2.text, false)).countP Prod.snd = 0 := by
    rw [List.countP_map]
    exact List.countP_eq_zero.mpr fun _ _ => Bool.false_ne_true
  rw [visit_eq_refill, StateT.run_bind, run_listing, Array.empty_append]
  refine congrArg₂ Prod.mk (congrArg₂ Prod.mk ?_ (congrArg₂ Tally.mk ?_ hcount)) rfl
  · exact (congrArg (refill · declaration) hown).trans declaration.refill_own
  · exact List.length_map _

/-- A visit is a walk along the itinerary. The visitor is called once for each entry, in order, its answers are written at the sites it was called for, and they are counted. -/
theorem visit_itinerary {m : Type → Type} [Monad m] [LawfulMonad m] (visitor : Place → StringSite → m (String × Bool))
    (declaration : Declaration StringSite) (tokens : TokenTable) :
    (declaration.visit visitor = do
        let answers ← declaration.itinerary.mapM fun stop => visitor stop.1 stop.2
        return (declaration.refill (answers.map (·.1)), ⟨declaration.itinerary.length, answers.countP (·.2)⟩))
      ∧ (∀ texts, texts.length = declaration.itinerary.length →
        (declaration.refill texts).itinerary
            = List.zipWith (fun stop text => (stop.1, { stop.2 with text })) declaration.itinerary texts
          ∧ (declaration.refill texts).mapOpen withoutText = declaration.mapOpen withoutText)
      ∧ (declaration.visit listing).run #[] = ((declaration, ⟨declaration.itinerary.length, 0⟩),
        declaration.records.toArray)
      ∧ declaration.records = declaration.itinerary.map (fun stop => ⟨stop.1, stop.2.text⟩)
      ∧ declaration.replaceTokens tokens
        = (declaration.refill (declaration.itinerary.map fun stop => (tokens.substitute stop.2.text).1),
          ⟨declaration.itinerary.length, declaration.itinerary.countP fun stop =>
            (tokens.substitute stop.2.text).2⟩) := by
  refine ⟨?_, fun texts hlength => ⟨itinerary_refill hlength, mapOpen_withoutText_refill texts declaration⟩, ?_,
    declaration.records_eq_itinerary, ?_⟩
  · rw [visit_eq_refill]
    refine mapM_bind_congr fun answers hlength => ?_
    rw [hlength]
  · rw [run_visit_listing, records_eq_itinerary]
  · have hanswers : Id.run (declaration.itinerary.mapM fun stop => pure (tokens.substitute stop.2.text))
        = declaration.itinerary.map fun stop => tokens.substitute stop.2.text := List.idRun_mapM
    rw [replaceTokens, visit_eq_refill, Id.run_bind, hanswers, Id.run_pure, List.map_map,
      List.length_map, List.countP_map]
    rfl

/-- One site of each kind that is visited, and a call whose argument is not. -/
def visitedSample : Declaration StringSite :=
  let site (text : String) : StringSite := .unedited text ⟨.utf8, 0, 0⟩
  let concat : MethodHandle := ⟨6, "java/lang/invoke/StringConcatFactory", "makeConcatWithConstants", "()V"⟩
  { minor := 0, major := 52, access := 0, name := "A", superclass? := none, interfaces := []
    annotations := { invisible := [⟨"T", [("m", .array [.string (site "a"), .nonText, .string (site "b")])]⟩] }
    fields := [{ access := 0, name := "f", descriptor := "D", constant? := some (.string (site "c")) }]
    methods := [{
      access := 0, name := "g", descriptor := "()V"
      instructions := [.load 0 0x12 (.string (site "d")),
        .invokeDynamic 2 "h" "()V" concat [.nonText, .string (site "e")],
        .invokeDynamic 7 "h" "()V" { concat with name := "other" } [.string (site "e")]]
      visibleOnParameters := [[], [⟨"T", [("m", .string (site "p"))]⟩]] }] }

theorem visit_itinerary_visitedSample :
    let numbered (_ : Place) (site : StringSite) : StateM Nat (String × Bool) :=
      fun count => ((site.text ++ "!", count % 2 == 0), count + 1)
    let texts := ["a!", "b!", "d!", "e!", "p!", "c!"]
    (visitedSample.visit numbered).run 0 = ((visitedSample.refill texts, ⟨6, 3⟩), 6)
      ∧ (visitedSample.refill texts).itinerary.map (fun stop => (stop.1, stop.2.text))
        = [(.onClass, "a!"), (.onClass, "b!"), (.load ⟨"g", "()V"⟩ 0, "d!"), (.concatArgument ⟨"g", "()V"⟩ 2 1, "e!"),
          (.onParameter ⟨"g", "()V"⟩ 1, "p!"), (.fieldConstant "f", "c!")] := by
  intro numbered texts
  obtain ⟨hvisit, hrefill, -⟩ := visit_itinerary numbered visitedSample ⟨[]⟩
  constructor
  · rw [hvisit]
    rfl
  · rw [(hrefill texts rfl).1]
    rfl

end Declaration

end Retoken
