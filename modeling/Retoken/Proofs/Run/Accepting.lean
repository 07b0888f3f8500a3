import Retoken.Proofs.FileSystem.Maintaining
import Retoken.Run.Settings

/-!
# Which requests are accepted

Checking a request only looks. An output directory that is accepted lies in no input directory, and if it is to be cleaned no input directory lies in it. Nothing else is asked of where the directories stand: without cleaning an input directory may lie in the output directory.
-/

namespace Retoken

open Retoken.FileSystem Retoken.Path

variable {fs : FileSystem} {path output resolved root : Path} {roots : List Path} {place directory : Location}
  {node : Node} {clean : Bool} {request : ReplaceRequest} {settings : Settings}

/-! ### Absolute paths without links -/

namespace FileSystem

theorem canonical_of_resolve (hresolve : fs.resolve path = .ok (place, node)) :
    fs.canonical path = .ok (pathTo place) := by
  obtain ⟨hlocate, hnode⟩ := resolve_eq_ok.mp hresolve
  obtain ⟨hcheck, hleads⟩ := locate_eq_ok.mp hlocate
  obtain ⟨⟨⟩, hnonempty, -⟩ := except_bind_eq_ok.mp hcheck
  have hwalk : fs.walkPath .find path = .ok place := walk_of_leads hleads
  rw [canonical, hnonempty, hwalk]
  change (fs.nodeAt place >>= _) = _
  rw [nodeAt, hnode]
  rfl

theorem components_pathTo (hplace : ∀ name ∈ place, IsName name) :
    (pathTo place).components = .root :: place.map .name := by
  by_cases hroot : place = []
  · subst hroot
    decide
  · have htext : (pathTo place).text.toList = '/' :: (ofNames place).text.toList := by
      rw [pathTo, join, isAbsolute_ofNames hroot hplace, if_neg Bool.false_ne_true, if_pos (by decide),
        String.toList_append]
      rfl
    have hbody : (pathTo place).body = place := by
      rw [body, htext]
      change (splitAtSlashes (ofNames place).text.toList).map String.ofList = place
      rw [pieces_ofNames hroot hplace, List.map_map]
      simp [Function.comp_def]
    have hanchor : (pathTo place).anchor = .root := by
      rw [anchor, htext]
      rfl
    rw [components, hbody, hanchor, filterMap_component? hplace]
    rfl

theorem isWithin_pathTo (hplace : ∀ name ∈ place, IsName name) (hdirectory : ∀ name ∈ directory, IsName name) :
    (pathTo place).isWithin (pathTo directory) = true ↔ directory <+: place := by
  rw [isWithin, components_pathTo hplace, components_pathTo hdirectory, List.isPrefixOf_iff_prefix,
    List.prefix_cons_inj, List.prefix_map_iff_of_injective]
  intro name other heq
  exact Component.name.inj heq

theorem isDirectory_eq_true : fs.isDirectory path = true ↔ ∃ place, fs.resolve path = .ok (place, .directory) := by
  rw [isDirectory]
  constructor
  · intro hdirectory
    split at hdirectory
    case h_1 place hresolve => exact ⟨place, hresolve⟩
    case h_2 => cases hdirectory
  · rintro ⟨place, hresolve⟩
    rw [hresolve]

end FileSystem

/-! ### Checking a request -/

namespace Settings

def Apart (fs : FileSystem) (resolved : Path) (clean : Bool) (root : Path) : Prop :=
  ∀ canonical, fs.canonical root = .ok canonical →
    resolved.isWithin canonical = false ∧ (clean && canonical.isWithin resolved) = false

theorem run_checkRoots_cons (fs : FileSystem) (output resolved root : Path) (clean : Bool) (roots : List Path) :
    (Apart fs resolved clean root
      ∧ (checkRoots output resolved clean (root :: roots) : ExceptT SettingsError (StateM FileSystem) Unit).run fs
        = (checkRoots output resolved clean roots : ExceptT SettingsError (StateM FileSystem) Unit).run fs)
    ∨ ∃ error, (checkRoots output resolved clean (root :: roots)
        : ExceptT SettingsError (StateM FileSystem) Unit).run fs = (.error error, fs) := by
  rw [checkRoots]
  have hrun : ∀ next : Except OsError Path → ExceptT SettingsError (StateM FileSystem) Unit,
      (liftM (Disk.canonical root : ExceptT OsError (StateM FileSystem) Path).run >>= next).run fs
        = (next (fs.canonical root)).run fs := fun _ => rfl
  rw [hrun]
  cases hcanonical : fs.canonical root with
  | error error =>
    refine .inl ⟨?_, rfl⟩
    intro canonical hfound
    rw [hcanonical] at hfound
    cases hfound
  | ok canonical =>
    cases hinside : resolved.isWithin canonical with
    | true =>
      refine .inr ⟨.outputInsideInput output root, ?_⟩
      simp only [hinside]
      rfl
    | false =>
      cases hcleaned : clean && canonical.isWithin resolved with
      | true =>
        refine .inr ⟨.inputInsideOutput root output, ?_⟩
        simp only [hinside, hcleaned]
        rfl
      | false =>
        left
        constructor
        · intro other hother
          rw [hcanonical] at hother
          cases hother
          exact ⟨hinside, hcleaned⟩
        · simp only [hinside, hcleaned]
          rfl

theorem checkRoots_looks (roots : List Path) :
    Maintains (· = fs) (checkRoots output resolved clean roots :
      ExceptT SettingsError (StateM FileSystem) Unit).run := by
  intro other hsame
  subst hsame
  induction roots with
  | nil => rfl
  | cons root roots ih =>
    rcases run_checkRoots_cons other output resolved root clean roots with ⟨-, hrun⟩ | ⟨error, hrun⟩
    · rw [hrun]
      exact ih
    · rw [hrun]

theorem apart_of_checkRoots
    (hcheck : ((checkRoots output resolved clean roots : ExceptT SettingsError (StateM FileSystem) Unit).run fs).1
      = .ok ()) (hroot : root ∈ roots) : Apart fs resolved clean root := by
  induction roots with
  | nil => cases hroot
  | cons first roots ih =>
    rcases run_checkRoots_cons fs output resolved first clean roots with ⟨hapart, hrun⟩ | ⟨error, hrun⟩
    · rw [hrun] at hcheck
      rcases List.mem_cons.mp hroot with rfl | hlater
      · exact hapart
      · exact ih hcheck hlater
    · rw [hrun] at hcheck
      cases hcheck

/-- What keeping apart says about the locations of a directory and an input. -/
theorem Apart.locations {node : Node} (hapart : Apart fs (pathTo place) clean root) (hproper : fs.Proper)
    (hplace : fs.node? place = some .directory) (hdirectory : fs.resolve root = .ok (directory, node)) :
    ¬ directory <+: place ∧ (clean = true → ¬ place <+: directory) := by
  obtain ⟨hinside, hcleaned⟩ := hapart _ (canonical_of_resolve hdirectory)
  have hplaceNames := hproper.names place _ hplace
  have hdirectoryNames := hproper.names directory _ (resolve_eq_ok.mp hdirectory).2
  constructor
  · rw [← isWithin_pathTo hplaceNames hdirectoryNames, hinside]
    exact Bool.false_ne_true
  · intro hclean
    rw [hclean, Bool.true_and] at hcleaned
    rw [← isWithin_pathTo hdirectoryNames hplaceNames, hcleaned]
    exact Bool.false_ne_true

theorem checkOutput_looks (roots : List Path) :
    Maintains (· = fs) (checkOutput output roots clean : ExceptT SettingsError (StateM FileSystem) Unit).run := by
  refine Maintains.bind (Maintains.lift fun _ hsame => hsame) fun _ there _ _ => ?_
  cases there with
  | true => exact Maintains.bind (Maintains.adapt (Maintains.look _)) fun _ _ _ _ => checkRoots_looks roots
  | false => exact Maintains.throw _

theorem apart_of_checkOutput
    (hcheck : ((checkOutput output roots clean : ExceptT SettingsError (StateM FileSystem) Unit).run fs).1 = .ok ()) :
    ∃ place, fs.resolve output = .ok (place, .directory) ∧ ∀ root ∈ roots, Apart fs (pathTo place) clean root := by
  obtain ⟨there, hthere, hcheck⟩ := (run_bind_eq_ok (Maintains.lift fun _ hsame => hsame)).mp hcheck
  obtain rfl : fs.isDirectory output = there := Except.ok.inj hthere
  cases hdirectory : fs.isDirectory output with
  | false =>
    rw [hdirectory] at hcheck
    cases hcheck
  | true =>
    rw [hdirectory] at hcheck
    obtain ⟨place, hresolve⟩ := isDirectory_eq_true.mp hdirectory
    obtain ⟨resolved, hresolved, hcheck⟩ := (run_bind_eq_ok (Maintains.adapt (Maintains.look _))).mp hcheck
    have hcanonical : fs.canonical output = .ok resolved := run_adapt_eq_ok.mp hresolved
    rw [canonical_of_resolve hresolve] at hcanonical
    cases hcanonical
    exact ⟨place, hresolve, fun root hroot => apart_of_checkRoots hcheck hroot⟩

end Settings

/-! ### Whole requests -/

theorem Disk.readText_looks (path : Path) :
    Maintains (· = fs) (Disk.readText path : ExceptT OsError (StateM FileSystem) String).run := by
  refine Maintains.bind (Maintains.look _) fun _ bytes _ _ => ?_
  cases String.fromUTF8? ⟨bytes.toArray⟩ with
  | none => exact Maintains.throw _
  | some text => exact Maintains.pure _

theorem TokenTable.ofFile_looks (path : Path) :
    Maintains (· = fs) (TokenTable.ofFile path : ExceptT SettingsError (StateM FileSystem) TokenTable).run := by
  refine Maintains.bind (Maintains.adapt (Disk.readText_looks path)) fun _ text _ _ => ?_
  cases JsonValue.ofText? text with
  | none => exact Maintains.throw _
  | some value =>
    dsimp only
    split
    · exact Maintains.pure _
    · exact Maintains.throw _

theorem TokenTable.fromFile_looks (file? : Option Path) :
    Maintains (· = fs) (file?.elim (pure .empty) TokenTable.ofFile :
      ExceptT SettingsError (StateM FileSystem) TokenTable).run := by
  cases file? with
  | none => exact Maintains.pure _
  | some path => exact TokenTable.ofFile_looks path

namespace Settings

def tokensOf (request : ReplaceRequest) : ExceptT SettingsError (StateM FileSystem) TokenTable :=
  request.tokenFile?.elim (pure .empty) TokenTable.ofFile >>= fun fromFile =>
    ofRequest.liftExcept (fromFile.insertArguments request.tokens)

theorem tokensOf_looks (request : ReplaceRequest) : Maintains (· = fs) (tokensOf request).run :=
  Maintains.bind (TokenTable.fromFile_looks _) fun _ _ _ _ => Maintains.result _

/-- A request for an output directory checks that directory after its tokens. -/
theorem ofRequest_shadow (houtput : request.output? = some output) :
    (ofRequest request : ExceptT SettingsError (StateM FileSystem) Settings) = do
      let tokens ← tokensOf request
      checkOutput output request.roots request.clean
      if request.jobs? = some 0 then throw .noJobs
      return {
        tokens, output := .shadow output
        roots := request.roots
        strict := request.strict
        dryRun := request.dryRun
        clean := request.clean
        jobs? := request.jobs? } := by
  rw [tokensOf, bind_assoc, ofRequest, houtput]
  cases request.tokenFile? <;> rfl

theorem ofRequest_looks (houtput : request.output? = some output) :
    Maintains (· = fs) (ofRequest request : ExceptT SettingsError (StateM FileSystem) Settings).run := by
  rw [ofRequest_shadow houtput]
  refine Maintains.bind (tokensOf_looks request) fun _ _ _ _ => ?_
  refine Maintains.bind (checkOutput_looks request.roots) fun _ _ _ _ => ?_
  by_cases hjobs : request.jobs? = some 0
  · rw [if_pos hjobs]
    exact Maintains.throw _
  · rw [if_neg hjobs]
    exact Maintains.pure _

/-- What it takes for a request for an output directory to be accepted. -/
theorem accepted_of_ofRequest (houtput : request.output? = some output)
    (haccepted : ((ofRequest request : ExceptT SettingsError (StateM FileSystem) Settings).run fs).1 = .ok settings) :
    (∃ place, fs.resolve output = .ok (place, .directory) ∧ ∀ root ∈ request.roots,
      Apart fs (pathTo place) request.clean root)
      ∧ settings.roots = request.roots ∧ settings.output = .shadow output ∧ settings.clean = request.clean
      ∧ settings.dryRun = request.dryRun := by
  rw [ofRequest_shadow houtput] at haccepted
  obtain ⟨tokens, -, haccepted⟩ := (run_bind_eq_ok (tokensOf_looks request)).mp haccepted
  obtain ⟨⟨⟩, hcheck, haccepted⟩ := (run_bind_eq_ok (checkOutput_looks request.roots)).mp haccepted
  refine ⟨apart_of_checkOutput hcheck, ?_⟩
  by_cases hjobs : request.jobs? = some 0
  · rw [if_pos hjobs] at haccepted
    cases haccepted
  · rw [if_neg hjobs] at haccepted
    cases haccepted
    exact ⟨rfl, rfl, rfl, rfl⟩

end Settings

end Retoken
