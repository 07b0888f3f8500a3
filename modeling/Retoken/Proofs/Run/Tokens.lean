import Retoken.Proofs.Run.Accepting
import Retoken.Proofs.TokenTable.History

/-!
# The tokens of a request

A request has its tokens in a file, as the members of a JSON object, and in assignments. Its table is the one after the history that begins with the object and goes on with the assignments in their order. A request is accepted exactly if no update of that history is refused and it would be accepted without any tokens.
-/

namespace Retoken

open Retoken.FileSystem

variable {fs : FileSystem} {path : Path} {request : ReplaceRequest} {settings : Settings} {table next : TokenTable}
  {arguments : List String} {text : String}

namespace TokenTable

/-- The updates that stand in a token file, which is one object, or none if there is no file. -/
inductive FileUpdates (fs : FileSystem) : Option Path → List Update → Prop where
  | none : FileUpdates fs none []
  | some {path : Path} {bytes : List UInt8} {text : String} {value : JsonValue} (hread : fs.read path = .ok bytes)
      (htext : String.fromUTF8? ⟨bytes.toArray⟩ = some text) (hvalue : JsonValue.ofText? text = some value) :
      FileUpdates fs (some path) [.insertObject value]

def Leads (table : TokenTable) (updates : List Update) (next : TokenTable) : Prop :=
  (table.updateAll updates).1 = next ∧ ∀ outcome ∈ (table.updateAll updates).2, outcome = .ok ()

theorem leads_append {first later : List Update} :
    table.Leads (first ++ later) next ↔ ∃ middle, table.Leads first middle ∧ middle.Leads later next := by
  simp only [Leads, updateAll_append, List.forall_mem_append]
  constructor
  · rintro ⟨hnext, hfirst, hlater⟩
    exact ⟨_, ⟨rfl, hfirst⟩, hnext, hlater⟩
  · rintro ⟨middle, ⟨rfl, hfirst⟩, hnext, hlater⟩
    exact ⟨hnext, hfirst, hlater⟩

theorem leads_singleton {update : Update} : table.Leads [update] next ↔ table.update update = (next, .ok ()) := by
  rw [Leads, updateAll, updateAll, List.forall_mem_singleton, Prod.ext_iff]

theorem insertArguments_eq_ok :
    table.insertArguments arguments = .ok next ↔ table.Leads (arguments.map .insertAssignment) next := by
  induction arguments generalizing table with
  | nil => simp [insertArguments, Leads, updateAll, pure, Except.pure]
  | cons argument arguments ih =>
    have hunfold : table.insertArguments (argument :: arguments)
        = (table.insertAssignment argument).mapError (.invalidTokenArgument argument) >>=
            (·.insertArguments arguments) := by
      rw [insertArguments, List.foldlM_cons]
      rfl
    rw [hunfold, List.map_cons, Leads, updateAll, update]
    cases table.insertAssignment argument with
    | error error =>
      refine iff_of_false (by rintro ⟨⟩) ?_
      rintro ⟨-, hsucceeds⟩
      cases hsucceeds _ List.mem_cons_self
    | ok middle =>
      refine ih.trans ?_
      simp [Leads, keeping]

theorem readText_eq_ok : ((Disk.readText path : ExceptT OsError (StateM FileSystem) String).run fs).1 = .ok text
    ↔ ∃ bytes, fs.read path = .ok bytes ∧ String.fromUTF8? ⟨bytes.toArray⟩ = some text := by
  refine (run_bind_eq_ok (Maintains.look _)).trans (exists_congr fun bytes => and_congr Iff.rfl ?_)
  cases String.fromUTF8? ⟨bytes.toArray⟩ with
  | none => exact iff_of_false (by rintro ⟨⟩) (by rintro ⟨⟩)
  | some found => exact (Except.ok.injEq found text).to_iff.trans (Option.some.injEq found text).to_iff.symm

theorem ofFile_eq_ok : ((ofFile path : ExceptT SettingsError (StateM FileSystem) TokenTable).run fs).1 = .ok table
    ↔ ∃ updates, FileUpdates fs (some path) updates ∧ empty.Leads updates table := by
  have hparse : ((ofFile path : ExceptT SettingsError (StateM FileSystem) TokenTable).run fs).1 = .ok table
      ↔ ∃ text, ((Disk.readText path : ExceptT OsError (StateM FileSystem) String).run fs).1 = .ok text
        ∧ ∃ value, JsonValue.ofText? text = some value ∧ empty.insertObject value = (table, .ok ()) := by
    rw [ofFile, run_bind_eq_ok (Maintains.adapt (Disk.readText_looks path))]
    refine exists_congr fun text => and_congr run_adapt_eq_ok ?_
    cases JsonValue.ofText? text with
    | none => exact iff_of_false (by rintro ⟨⟩) (by rintro ⟨_, ⟨⟩, -⟩)
    | some value =>
      simp only [Option.some.injEq, exists_eq_left']
      rcases empty.insertObject value with ⟨filled, error | ⟨⟨⟩⟩⟩
      · exact iff_of_false (by rintro ⟨⟩) (by rintro ⟨⟩)
      · exact (Except.ok.injEq filled table).to_iff.trans (by simp)
  rw [hparse]
  constructor
  · rintro ⟨text, htext, value, hvalue, hinserted⟩
    obtain ⟨bytes, hread, hdecoded⟩ := readText_eq_ok.mp htext
    exact ⟨_, .some hread hdecoded hvalue, leads_singleton.mpr hinserted⟩
  · rintro ⟨_, ⟨⟩ | ⟨hread, hdecoded, hvalue⟩, hleads⟩
    exact ⟨_, readText_eq_ok.mpr ⟨_, hread, hdecoded⟩, _, hvalue, leads_singleton.mp hleads⟩

theorem fromFile_eq_ok {file? : Option Path} :
    ((file?.elim (pure .empty) TokenTable.ofFile : ExceptT SettingsError (StateM FileSystem) TokenTable).run fs).1
      = .ok table
      ↔ ∃ updates, FileUpdates fs file? updates ∧ empty.Leads updates table := by
  cases file? with
  | none =>
    constructor
    · intro hempty
      cases hempty
      exact ⟨[], .none, rfl, List.forall_mem_nil _⟩
    · rintro ⟨_, ⟨⟩, rfl, -⟩
      rfl
  | some path => exact ofFile_eq_ok

end TokenTable

namespace Settings

open Retoken.TokenTable

theorem tokensOf_eq_ok : ((tokensOf request).run fs).1 = .ok table
    ↔ ∃ updates, FileUpdates fs request.tokenFile? updates
      ∧ TokenTable.empty.Leads (updates ++ request.tokens.map .insertAssignment) table := by
  have harguments : ∀ fromFile : TokenTable,
      ((ofRequest.liftExcept (fromFile.insertArguments request.tokens) :
        ExceptT SettingsError (StateM FileSystem) TokenTable).run fs).1 = .ok table
      ↔ fromFile.Leads (request.tokens.map .insertAssignment) table :=
    fun _ => insertArguments_eq_ok
  rw [tokensOf, run_bind_eq_ok (fromFile_looks _)]
  simp only [fromFile_eq_ok, harguments, leads_append]
  constructor
  · rintro ⟨fromFile, ⟨updates, hupdates, hfirst⟩, hlater⟩
    exact ⟨updates, hupdates, fromFile, hfirst, hlater⟩
  · rintro ⟨updates, hupdates, fromFile, hfirst, hlater⟩
    exact ⟨fromFile, ⟨updates, hupdates, hfirst⟩, hlater⟩

def withoutTokens (request : ReplaceRequest) : ReplaceRequest :=
  { request with tokens := [], tokenFile? := none }

def afterTokens (request : ReplaceRequest) (tokens : TokenTable) :
    ExceptT SettingsError (StateM FileSystem) Settings := do
  let output ← request.output?.elim (pure .inPlace) fun root => do
    checkOutput root request.roots request.clean
    return .shadow root
  if request.jobs? = some 0 then throw .noJobs
  return {
    tokens, output
    roots := request.roots
    strict := request.strict
    dryRun := request.dryRun
    clean := request.clean
    jobs? := request.jobs? }

theorem ofRequest_eq (request : ReplaceRequest) : ofRequest request = tokensOf request >>= afterTokens request := by
  have hafter : ∀ fromFile : TokenTable,
    (ofRequest.liftExcept (fromFile.insertArguments request.tokens) >>= afterTokens request)
      = ofRequest.liftExcept (fromFile.insertArguments request.tokens) >>= fun tokens => afterTokens request tokens :=
        fun _ => rfl
  rw [tokensOf, bind_assoc, ofRequest]
  simp only [hafter, afterTokens]
  cases request.output? with
  | none => cases request.tokenFile? <;> rfl
  | some root =>
    simp only [Option.elim_some, bind_assoc]
    cases request.tokenFile? <;> rfl

theorem afterTokens_eq (request : ReplaceRequest) (tokens : TokenTable) :
    afterTokens request tokens = ofRequest (withoutTokens request) >>= fun settings =>
      pure { settings with tokens } := by
  have hempty : tokensOf (withoutTokens request) = pure .empty := rfl
  have hsame : afterTokens (withoutTokens request) .empty = afterTokens request .empty := rfl
  rw [ofRequest_eq, hempty, pure_bind, hsame, afterTokens, afterTokens, bind_assoc]
  refine bind_congr fun output => ?_
  by_cases hjobs : request.jobs? = some 0
  · rw [if_pos hjobs, if_pos hjobs]
    rfl
  · rw [if_neg hjobs, if_neg hjobs]
    rfl

theorem ofRequest_eq_ok :
    ((ofRequest request : ExceptT SettingsError (StateM FileSystem) Settings).run fs).1 = .ok settings
    ↔ ∃ updates, FileUpdates fs request.tokenFile? updates
      ∧ TokenTable.empty.Leads (updates ++ request.tokens.map .insertAssignment) settings.tokens
      ∧ ∃ other, ((ofRequest (withoutTokens request) : ExceptT SettingsError (StateM FileSystem) Settings).run fs).1
        = .ok other
        ∧ settings = { other with tokens := settings.tokens } := by
  rw [ofRequest_eq, run_bind_eq_ok (tokensOf_looks request)]
  simp only [afterTokens_eq, run_bind_pure_eq_ok, tokensOf_eq_ok]
  constructor
  · rintro ⟨table, ⟨updates, hupdates, hleads⟩, other, hother, rfl⟩
    exact ⟨updates, hupdates, hleads, other, hother, rfl⟩
  · rintro ⟨updates, hupdates, hleads, other, hother, hsettings⟩
    exact ⟨settings.tokens, ⟨updates, hupdates, hleads⟩, other, hother, hsettings.symm⟩

end Settings

/-- A token table is a dictionary of what its updates have set, in the order of the first settings. The table of a request is the one after the members of its file and then its assignments. -/
theorem TokenTable.records_of_history :
    (∀ updates, ∃ sets outcomes, History updates sets outcomes)
    ∧ (∀ updates sets outcomes, History updates sets outcomes →
        (empty.updateAll updates).2 = outcomes
        ∧ Records sets (empty.updateAll updates).1.entries
        ∧ ∀ entry ∈ (empty.updateAll updates).1.entries, entry.1 ≠ "")
    ∧ (∀ (table : TokenTable) update sets outcome, Performs update sets outcome →
        table.update update = (⟨sets.foldl setEntry table.entries⟩, outcome))
    ∧ (∀ (table : TokenTable) update error, (table.update update).2 = .error error →
        (∀ value, update ≠ .insertObject value) →
        (table.update update).1 = table)
    ∧ (∀ members, ∃ kept, JsonValue.ofMembers members = .object kept ∧ Records members kept)
    ∧ ∀ fs request settings,
      ((Settings.ofRequest request : ExceptT SettingsError (StateM FileSystem) Settings).run fs).1
          = .ok settings
        ↔ ∃ updates, FileUpdates fs request.tokenFile? updates
          ∧ empty.Leads (updates ++ request.tokens.map .insertAssignment) settings.tokens
          ∧ ∃ other, ((Settings.ofRequest (Settings.withoutTokens request)
                : ExceptT SettingsError (StateM FileSystem) Settings).run fs).1 = .ok other
            ∧ settings = { other with tokens := settings.tokens } := by
  refine ⟨exists_history, fun updates sets outcomes hhistory => ⟨?_, hhistory.records, hhistory.entries_ne_empty⟩,
    fun table update sets outcome hperforms => hperforms.update_eq table, fun table update error => keeps_of_refused,
    JsonValue.exists_ofMembers, fun fs request settings => Settings.ofRequest_eq_ok⟩
  rw [hhistory.updateAll_eq]

/-- Assignments and an object with a member that is refused, after which a key is set again. -/
theorem TokenTable.records_of_history_refused :
    History [.insertAssignment "a=1", .insert "" "x",
        .insertObject (.object [("b", .number "2"), ("a", .bool true), ("c", .null), ("d", .bool true)]),
        .insertAssignment "b=x=y"]
      [("a", "1"), ("b", "2"), ("a", "true"), ("b", "x=y")]
      [.ok (), .error .emptyKey, .error (.unsuitableValue "c" .null), .ok ()]
    ∧ Records [("a", "1"), ("b", "2"), ("a", "true"), ("b", "x=y")] [("a", "true"), ("b", "x=y")] := by
  have hobject : Performs
      (.insertObject (.object [("b", .number "2"), ("a", .bool true), ("c", .null), ("d", .bool true)]))
      [("b", "2"), ("a", "true")] (.error (.unsuitableValue "c" .null)) :=
    .refused (.cons (.intro (by decide) .number) (.cons (.intro (by decide) .true) .nil)) .null
  have hfirst : Performs (.insertAssignment ("a" ++ "=" ++ "1")) [("a", "1")] (.ok ()) :=
    .assignment (by decide) (by decide)
  have hlast : Performs (.insertAssignment ("b" ++ "=" ++ "x=y")) [("b", "x=y")] (.ok ()) :=
    .assignment (by decide) (by decide)
  have hhistory :=
    History.cons hfirst (.cons (.insertEmpty : Performs (.insert "" "x") _ _) (.cons hobject (.cons hlast .nil)))
  obtain ⟨-, hrecords, -⟩ := records_of_history.2.1 _ _ _ hhistory
  exact ⟨hhistory, hrecords⟩

end Retoken
