import Retoken.Proofs.FileSystem.Parents
import Retoken.Proofs.FileSystem.Succeeding

/-!
# Directories that have just been made

Making a directory around a path leaves a path that goes on behind an empty directory. Such a path leads to nothing, whatever its last component is, and it did not lead to anything before either, unless it goes up again from a directory that was missing.
-/

namespace Retoken

open Retoken.Path

namespace Path

variable {path : Path} {piece : String}

theorem component?_eq_none : component? piece = none ↔ piece = "" ∨ piece = "." := by
  rw [component?]
  by_cases hblank : piece = "" ∨ piece = "."
  · rw [if_pos hblank]
    exact iff_of_true rfl hblank
  · rw [if_neg hblank]
    exact iff_of_false (by split <;> simp) hblank

/-- The temporary file of a path has the name of the last piece, which may be empty, with an ending. -/
theorem exists_temporary (path : Path) : ∃ before last, path.pieces = before ++ [last]
    ∧ (path.withSuffix ".tmp").pieces = before ++ [last ++ ".tmp"] ∧ IsName (last ++ ".tmp") := by
  have hne : path.pieces ≠ [] := fun hnil => splitAtSlashes_ne_nil path.text.toList (List.map_eq_nil_iff.mp hnil)
  obtain ⟨before, last, hpieces⟩ := (List.eq_nil_or_concat path.pieces).resolve_left hne
  rw [List.concat_eq_append] at hpieces
  refine ⟨before, last, hpieces, pieces_withSuffix (by decide) hpieces,
    isName_append_tmp (free_of_mem_pieces (?_ : last ∈ path.pieces))⟩
  rw [hpieces]
  exact List.mem_concat_self

theorem isAbsolute_temporary (path : Path) : (path.withSuffix ".tmp").isAbsolute = path.isAbsolute := by
  by_cases hpath : path.text = ""
  · rw [isAbsolute_eq, isAbsolute_eq, withSuffix, hpath]
    rfl
  · exact isAbsolute_withSuffix hpath

end Path

namespace FileSystem

variable {fs fs' : FileSystem} {purpose : Purpose} {limit : Nat} {location place directory : Location}
  {path parent : Path}
  {name : String} {pieces before quiet : List String} {node : Node} {noEntry : OsError} {found : Entry}

/-! ### Missing names -/

theorem node?_concat_eq_none (hproper : fs.Proper) (hnone : fs.node? place = none) (name : String) :
    fs.node? (place ++ [name]) = none := by
  cases hnode : fs.node? (place ++ [name]) with
  | none => rfl
  | some node =>
    rw [hproper.directories place name node hnode] at hnone
    cases hnone

theorem Leads.of_missing (hleads : fs.Leads purpose limit place (name :: pieces) location) (hname : IsName name)
    (hnone : fs.node? (place ++ [name]) = none) : pieces = [] ∧ location = place ++ [name] := by
  obtain ⟨-, -, hrest | ⟨target, hnode⟩⟩ := hleads.cases_name hname
  · cases hrest with
    | done => exact ⟨rfl, rfl⟩
    | stay hdirectory | up hdirectory | down hdirectory | follow hdirectory =>
      rw [hnone] at hdirectory
      cases hdirectory
  · rw [hnone] at hnode
    cases hnode

/-- A path that goes on at a missing name ends with it. -/
theorem Leads.of_missing_behind (hleads : fs.Leads purpose limit location (before ++ name :: pieces) place)
    (hbefore : fs.Leads .find limit location before directory) (hname : IsName name)
    (hnone : fs.node? (directory ++ [name]) = none) : pieces = [] ∧ place = directory ++ [name] := by
  obtain ⟨middle, rest, hmiddle, hafter⟩ := hleads.split
  obtain rfl := hmiddle.unique hbefore
  exact hafter.of_missing hname hnone

theorem Leads.of_quiet (hplace : fs.node? place = some .directory)
    (hquiet : ∀ piece ∈ quiet, piece = "" ∨ piece = ".") :
    fs.Leads .find limit place quiet place := by
  induction quiet with
  | nil => exact .done
  | cons piece quiet ih =>
    exact .stay hplace (hquiet piece List.mem_cons_self) (ih fun later hlater =>
      hquiet later (List.mem_cons_of_mem piece hlater))

theorem Leads.append_quiet (hleads : fs.Leads .find limit location pieces place)
    (hplace : fs.node? place = some .directory)
    (hquiet : ∀ piece ∈ quiet, piece = "" ∨ piece = ".") : fs.Leads .find limit location (pieces ++ quiet) place := by
  obtain ⟨rest, hrest⟩ := hleads.walk_append
  rw [← walk_eq_ok, hrest, walk_eq_ok]
  exact .of_quiet hplace hquiet

/-! ### What a path names -/

/-- What stands at the entry that a path names, itself not followed if it is a link. -/
def named? (fs : FileSystem) (path : Path) : Option Node :=
  match fs.entry path .busy with
  | .ok found => fs.node? found.location
  | .error _ => none

theorem named?_eq_some : fs.named? path = some node
    ↔ ∃ found, fs.entry path .busy = .ok found ∧ fs.node? found.location = some node := by
  rw [named?]
  cases fs.entry path .busy with
  | error error => exact ⟨nofun, nofun⟩
  | ok found =>
    constructor
    · exact fun hnode => ⟨found, rfl, hnode⟩
    · rintro ⟨_, ⟨⟩, hnode⟩
      exact hnode

theorem named?_of_entryAt (hentry : EntryAt fs path before name directory) (hpieces : path.pieces = before ++ [name]) :
    fs.named? path = fs.node? (directory ++ [name]) := by
  rw [named?, entry_of_entryAt hentry hpieces]

/-! ### Empty directories on the way -/

/-- A path goes on behind a directory in which there is nothing. -/
structure Vacant (fs : FileSystem) (path : Path) (place : Location) : Prop where
  pieces : ∃ first name more, path.pieces = first ++ name :: more ∧ IsName name
    ∧ fs.Leads .find linkLimit (startOf path fs.workingDirectory) first place
  isDirectory : fs.node? place = some .directory
  empty : ∀ name, fs.node? (place ++ [name]) = none

namespace Vacant

variable (hvacant : fs.Vacant path place)

include hvacant

/-- Only the last name of the path can be behind the empty directory. -/
theorem of_locate (hlocate : fs.locate purpose path = .ok location) :
    ∃ first name, path.pieces = first ++ [name] ∧ location = place ++ [name] := by
  obtain ⟨first, name, more, hpieces, hname, hfirst⟩ := hvacant.pieces
  obtain ⟨-, hleads⟩ := locate_eq_ok.mp hlocate
  rw [hpieces] at hleads
  obtain ⟨rfl, rfl⟩ := hleads.of_missing_behind hfirst hname (hvacant.empty name)
  exact ⟨first, name, hpieces, rfl⟩

theorem resolve_eq : (fs.resolve path).toOption = none := by
  cases hresolve : fs.resolve path with
  | error error => rfl
  | ok found =>
    obtain ⟨hlocate, hnode⟩ := resolve_eq_ok.mp hresolve
    obtain ⟨_, name, -, hlocation⟩ := hvacant.of_locate hlocate
    rw [hlocation, hvacant.empty name] at hnode
    cases hnode

theorem node?_entry (hentry : fs.entry path noEntry = .ok found) : fs.node? found.location = none := by
  obtain ⟨before, name, directory, hat, hlocation⟩ := of_entry hentry
  obtain ⟨blanks, hsplit, hblanks⟩ := hat.pieces
  obtain ⟨first, next, more, hpieces, hnext, hfirst⟩ := hvacant.pieces
  rw [hpieces] at hsplit
  rcases List.append_eq_append_iff.mp hsplit with ⟨between, rfl, hlater⟩ | ⟨between, rfl, hlater⟩
  · rcases List.cons_eq_append_iff.mp hlater with ⟨rfl, hsame⟩ | ⟨later, rfl, -⟩
    · have hleads := hat.leads
      rw [List.append_nil] at hleads
      rw [hlocation, hleads.unique hfirst]
      exact hvacant.empty name
    · -- the directory of the entry would be behind the empty one
      have hdirectory := hat.isDirectory
      rw [(hat.leads.of_missing_behind hfirst hnext (hvacant.empty next)).2, hvacant.empty next] at hdirectory
      cases hdirectory
  · rcases List.cons_eq_append_iff.mp hlater with ⟨rfl, hsame⟩ | ⟨later, rfl, hblank⟩
    · have hleads := hfirst
      rw [List.append_nil] at hleads
      rw [hlocation, hat.leads.unique hleads]
      exact hvacant.empty name
    · refine absurd (hblanks next ?_) hnext.ne_empty
      rw [hblank]
      exact List.mem_append_right _ List.mem_cons_self

theorem named?_eq : fs.named? path = none := by
  rw [named?]
  cases hentry : fs.entry path .busy with
  | error error => rfl
  | ok found => exact hvacant.node?_entry hentry

theorem temporary : fs.Vacant (path.withSuffix ".tmp") place where
  pieces := by
    obtain ⟨first, name, more, hpieces, hname, hfirst⟩ := hvacant.pieces
    rw [startOf, ← isAbsolute_temporary, ← startOf] at hfirst
    rcases List.eq_nil_or_concat more with rfl | ⟨init, last, rfl⟩
    · exact ⟨first, name ++ ".tmp", [], pieces_withSuffix (by decide) hpieces, hname.temporary, hfirst⟩
    · rw [List.concat_eq_append, ← List.cons_append, ← List.append_assoc] at hpieces
      have htemporary : (path.withSuffix ".tmp").pieces = _ := pieces_withSuffix (by decide) hpieces
      rw [List.append_assoc, List.cons_append] at htemporary
      exact ⟨first, name, _, htemporary, hname, hfirst⟩
  isDirectory := hvacant.isDirectory
  empty := hvacant.empty

end Vacant

/-! ### Making directories -/

theorem Proper.put_directory (hproper : fs.Proper) (hdirectory : fs.node? directory = some .directory)
    (hname : IsName name)
    (hnone : fs.node? (directory ++ [name]) = none) : (fs.put (directory ++ [name]) .directory).Proper := by
  have hkept : Kept (fun _ => False) fs (fs.put (directory ++ [name]) .directory) := .putDirectory hnone
  have hlocation : directory ++ [name] ≠ [] := List.append_ne_nil_of_right_ne_nil _ (List.cons_ne_nil _ _)
  constructor
  · intro location node hnode piece hpiece
    rw [node?_put hlocation] at hnode
    split at hnode
    case isTrue hmade =>
      rw [← hmade] at hpiece
      rcases List.mem_append.mp hpiece with habove | hlast
      · exact hproper.names directory _ hdirectory piece habove
      · rwa [List.mem_singleton.mp hlast]
    case isFalse => exact hproper.names location node hnode piece hpiece
  · intro location piece node hnode
    rw [node?_put hlocation] at hnode
    split at hnode
    case isTrue hmade =>
      obtain ⟨rfl, -⟩ := List.append_inj' hmade rfl
      exact hkept.directories _ hdirectory
    case isFalse => exact hkept.directories _ (hproper.directories location piece node hnode)

/-- Wherever the path goes up, it has led to a directory. -/
def Grounded (fs : FileSystem) (path : Path) : Prop :=
  ∀ first second, path.pieces = first ++ ".." :: second →
    ∃ place, fs.Leads .find linkLimit (startOf path fs.workingDirectory) first place ∧ fs.node? place = some .directory

theorem Grounded.kept {places : Location → Prop} (hgrounded : fs.Grounded path) (hkept : Kept places fs fs') :
    fs'.Grounded path := by
  intro first second hpieces
  obtain ⟨place, hleads, hplace⟩ := hgrounded first second hpieces
  rw [hkept.workingDirectory]
  exact ⟨place, hleads.kept hkept.directories hkept.links, hkept.directories place hplace⟩

theorem exists_of_entryAt_parent (hparent : parent ∈ path.parents) (htext : parent.text ≠ "")
    (hentry : EntryAt fs parent before name directory) :
    ∃ quiet next more, path.pieces = before ++ name :: (quiet ++ next :: more)
      ∧ (∀ piece ∈ quiet, piece = "" ∨ piece = ".")
      ∧ ¬ (next = "" ∨ next = ".") := by
  obtain ⟨-, front, rest, hsplit, ⟨piece, hpiece, hcomponent⟩, hblank⟩ := on_way_of_mem_parents hparent htext
  obtain ⟨blanks, hpieces, -⟩ := hentry.pieces
  obtain ⟨tail, htail, hmem⟩ : ∃ tail, path.pieces = before ++ name :: tail ∧ piece ∈ tail := by
    rcases hblank with hsame | hseparator
    · refine ⟨blanks ++ rest, ?_, List.mem_append_right _ hpiece⟩
      rw [hsplit, ← hsame, hpieces, List.append_assoc, List.cons_append]
    · rw [hpieces] at hseparator
      rcases List.eq_nil_or_concat blanks with rfl | ⟨init, last, rfl⟩
      · obtain ⟨-, hname⟩ := List.append_inj' hseparator rfl
        exact absurd (List.singleton_inj.mp hname) hentry.isName.ne_empty
      · rw [List.concat_eq_append, ← List.cons_append, ← List.append_assoc] at hseparator
        obtain ⟨hfront, -⟩ := List.append_inj' hseparator rfl
        refine ⟨init ++ rest, ?_, List.mem_append_right _ hpiece⟩
        rw [hsplit, ← hfront, List.append_assoc, List.cons_append]
  have hfound : (tail.find? fun piece => component? piece != none).isSome :=
    List.find?_isSome.mpr ⟨piece, hmem, bne_iff_ne.mpr hcomponent⟩
  obtain ⟨next, hnext⟩ := Option.isSome_iff_exists.mp hfound
  obtain ⟨hshown, quiet, more, rfl, hquiet⟩ := List.find?_eq_some_iff_append.mp hnext
  refine ⟨quiet, next, more, htail, fun piece hpiece => ?_, ?_⟩
  · have hnone := hquiet piece hpiece
    rw [Bool.not_eq_true', bne_eq_false_iff_eq] at hnone
    exact component?_eq_none.mp hnone
  · rw [← component?_eq_none]
    exact bne_iff_ne.mp hshown

section

variable {more : List String} (hleads : fs.Leads .find linkLimit (startOf path fs.workingDirectory) before directory)
  (hname : IsName name) (hnone : fs.node? (directory ++ [name]) = none)

include hleads hname hnone

theorem resolve_eq_of_missing (hpieces : path.pieces = before ++ name :: more) (hmore : more ≠ []) :
    (fs.resolve path).toOption = none := by
  cases hresolve : fs.resolve path with
  | error error => rfl
  | ok found =>
    obtain ⟨-, hthere⟩ := locate_eq_ok.mp (resolve_eq_ok.mp hresolve).1
    rw [hpieces] at hthere
    exact absurd (hthere.of_missing_behind hleads hname hnone).1 hmore

theorem Grounded.ne_up {next : String} (hgrounded : fs.Grounded path)
    (hpieces : path.pieces = before ++ name :: (quiet ++ next :: more)) : next ≠ ".." := by
  rintro rfl
  rw [← List.cons_append, ← List.append_assoc] at hpieces
  obtain ⟨place, hthere, hplace⟩ := hgrounded _ _ hpieces
  rw [(hthere.of_missing_behind hleads hname hnone).2, hnone] at hplace
  cases hplace

end

/-- A directory that is made around a path is an empty one that the path goes on behind. Without it the path led to nothing. -/
theorem vacant_of_makeDirectory (hproper : fs.Proper) (hgrounded : fs.Grounded path) (hparent : parent ∈ path.parents)
    (htext : parent.text ≠ "") (hmake : fs.makeDirectory parent = .ok fs') :
    ∃ place, fs.node? place = none ∧ fs' = fs.put place .directory ∧ fs'.Proper ∧ fs'.Vacant path place
      ∧ (fs.resolve path).toOption = none := by
  obtain ⟨before, name, directory, hentry, hnone, rfl⟩ := of_makeDirectory hmake
  obtain ⟨quiet, next, more, hpieces, hquiet, hnext⟩ := exists_of_entryAt_parent hparent htext hentry
  obtain ⟨habsolute, -⟩ := on_way_of_mem_parents hparent htext
  have hleads : fs.Leads .find linkLimit (startOf path fs.workingDirectory) before directory := by
    rw [startOf, ← habsolute, ← startOf]
    exact hentry.leads
  have hname : IsName next := by
    obtain ⟨hempty, hhere⟩ := not_or.mp hnext
    refine ⟨hempty, hhere, hgrounded.ne_up hleads hentry.isName hnone hpieces,
      free_of_mem_pieces (?_ : next ∈ path.pieces)⟩
    rw [hpieces]
    exact List.mem_append_right _ (List.mem_cons_of_mem _ (List.mem_append_right _ List.mem_cons_self))
  have hlocation : directory ++ [name] ≠ [] := List.append_ne_nil_of_right_ne_nil _ (List.cons_ne_nil _ _)
  have hkept : Kept (fun _ => False) fs (fs.put (directory ++ [name]) .directory) := .putDirectory hnone
  have hmade : (fs.put (directory ++ [name]) .directory).node? (directory ++ [name]) = some .directory := by
    rw [node?_put hlocation, if_pos rfl]
  have hvacant : (fs.put (directory ++ [name]) .directory).Vacant path (directory ++ [name]) := by
    refine ⟨⟨before ++ [name] ++ quiet, next, more, ?_, hname, ?_⟩, hmade, fun later => ?_⟩
    · rw [hpieces, List.append_assoc, List.append_assoc, List.singleton_append]
    · refine Leads.append_quiet ?_ hmade hquiet
      refine (hleads.kept hkept.directories hkept.links).concat
        (hkept.directories _ hentry.isDirectory) hentry.isName hentry.short
        fun target hlink => ?_
      rw [hmade] at hlink
      cases hlink
    · rw [node?_put hlocation, if_neg (by simp)]
      exact node?_concat_eq_none hproper hnone later
  refine ⟨_, hnone, rfl, hproper.put_directory hentry.isDirectory hentry.isName hnone, hvacant, ?_⟩
  exact resolve_eq_of_missing hleads hentry.isName hnone hpieces
    (List.append_ne_nil_of_right_ne_nil _ (List.cons_ne_nil _ _))

end FileSystem

end Retoken
