import Retoken.Proofs.FileSystem.Keeping

/-!
# When operations succeed

An operation at a path succeeds if the pieces before the last one lead to a directory and the entry of that directory is of the right kind. A directory that is there cannot be made again, and one whose own directory is missing cannot be made yet.
-/

namespace Retoken.FileSystem

open Retoken.Path

variable {fs : FileSystem} {purpose : Purpose} {limit : Nat} {location place directory middle : Location}
  {path shorter target : Path} {name last : String} {pieces first before names : List String} {node : Node}
  {bytes : List UInt8} {noEntry : OsError}

theorem checkPath_eq_ok : checkPath path = .ok ()
    ↔ path.text ≠ "" ∧ '\x00' ∉ path.text.toList ∧ path.text.utf8ByteSize ≤ pathLimit := by
  rw [checkPath, checkNonempty]
  by_cases hempty : path.text = ""
  · simp [hempty, bind, Except.bind]
  by_cases hnul : '\x00' ∈ path.text.toList
  · simp [hempty, hnul, bind, Except.bind]
  by_cases hlong : path.text.utf8ByteSize > pathLimit
  · simp [hempty, hnul, hlong, bind, Except.bind, throw, throwThe, MonadExceptOf.throw]
  · simp [hempty, hnul, hlong, bind, Except.bind, pure, Except.pure, Nat.le_of_not_lt hlong]

theorem checkPath_shorter (hcheck : checkPath path = .ok ()) (hwithin : shorter.text.toList <+: path.text.toList)
    (hne : shorter.text ≠ "") : checkPath shorter = .ok () := by
  obtain ⟨-, hnul, hlong⟩ := checkPath_eq_ok.mp hcheck
  obtain ⟨rest, hrest⟩ := hwithin
  have htext : path.text = shorter.text ++ String.ofList rest := by
    rw [← String.toList_inj, String.toList_append, String.toList_ofList, hrest]
  refine checkPath_eq_ok.mpr ⟨hne, fun hmem => hnul ?_, ?_⟩
  · rw [← hrest]
    exact List.mem_append_left rest hmem
  · rw [htext, String.utf8ByteSize_append] at hlong
    omega

/-- A path that leads somewhere can be gone on along. -/
theorem Leads.walk_append (hleads : fs.Leads .find limit location first middle) :
    ∃ rest, ∀ pieces, fs.walk .find limit location (first ++ pieces) = fs.walk .find rest middle pieces := by
  induction hleads with
  | @done limit location => exact ⟨limit, fun _ => rfl⟩
  | stay hdirectory hpiece _ ih =>
    obtain ⟨rest, hrest⟩ := ih
    refine ⟨rest, fun pieces => ?_⟩
    rw [List.cons_append, walk_cons hdirectory, if_pos hpiece, hrest]
  | up hdirectory _ ih =>
    obtain ⟨rest, hrest⟩ := ih
    refine ⟨rest, fun pieces => ?_⟩
    rw [List.cons_append, walk_cons hdirectory, if_neg (by decide), if_pos rfl, hrest]
  | down hdirectory hpiece hup _ hshort hnode _ ih =>
    obtain ⟨rest, hrest⟩ := ih
    refine ⟨rest, fun pieces => ?_⟩
    rw [List.cons_append, walk_name hdirectory hpiece hup rfl hshort, ← hrest]
    split
    case h_1 target hlink => exact absurd hlink (hnode target)
    case h_2 => rfl
  | follow hdirectory hpiece hup _ hshort hnode _ ih =>
    obtain ⟨rest, hrest⟩ := ih
    refine ⟨rest, fun pieces => ?_⟩
    rw [List.cons_append, walk_name hdirectory hpiece hup rfl hshort, hnode, ← hrest, List.append_assoc]
    rfl

theorem enter_missing (hdirectory : fs.node? location = some .directory) (hnames : ∀ name ∈ names, IsName name)
    (hshort : ∀ name ∈ names, name.utf8ByteSize ≤ nameLimit)
    (hfree : ∀ below, below <+: names → fs.node? (location ++ below) = none
      ∨ fs.node? (location ++ below) = some .directory)
    (hmissing : ∃ below, below <+: names ∧ fs.node? (location ++ below) ≠ some .directory) :
    (fs.walk .find limit location names >>= fs.enter) = .error .notFound := by
  induction names generalizing location with
  | nil =>
    obtain ⟨below, hwithin, hother⟩ := hmissing
    rw [List.prefix_nil.mp hwithin, List.append_nil] at hother
    exact absurd hdirectory hother
  | cons name names ih =>
    have hname := hnames name List.mem_cons_self
    have hpiece := hname.not_blank
    rw [walk_name hdirectory hpiece hname.ne_up rfl (hshort name List.mem_cons_self)]
    have hfirst : [name] <+: name :: names := (List.prefix_cons_inj name).mpr List.nil_prefix
    rcases hfree [name] hfirst with hnone | hthere
    · rw [hnone]
      cases names with
      | nil =>
        rw [walk_eq]
        change fs.enter (location ++ [name]) = _
        rw [enter, hnone]
      | cons next names =>
        simp only [walk_eq, walkToLink, enter, hnone]
        rfl
    · rw [hthere]
      refine ih hthere (fun other hother => hnames other (List.mem_cons_of_mem _ hother))
        (fun other hother => hshort other (List.mem_cons_of_mem _ hother)) (fun below hwithin => ?_) ?_
      · rw [List.append_assoc]
        exact hfree (name :: below) ((List.prefix_cons_inj name).mpr hwithin)
      · obtain ⟨below, hwithin, hother⟩ := hmissing
        rcases List.prefix_cons_iff.mp hwithin with rfl | ⟨later, rfl, hlater⟩
        · rw [List.append_nil] at hother
          exact absurd hdirectory hother
        · refine ⟨later, hlater, ?_⟩
          rw [List.append_assoc]
          exact hother

theorem Leads.of_names (hdirectories : ∀ below, below <+: names → fs.node? (location ++ below) = some .directory)
    (hnames : ∀ name ∈ names, IsName name) (hshort : ∀ name ∈ names, name.utf8ByteSize ≤ nameLimit) :
    fs.Leads .find limit location names (location ++ names) := by
  induction names using List.reverseRecOn with
  | nil =>
    rw [List.append_nil]
    exact .done
  | append_singleton names name ih =>
    have hfirst := ih (fun below hwithin => hdirectories below (hwithin.trans (List.prefix_append names [name])))
      (fun other hother => hnames other (List.mem_append_left _ hother))
      fun other hother => hshort other (List.mem_append_left _ hother)
    have hend := hdirectories (names ++ [name]) List.prefix_rfl
    rw [← List.append_assoc] at hend ⊢
    refine hfirst.concat (hdirectories names (List.prefix_append names [name])) (hnames name List.mem_concat_self)
      (hshort name List.mem_concat_self) fun target hlink => ?_
    rw [hend] at hlink
    cases hlink

theorem entry_of_entryAt (hentry : EntryAt fs path before name directory) (hpieces : path.pieces = before ++ [name]) :
    fs.entry path noEntry = .ok ⟨directory ++ [name], false⟩ := by
  have hreverse : path.pieces.reverse = name :: before.reverse := by
    rw [hpieces, List.reverse_append, List.reverse_singleton, List.singleton_append]
  have hname := hentry.isName
  have hdrop : (name :: before.reverse).dropWhile (· == "") = name :: before.reverse :=
    List.dropWhile_cons_of_neg (by simpa using hname.ne_empty)
  rw [entry, hentry.checked, hreverse]
  dsimp only
  rw [hdrop]
  simp only [List.reverse_reverse, walk_of_leads hentry.leads]
  change (fs.enter directory >>= _) = _
  rw [enter_eq_ok.mpr hentry.isDirectory]
  change (if name = "." ∨ name = ".." then _ else _) = _
  rw [if_neg (not_or.mpr ⟨hname.ne_here, hname.ne_up⟩), child_eq_ok.mpr ⟨hentry.short, rfl⟩]
  change Except.ok (Entry.mk (directory ++ [name]) (some name == some "")) = _
  rw [show (some name == some "") = false by simpa using hname.ne_empty]

theorem makeDirectory_of_entryAt (hentry : EntryAt fs path before name directory)
    (hpieces : path.pieces = before ++ [name]) (hnone : fs.node? (directory ++ [name]) = none) :
    fs.makeDirectory path = .ok (fs.put (directory ++ [name]) .directory) := by
  rw [makeDirectory, entry_of_entryAt hentry hpieces]
  dsimp only [bind, Except.bind]
  rw [hnone]
  rfl

theorem rename_of_entryAt {before' : List String} {name' : String} {directory' : Location}
    (hsource : EntryAt fs path before name directory) (hpieces : path.pieces = before ++ [name])
    (htarget : EntryAt fs target before' name' directory') (hpieces' : target.pieces = before' ++ [name'])
    (hfile : fs.node? (directory ++ [name]) = some (.file bytes))
    (hfree : fs.node? (directory' ++ [name']) ≠ some .directory) :
    fs.rename path target = .ok ((fs.erase (directory ++ [name])).put (directory' ++ [name']) (.file bytes)) := by
  have hdirectory : fs.isDirectoryAt (directory' ++ [name']) = false := by simpa [isDirectoryAt] using hfree
  rw [rename, entry_of_entryAt hsource hpieces, entry_of_entryAt htarget hpieces']
  dsimp only [bind, Except.bind]
  rw [hfile]
  change (if fs.isDirectoryAt (directory' ++ [name']) = true then _ else _) = _
  rw [hdirectory]
  rfl

/-- A file is written where there is a file or nothing. -/
theorem write_of_locate (hlocate : fs.locate .create path = .ok location)
    (hdirectory : fs.node? location ≠ some .directory)
    (hunlinked : ∀ target, fs.node? location ≠ some (.link target)) :
    fs.write path bytes = .ok (fs.put location (.file bytes)) := by
  rw [write, hlocate]
  dsimp only [bind, Except.bind]
  cases hnode : fs.node? location with
  | none => rfl
  | some node =>
    cases node with
    | directory => exact absurd hnode hdirectory
    | link target => exact absurd hnode (hunlinked target)
    | file content => rfl

theorem Leads.node_of_name (hleads : fs.Leads purpose limit location (name :: pieces) place) (hname : IsName name)
    (hblanks : ∀ piece ∈ pieces, piece = "") (hplace : fs.node? place = some .directory) :
    name.utf8ByteSize ≤ nameLimit ∧ ∃ node, fs.node? (location ++ [name]) = some node := by
  obtain ⟨-, hshort, hrest | ⟨target, hnode⟩⟩ := hleads.cases_name hname
  · refine ⟨hshort, .directory, ?_⟩
    cases hrest with
    | done => exact hplace
    | up => exact absurd (hblanks _ List.mem_cons_self) (by decide)
    | stay hdirectory | down hdirectory | follow hdirectory => exact hdirectory
  · exact ⟨hshort, _, hnode⟩

theorem makeDirectory_of_directory (hresolve : fs.resolve path = .ok (place, .directory)) :
    fs.makeDirectory path = .error .alreadyExists := by
  obtain ⟨hlocate, hplace⟩ := resolve_eq_ok.mp hresolve
  obtain ⟨hcheck, hleads⟩ := locate_eq_ok.mp hlocate
  rw [makeDirectory, entry, hcheck]
  dsimp only [bind, Except.bind]
  cases hpieces : path.pieces.reverse.dropWhile (· == "") with
  | nil => rfl
  | cons name before =>
    obtain ⟨blanks, hsplit, hblanks, hnonempty, hfree⟩ := pieces_of_dropWhile hpieces
    rw [hsplit] at hleads
    obtain ⟨middle, rest, hfirst, hlast⟩ := hleads.split
    have hdirectory : fs.node? middle = some .directory := by
      cases hlast with
      | stay hdirectory | up hdirectory | down hdirectory | follow hdirectory => exact hdirectory
    dsimp only
    rw [walk_of_leads hfirst]
    change ((fs.enter middle >>= _) >>= _) = _
    rw [enter_eq_ok.mpr hdirectory]
    change ((if name = "." ∨ name = ".." then _ else _) >>= _) = _
    by_cases hdots : name = "." ∨ name = ".."
    · rw [if_pos hdots]
      rfl
    · obtain ⟨hhere, hup⟩ := not_or.mp hdots
      obtain ⟨hshort, node, hnode⟩ := hlast.node_of_name ⟨hnonempty, hhere, hup, hfree⟩ hblanks hplace
      rw [if_neg hdots, child_eq_ok.mpr ⟨hshort, rfl⟩]
      dsimp only [bind, Except.bind, pure, Except.pure]
      rw [hnode]
      rfl

/-- A directory is not made as long as the one around it is missing. -/
theorem makeDirectory_of_missing (hcheck : checkPath path = .ok ()) (hpieces : path.pieces = before ++ [name])
    (hname : IsName name)
    (hmissing : (fs.walk .find linkLimit (startOf path fs.workingDirectory) before >>= fs.enter) = .error .notFound) :
    fs.makeDirectory path = .error .notFound := by
  have hreverse : path.pieces.reverse = name :: before.reverse := by
    rw [hpieces, List.reverse_append, List.reverse_singleton, List.singleton_append]
  have hdrop : (name :: before.reverse).dropWhile (· == "") = name :: before.reverse :=
    List.dropWhile_cons_of_neg (by simpa using hname.ne_empty)
  rw [makeDirectory, entry, hcheck, hreverse]
  dsimp only
  rw [hdrop]
  simp only [List.reverse_reverse]
  cases hwalk : fs.walk .find linkLimit (startOf path fs.workingDirectory) before with
  | error error =>
    rw [hwalk] at hmissing
    cases hmissing
    rfl
  | ok found =>
    rw [hwalk] at hmissing
    change fs.enter found = _ at hmissing
    change ((fs.enter found >>= _) >>= _) = _
    rw [hmissing]
    rfl

end Retoken.FileSystem
