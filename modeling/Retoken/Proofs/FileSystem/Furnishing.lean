import Retoken.Proofs.FileSystem.Parents
import Retoken.Proofs.FileSystem.Maintaining
import Retoken.Proofs.FileSystem.Succeeding

/-!
# Making the directories around a path

The directories around a path below a directory come one after the other: each path is around the next one and has one name less. So all of them can be made if nothing but directories stands on the way down, and then the way down consists of directories, while everything else is as before.
-/

namespace Retoken

open Retoken.Path

variable {path root parent shorter : Path} {name last : String} {names before body : List String}

namespace Path

/-! ### Texts of paths -/

theorem ofNames_splitAtSlashes (text : List Char) :
    (ofNames ((splitAtSlashes text).map String.ofList)).text.toList = text := by
  induction text with
  | nil => rfl
  | cons c text ih =>
    obtain ⟨piece, pieces, hpieces⟩ := List.exists_cons_of_ne_nil (splitAtSlashes_ne_nil text)
    by_cases hslash : c = '/'
    · subst hslash
      have hrest : (splitAtSlashes text).map String.ofList ≠ [] := by
        rw [hpieces]
        exact List.cons_ne_nil _ _
      rw [splitAtSlashes, List.map_cons, toList_ofNames_cons _ hrest, ih]
      rfl
    · rw [hpieces, List.map_cons] at ih
      rw [splitAtSlashes_cons hslash hpieces, List.map_cons]
      cases pieces with
      | nil =>
        rw [List.map_nil, ofNames, String.intercalate_singleton, String.toList_ofList] at ih
        rw [List.map_nil, ofNames, String.intercalate_singleton, String.toList_ofList, ih]
      | cons next pieces =>
        have hrest : (next :: pieces).map String.ofList ≠ [] := List.cons_ne_nil _ _
        rw [toList_ofNames_cons _ hrest, String.toList_ofList] at ih
        rw [toList_ofNames_cons _ hrest, String.toList_ofList, List.cons_append, ih]

theorem toList_splitAnchor (text : List Char) :
    text = (splitAnchor text).1.text.toList ++ (splitAnchor text).2 := by
  rw [splitAnchor.eq_def]
  split <;> simp [Anchor.text]

theorem text_eq (path : Path) : path.text = path.anchor.text ++ (ofNames path.body).text := by
  rw [← String.toList_inj, String.toList_append, body, ofNames_splitAtSlashes]
  exact toList_splitAnchor _

theorem toList_ofNames_within (hwithin : names <+: body) :
    (ofNames names).text.toList <+: (ofNames body).text.toList := by
  induction names generalizing body with
  | nil => exact List.nil_prefix
  | cons name names ih =>
    obtain ⟨rest, rfl⟩ := hwithin
    by_cases hempty : names ++ rest = []
    · obtain ⟨rfl, rfl⟩ := List.append_eq_nil_iff.mp hempty
      exact List.prefix_rfl
    · rw [List.cons_append, toList_ofNames_cons name hempty]
      by_cases hlast : names = []
      · subst hlast
        rw [ofNames, String.intercalate_singleton]
        exact List.prefix_append _ _
      · rw [toList_ofNames_cons name hlast, List.prefix_append_right_inj, List.prefix_cons_inj]
        exact ih (List.prefix_append names rest)

/-- The text of a path begins with those of the directories around it. -/
theorem toList_prefix_of_mem_parents (hparent : parent ∈ path.parents) : parent.text.toList <+: path.text.toList := by
  rcases List.mem_append.mp hparent with hbody | hhere
  · obtain ⟨reversed, hreversed, rfl⟩ := List.mem_map.mp hbody
    have hsuffix := suffix_of_mem_enclosing (List.mem_of_mem_tail hreversed)
    rw [path.text_eq, String.toList_append, String.toList_append, List.prefix_append_right_inj]
    refine toList_ofNames_within ?_
    rw [← List.reverse_prefix, List.reverse_reverse] at hsuffix
    exact hsuffix
  · split at hhere
    case isTrue =>
      rw [List.mem_singleton.mp hhere]
      exact List.nil_prefix
    case isFalse => cases hhere

/-! ### One name more -/

theorem splitAnchor_append {text rest : List Char} (hne : text ≠ []) :
    splitAnchor (text ++ '/' :: rest) = ((splitAnchor text).1, (splitAnchor text).2 ++ '/' :: rest) := by
  rw [splitAnchor.eq_def, splitAnchor.eq_def]
  split
  case h_1 body htext =>
    obtain ⟨c, text, rfl⟩ := List.exists_cons_of_ne_nil hne
    obtain ⟨rfl, rfl⟩ := List.cons.inj htext
    rfl
  case h_2 htext =>
    obtain ⟨c, text, rfl⟩ := List.exists_cons_of_ne_nil hne
    exact absurd (List.cons.inj htext).2 (List.append_ne_nil_of_right_ne_nil _ (List.cons_ne_nil _ _))
  case h_3 body htext =>
    obtain ⟨c, text, rfl⟩ := List.exists_cons_of_ne_nil hne
    obtain ⟨rfl, hrest⟩ := List.cons.inj htext
    cases text with
    | nil =>
      cases hrest
      rfl
    | cons d text =>
      obtain ⟨rfl, rfl⟩ := List.cons.inj hrest
      rfl
  case h_4 hroot hhere hbelow =>
    split
    case h_1 body => exact absurd rfl (hroot _)
    case h_2 => exact absurd rfl (hbelow _)
    case h_3 body => exact absurd rfl (hbelow _)
    case h_4 => rfl

def inside (path : Path) (name : String) : Path :=
  ⟨path.text ++ "/" ++ name⟩

theorem toList_inside (path : Path) (name : String) :
    (path.inside name).text.toList = path.text.toList ++ '/' :: name.toList := by
  rw [inside, String.toList_append, String.toList_append, List.append_assoc]
  rfl

theorem anchor_inside (hpath : path.text ≠ "") : (path.inside name).anchor = path.anchor := by
  have hne : path.text.toList ≠ [] := fun hnil => hpath (String.toList_eq_nil_iff.mp hnil)
  rw [anchor, toList_inside, splitAnchor_append hne, anchor]

theorem body_inside (hpath : path.text ≠ "") (hname : IsName name) : (path.inside name).body = path.body ++ [name] := by
  have hne : path.text.toList ≠ [] := fun hnil => hpath (String.toList_eq_nil_iff.mp hnil)
  rw [body, toList_inside, splitAnchor_append hne, splitAtSlashes_append,
    splitAtSlashes_free hname.free, List.map_append, body, List.map_singleton, String.ofList_toList]

theorem exists_body_concat (hpieces : path.pieces = before ++ [name]) (hname : IsName name) :
    ∃ init, path.body = init ++ [name] := by
  have hsplit : ∀ first later, first :: later = before ++ [name] → first ≠ name → ∃ init, later = init ++ [name] := by
    intro first later hsame hother
    cases before with
    | nil => exact absurd (List.cons.inj hsame).1 hother
    | cons _ before => exact ⟨before, (List.cons.inj hsame).2⟩
  cases hanchor : path.anchor with
  | root =>
    rw [pieces_of_root hanchor] at hpieces
    exact hsplit _ _ hpieces (Ne.symm hname.ne_empty)
  | here =>
    obtain ⟨later, hbody, hpath⟩ := pieces_of_here hanchor
    rw [hpath] at hpieces
    obtain ⟨init, rfl⟩ := hsplit _ _ hpieces (Ne.symm hname.ne_here)
    exact ⟨"" :: init, hbody⟩
  | implicit =>
    rw [pieces_of_implicit hanchor] at hpieces
    exact ⟨before, hpieces⟩

theorem enclosing_name (hname : IsName name) (body : List String) :
    enclosing (name :: body) = (name :: body) :: enclosing body := by
  rw [enclosing, if_neg (by rw [component?_name hname]; exact Option.some_ne_none _)]

/-- The nearest directory around a path comes first, and then those around it. -/
theorem parents_inside (hpieces : path.pieces = before ++ [name]) (hname : IsName name) (hlast : IsName last) :
    (path.inside last).parents = path :: path.parents := by
  have hpath := text_ne_empty hpieces hname.ne_empty
  obtain ⟨init, hbody⟩ := exists_body_concat hpieces hname
  have hreverse : path.body.reverse = name :: init.reverse := by
    rw [hbody, List.reverse_append]
    rfl
  have hbodies : (enclosing (path.body ++ [last]).reverse).tail
      = path.body.reverse :: (enclosing path.body.reverse).tail := by
    rw [List.reverse_append, List.reverse_singleton, List.singleton_append, enclosing_name hlast,
      List.tail_cons, hreverse, enclosing_name hname, List.tail_cons]
  rw [parents, anchor_inside hpath, body_inside hpath hlast]
  simp only [hbodies, List.map_cons, List.cons_append, List.reverse_reverse]
  refine List.cons_eq_cons.mpr ⟨?_, rfl⟩
  exact congrArg Path.mk path.text_eq.symm

theorem join_concat (hne : names ≠ []) (hnames : ∀ other ∈ names ++ [name], IsName other) :
    root.join (ofNames (names ++ [name])) = (root.join (ofNames names)).inside name := by
  have hconcat : (ofNames (names ++ [name])).text = (ofNames names).text ++ "/" ++ name := by
    rw [← String.toList_inj, String.toList_append, String.toList_append]
    induction names with
    | nil => exact absurd rfl hne
    | cons first names ih =>
      rw [List.cons_append, toList_ofNames_cons first (List.append_ne_nil_of_right_ne_nil _ (List.cons_ne_nil _ _))]
      by_cases hempty : names = []
      · subst hempty
        rw [List.nil_append, ofNames, ofNames, String.intercalate_singleton, String.intercalate_singleton,
          List.append_assoc]
        rfl
      · rw [ih hempty fun other hother => hnames other (List.mem_cons_of_mem _ hother),
          toList_ofNames_cons first hempty]
        simp only [List.append_assoc, List.cons_append]
  rw [join, join, isAbsolute_ofNames hne fun other hother => hnames other (List.mem_append_left _ hother),
    isAbsolute_ofNames (List.append_ne_nil_of_right_ne_nil _ (List.cons_ne_nil _ _)) hnames, hconcat,
    if_neg Bool.false_ne_true, if_neg Bool.false_ne_true]
  split
  · rw [inside]
    simp only [String.append_assoc]
  · rw [inside]
    simp only [String.append_assoc]

end Path

open Retoken.FileSystem

variable {fs fs' fs'' : FileSystem} {place location directory : Location} {node : Node}
  {nodes nodes' : Location → Option Node}

/-! ### What a file system becomes -/

structure Becomes (fs fs' : FileSystem) (nodes : Location → Option Node) : Prop where
  workingDirectory : fs'.workingDirectory = fs.workingDirectory
  root : fs'.nodes[([] : Location)]? = fs.nodes[([] : Location)]?
  nodes : ∀ location, fs'.node? location = nodes location

namespace Becomes

theorem refl (hnodes : ∀ location, fs.node? location = nodes location) : Becomes fs fs nodes :=
  ⟨rfl, rfl, hnodes⟩

theorem trans (hfirst : Becomes fs fs' nodes) (hsecond : Becomes fs' fs'' nodes') : Becomes fs fs'' nodes' where
  workingDirectory := hsecond.workingDirectory.trans hfirst.workingDirectory
  root := hsecond.root.trans hfirst.root
  nodes := hsecond.nodes

theorem after (hfirst : Becomes fs fs' nodes) (hboth : Becomes fs fs'' nodes') : Becomes fs' fs'' nodes' where
  workingDirectory := hboth.workingDirectory.trans hfirst.workingDirectory.symm
  root := hboth.root.trans hfirst.root.symm
  nodes := hboth.nodes

theorem congr (hbecomes : Becomes fs fs' nodes) (hnodes : ∀ location, nodes location = nodes' location) :
    Becomes fs fs' nodes' where
  workingDirectory := hbecomes.workingDirectory
  root := hbecomes.root
  nodes location := (hbecomes.nodes location).trans (hnodes location)

theorem unique (hbecomes : Becomes fs fs' nodes) (hother : Becomes fs fs'' nodes) : fs' = fs'' := by
  have hnodes : fs'.nodes = fs''.nodes := by
    refine Std.ExtTreeMap.ext_getElem? fun location => ?_
    by_cases hlocation : location = []
    · subst hlocation
      exact hbecomes.root.trans hother.root.symm
    · rw [← node?_of_ne_nil hlocation, ← node?_of_ne_nil hlocation, hbecomes.nodes, hother.nodes]
  have hworking := hbecomes.workingDirectory.trans hother.workingDirectory.symm
  cases fs'
  cases fs''
  cases hnodes
  cases hworking
  rfl

theorem put (fs : FileSystem) (hlocation : location ≠ []) (node : Node) :
    Becomes fs (fs.put location node) fun other => if location = other then some node else fs.node? other where
  workingDirectory := rfl
  root := by
    change (fs.nodes.insert location node)[([] : Location)]? = _
    rw [Std.ExtTreeMap.getElem?_insert, if_neg]
    rwa [Std.LawfulEqCmp.compare_eq_iff_eq]
  nodes := node?_put hlocation node

theorem erase (fs : FileSystem) (hlocation : location ≠ []) :
    Becomes fs (fs.erase location) fun other => if location = other then none else fs.node? other where
  workingDirectory := rfl
  root := by
    change (fs.nodes.erase location)[([] : Location)]? = _
    rw [Std.ExtTreeMap.getElem?_erase, if_neg]
    rwa [Std.LawfulEqCmp.compare_eq_iff_eq]
  nodes := node?_erase hlocation

end Becomes

def paved (place : Location) (names : List String) (nodes : Location → Option Node) (location : Location) :
    Option Node :=
  if place <+: location ∧ location <+: place ++ names then some .directory else nodes location

theorem paved_below {below : List String} (hwithin : below <+: names) :
    paved place names nodes (place ++ below) = some .directory :=
  if_pos ⟨List.prefix_append place below, (List.prefix_append_right_inj place).mpr hwithin⟩

theorem paved_concat {names : List String} {name : String} (location : Location) :
    paved place (names ++ [name]) (paved place names nodes) location
      = paved place (names ++ [name]) nodes location := by
  by_cases hwithin : place <+: location ∧ location <+: place ++ (names ++ [name])
  · exact (if_pos hwithin).trans (if_pos hwithin).symm
  · have hshorter : ¬ (place <+: location ∧ location <+: place ++ names) := by
      refine fun hshorter => hwithin ⟨hshorter.1, hshorter.2.trans ?_⟩
      rw [List.prefix_append_right_inj]
      exact List.prefix_append names [name]
    refine (if_neg hwithin).trans ((if_neg hshorter).trans (if_neg hwithin).symm)

theorem Becomes.kept_of_paved (hbecomes : Becomes fs fs' (paved place names fs.node?))
    (hfree : ∀ below, below <+: names → fs.node? (place ++ below) = none
      ∨ fs.node? (place ++ below) = some .directory) :
    Kept (fun _ => False) fs fs' := by
  have hpaved : ∀ location, place <+: location ∧ location <+: place ++ names →
      fs.node? location = none ∨ fs.node? location = some .directory := by
    rintro _ ⟨⟨below, rfl⟩, hwithin⟩
    exact hfree below ((List.prefix_append_right_inj place).mp hwithin)
  refine ⟨hbecomes.workingDirectory, fun location hdirectory => ?_, fun location target => ?_,
    fun location bytes _ hfile => ?_⟩
  all_goals
    rw [hbecomes.nodes, paved]
    split
  case _ => rfl
  case _ => exact hdirectory
  case _ hwithin =>
    refine ⟨nofun, fun hlink => ?_⟩
    rcases hpaved location hwithin with hnode | hnode
    all_goals
      rw [hnode] at hlink
      cases hlink
  case _ => exact Iff.rfl
  case _ hwithin =>
    rcases hpaved location hwithin with hnode | hnode
    all_goals
      rw [hnode] at hfile
      cases hfile
  case _ => exact hfile

namespace FileSystem

/-! ### Paths below a directory -/

theorem entryAt_join (hrooted : Rooted fs root place) (hnames : ∀ other ∈ names ++ [name], IsName other)
    (hshort : ∀ other ∈ names ++ [name], other.utf8ByteSize ≤ nameLimit)
    (hdirectories : ∀ below, below <+: names → fs.node? (place ++ below) = some .directory)
    (hcheck : checkPath (root.join (ofNames (names ++ [name]))) = .ok ()) :
    ∃ before, (root.join (ofNames (names ++ [name]))).pieces = before ++ [name]
      ∧ EntryAt fs (root.join (ofNames (names ++ [name]))) before name (place ++ names) := by
  obtain ⟨before, hpieces, hleads⟩ :=
    hrooted.leads _ (List.append_ne_nil_of_right_ne_nil _ (List.cons_ne_nil _ _)) hnames
  rw [← List.append_assoc] at hpieces
  refine ⟨before ++ names, hpieces, hcheck, ⟨[], hpieces, nofun⟩, hnames name List.mem_concat_self,
    hshort name List.mem_concat_self, ?_, hdirectories names List.prefix_rfl⟩
  obtain ⟨rest, hrest⟩ := hleads.walk_append
  rw [← walk_eq_ok, hrest, walk_eq_ok]
  exact Leads.of_names hdirectories (fun other hother => hnames other (List.mem_append_left _ hother))
    fun other hother => hshort other (List.mem_append_left _ hother)

end FileSystem

namespace Disk

/-! ### Making one directory -/

theorem ensureDirectory_of_directory (hresolve : fs.resolve path = .ok (place, .directory)) :
    (ensureDirectory path : ExceptT OsError (StateM FileSystem) Unit).run fs = (.ok (), fs) := by
  have hmake : (makeDirectory path : ExceptT OsError (StateM FileSystem) Unit).run fs = (.error .alreadyExists, fs) :=
    run_change_of_error (makeDirectory_of_directory hresolve)
  have hthere : fs.isDirectory path = true := by rw [FileSystem.isDirectory, hresolve]
  rw [ensureDirectory, run_tryCatch_of_error hmake]
  change (if _ then _ else _ : ExceptT OsError (StateM FileSystem) Unit).run fs = _
  rw [if_pos]
  · rfl
  · change (true && fs.isDirectory path) = true
    rw [hthere]
    rfl

theorem ensureDirectory_of_made (hmake : fs.makeDirectory path = .ok fs') :
    (ensureDirectory path : ExceptT OsError (StateM FileSystem) Unit).run fs = (.ok (), fs') :=
  run_tryCatch_of_ok (run_change_eq.mpr hmake)

theorem ensureDirectory_of_missing (hmake : fs.makeDirectory path = .error .notFound) :
    (ensureDirectory path : ExceptT OsError (StateM FileSystem) Unit).run fs = (.error .notFound, fs) := by
  have hfails : (makeDirectory path : ExceptT OsError (StateM FileSystem) Unit).run fs = (.error .notFound, fs) :=
    run_change_of_error hmake
  rw [ensureDirectory, run_tryCatch_of_error hfails]
  rfl

/-! ### Making all of them -/

/-- Nothing is made where what stands before the last name leads to a directory. -/
theorem ensureDirectories_of_leads (hcheck : checkPath path = .ok ()) (hpieces : path.pieces = before ++ [name])
    (hleads : fs.Leads .find linkLimit (startOf path fs.workingDirectory) before directory)
    (hdirectory : fs.node? directory = some .directory) :
    (ensureDirectories path.parents : ExceptT OsError (StateM FileSystem) Unit).run fs = (.ok (), fs) := by
  cases hparents : path.parents with
  | nil => rfl
  | cons parent outer =>
    by_cases htext : parent.text = ""
    · rw [ensureDirectories, if_pos htext]
      rfl
    have hparent : parent ∈ path.parents := by
      rw [hparents]
      exact List.mem_cons_self
    obtain ⟨habsolute, first, rest, hsplit, ⟨piece, hpiece, -⟩, hblank⟩ := on_way_of_mem_parents hparent htext
    obtain ⟨more, hmore⟩ : first <+: before := by
      rw [hpieces] at hsplit
      have hwithin : first <+: before ++ [name] := ⟨rest, hsplit.symm⟩
      rcases List.prefix_concat_iff.mp hwithin with rfl | hshorter
      · exact absurd (List.append_right_eq_self.mp hsplit.symm) (List.ne_nil_of_mem hpiece)
      · exact hshorter
    rw [← hmore] at hleads
    obtain ⟨middle, fewer, hfirst, hafter⟩ := hleads.split
    have hmiddle : fs.node? middle = some .directory := by
      cases hafter with
      | done => exact hdirectory
      | stay hthere | up hthere | down hthere | follow hthere => exact hthere
    have hstart : startOf parent fs.workingDirectory = startOf path fs.workingDirectory := by
      rw [startOf, startOf, habsolute]
    have hway : fs.Leads .find linkLimit (startOf parent fs.workingDirectory) parent.pieces middle := by
      rw [hstart]
      rcases hblank with hsame | hseparator
      · rw [hsame]
        exact hfirst
      · obtain ⟨left, hleft⟩ := hfirst.walk_append
        rw [hseparator, ← walk_eq_ok, hleft, walk_eq_ok]
        exact .stay hmiddle (.inl rfl) .done
    have hresolve : fs.resolve parent = .ok (middle, .directory) :=
      resolve_eq_ok.mpr ⟨locate_eq_ok.mpr ⟨checkPath_shorter hcheck (toList_prefix_of_mem_parents hparent) htext,
        hway⟩, hmiddle⟩
    rw [ensureDirectories, if_neg htext]
    exact run_tryCatch_of_ok (ensureDirectory_of_directory hresolve)

theorem ensureDirectory_paves (hrooted : Rooted fs root place)
    (hnames : ∀ other ∈ names ++ [name], IsName other)
    (hshort : ∀ other ∈ names ++ [name], other.utf8ByteSize ≤ nameLimit)
    (hdirectories : ∀ below, below <+: names → fs.node? (place ++ below) = some .directory)
    (hlast : fs.node? (place ++ (names ++ [name])) = none ∨ fs.node? (place ++ (names ++ [name])) = some .directory)
    (hcheck : checkPath (root.join (ofNames (names ++ [name]))) = .ok ()) :
    ∃ fs', (ensureDirectory (root.join (ofNames (names ++ [name]))) : ExceptT OsError (StateM FileSystem) Unit).run fs
        = (.ok (), fs')
      ∧ Becomes fs fs' (paved place (names ++ [name]) fs.node?) := by
  obtain ⟨before, hpieces, hentry⟩ := entryAt_join hrooted hnames hshort hdirectories hcheck
  have hpaved : ∀ location, place <+: location ∧ location <+: place ++ (names ++ [name]) →
      location = place ++ (names ++ [name]) ∨ fs.node? location = some .directory := by
    rintro _ ⟨⟨below, rfl⟩, hwithin⟩
    rcases List.prefix_concat_iff.mp ((List.prefix_append_right_inj place).mp hwithin) with rfl | hshorter
    · exact .inl rfl
    · exact .inr (hdirectories below hshorter)
  have hne : place ++ (names ++ [name]) ≠ [] :=
    List.append_ne_nil_of_right_ne_nil _ (List.append_ne_nil_of_right_ne_nil _ (List.cons_ne_nil _ _))
  rw [← List.append_assoc] at hlast hne
  -- All that is paved but the last directory is there already, so what becomes of the nodes differs there at most.
  rcases hlast with hnone | hthere
  · refine ⟨_, ensureDirectory_of_made (makeDirectory_of_entryAt hentry hpieces hnone),
      (Becomes.put fs hne _).congr fun other => ?_⟩
    rw [paved]
    by_cases hsame : place ++ names ++ [name] = other
    · rw [if_pos hsame, if_pos]
      rw [← hsame, List.append_assoc]
      exact ⟨List.prefix_append _ _, List.prefix_rfl⟩
    · rw [if_neg hsame]
      split
      case isTrue hwithin =>
        refine (hpaved other hwithin).resolve_left fun hother => hsame ?_
        rw [hother, List.append_assoc]
      case isFalse => rfl
  · have hlocate : fs.locate .find (root.join (ofNames (names ++ [name]))) = .ok (place ++ names ++ [name]) := by
      refine locate_eq_ok.mpr ⟨hcheck, ?_⟩
      rw [hpieces]
      refine hentry.leads.concat hentry.isDirectory hentry.isName hentry.short fun target hlink => ?_
      rw [hthere] at hlink
      cases hlink
    refine ⟨fs, ensureDirectory_of_directory (resolve_eq_ok.mpr ⟨hlocate, hthere⟩), Becomes.refl fun other => ?_⟩
    rw [paved]
    split
    case isTrue hwithin =>
      rcases hpaved other hwithin with rfl | hdirectory
      · rw [← List.append_assoc]
        exact hthere
      · exact hdirectory
    case isFalse => rfl

/-- The directory right around a path below another one comes first, and then those around that one. -/
theorem parents_join (hrooted : Rooted fs root place) {last : String}
    (hnames : ∀ other ∈ names ++ [last] ++ [name], IsName other) :
    (root.join (ofNames (names ++ [last] ++ [name]))).parents
        = root.join (ofNames (names ++ [last])) :: (root.join (ofNames (names ++ [last]))).parents
      ∧ (root.join (ofNames (names ++ [last]))).text ≠ "" := by
  have hne : names ++ [last] ≠ [] := List.append_ne_nil_of_right_ne_nil _ (List.cons_ne_nil _ _)
  have hinner : ∀ other ∈ names ++ [last], IsName other :=
    fun other hother => hnames other (List.mem_append_left _ hother)
  obtain ⟨before, hpieces, -⟩ := hrooted.leads _ hne hinner
  rw [← List.append_assoc] at hpieces
  have hlast := hinner last List.mem_concat_self
  refine ⟨?_, text_ne_empty hpieces hlast.ne_empty⟩
  rw [join_concat hne hnames]
  exact parents_inside hpieces hlast (hnames name List.mem_concat_self)

theorem makeDirectory_of_unpaved (hrooted : Rooted fs root place)
    (hnames : ∀ other ∈ names ++ [name], IsName other)
    (hshort : ∀ other ∈ names ++ [name], other.utf8ByteSize ≤ nameLimit)
    (hfree : ∀ below, below <+: names → fs.node? (place ++ below) = none ∨ fs.node? (place ++ below) = some .directory)
    (hmissing : ∃ below, below <+: names ∧ fs.node? (place ++ below) ≠ some .directory)
    (hcheck : checkPath (root.join (ofNames (names ++ [name]))) = .ok ()) :
    fs.makeDirectory (root.join (ofNames (names ++ [name]))) = .error .notFound := by
  have hne : names ++ [name] ≠ [] := List.append_ne_nil_of_right_ne_nil _ (List.cons_ne_nil _ _)
  obtain ⟨before, hpieces, hleads⟩ := hrooted.leads _ hne hnames
  rw [← List.append_assoc] at hpieces
  obtain ⟨rest, hrest⟩ := hleads.walk_append
  refine makeDirectory_of_missing hcheck hpieces (hnames name List.mem_concat_self) ?_
  rw [hrest]
  exact enter_missing hrooted.isDirectory (fun other hother => hnames other (List.mem_append_left _ hother))
    (fun other hother => hshort other (List.mem_append_left _ hother)) hfree hmissing

/-- The directories around a path are made if nothing but directories is on the way down. -/
theorem ensureDirectories_paves (hrooted : Rooted fs root place)
    (hnames : ∀ other ∈ names ++ [name], IsName other)
    (hshort : ∀ other ∈ names ++ [name], other.utf8ByteSize ≤ nameLimit)
    (hfree : ∀ below, below <+: names → fs.node? (place ++ below) = none ∨ fs.node? (place ++ below) = some .directory)
    (hcheck : checkPath (root.join (ofNames (names ++ [name]))) = .ok ()) :
    ∃ fs', (ensureDirectories (root.join (ofNames (names ++ [name]))).parents
        : ExceptT OsError (StateM FileSystem) Unit).run fs = (.ok (), fs')
      ∧ Becomes fs fs' (paved place names fs.node?) := by
  have hplace := hrooted.isDirectory
  induction names using List.reverseRecOn generalizing name with
  | nil =>
    obtain ⟨before, hpieces, hleads⟩ := hrooted.leads _ (List.cons_ne_nil name []) hnames
    refine ⟨fs, ensureDirectories_of_leads hcheck hpieces hleads hplace, Becomes.refl fun location => ?_⟩
    rw [paved]
    split
    case isTrue hwithin =>
      rw [List.append_nil] at hwithin
      rw [← hwithin.1.eq_of_length_le hwithin.2.length_le]
      exact hplace
    case isFalse => rfl
  | append_singleton names last ih =>
    have hnamesInner : ∀ other ∈ names ++ [last], IsName other :=
      fun other hother => hnames other (List.mem_append_left _ hother)
    have hshortInner : ∀ other ∈ names ++ [last], other.utf8ByteSize ≤ nameLimit :=
      fun other hother => hshort other (List.mem_append_left _ hother)
    obtain ⟨hparents, htext⟩ := parents_join hrooted hnames
    have hcheckInner : checkPath (root.join (ofNames (names ++ [last]))) = .ok () := by
      refine checkPath_shorter hcheck (toList_prefix_of_mem_parents ?_) htext
      rw [hparents]
      exact List.mem_cons_self
    rw [hparents, ensureDirectories, if_neg htext]
    -- The last directory is tried first. Only if that fails are those around it made, and then it is tried again.
    by_cases hthere : ∀ below, below <+: names → fs.node? (place ++ below) = some .directory
    · obtain ⟨fs', hensure, hbecomes⟩ :=
        ensureDirectory_paves hrooted hnamesInner hshortInner hthere (hfree _ List.prefix_rfl) hcheckInner
      exact ⟨fs', run_tryCatch_of_ok hensure, hbecomes⟩
    · push Not at hthere
      have hfreeInner :=
        fun below hwithin => hfree below (List.IsPrefix.trans hwithin (List.prefix_append names [last]))
      have hmissing := makeDirectory_of_unpaved hrooted hnamesInner hshortInner hfreeInner hthere hcheckInner
      obtain ⟨paved, houter, hpaved⟩ := ih hnamesInner hshortInner hfreeInner hcheckInner
      have hlast : paved.node? (place ++ (names ++ [last])) = none
          ∨ paved.node? (place ++ (names ++ [last])) = some .directory := by
        rw [hpaved.nodes, Retoken.paved]
        split
        · exact .inr rfl
        · exact hfree _ List.prefix_rfl
      obtain ⟨fs', hensure, hbecomes⟩ :=
        ensureDirectory_paves (hrooted.kept (hpaved.kept_of_paved hfreeInner)) hnamesInner
        hshortInner (fun below hwithin => (hpaved.nodes _).trans (paved_below hwithin)) hlast hcheckInner
      refine ⟨fs', ?_, (hpaved.trans hbecomes).congr fun location => ?_⟩
      · rw [run_tryCatch_of_error (ensureDirectory_of_missing hmissing), if_pos rfl, run_bind_of_ok houter, hensure]
      · rw [funext hpaved.nodes, paved_concat]

end Disk

end Retoken
