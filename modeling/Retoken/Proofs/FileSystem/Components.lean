import Retoken.Proofs.FileSystem.Furnishing
import Retoken.Proofs.Run.Accepting

/-!
# Paths with the same components

The components of a path leave out what adds nothing to it, and a walk along the path does not miss it. So two paths with the same components lead to the same place if they lead anywhere. Going on along names adds these names to the components, and to where the path leads.
-/

namespace Retoken

open Retoken.Path

variable {path other : Path} {names pieces thinned : List String}

namespace Path

/-! ### Components and pieces -/

/-- What a component stands for on a walk, if it says where to go. -/
def Component.piece? : Component → Option String
  | root | here => none
  | up => some ".."
  | name text => some text

theorem components_eq (path : Path) : path.components = path.anchor.components ++ path.pieces.filterMap component? := by
  rw [components]
  cases hanchor : path.anchor with
  | root =>
    rw [pieces_of_root hanchor]
    rfl
  | here =>
    obtain ⟨later, hbody, hpieces⟩ := pieces_of_here hanchor
    rw [hbody, hpieces]
    rfl
  | implicit => rw [pieces_of_implicit hanchor]

theorem piece?_component? (piece : String) :
    (component? piece).bind Component.piece? = if piece = "" ∨ piece = "." then none else some piece := by
  rw [component?]
  by_cases hblank : piece = "" ∨ piece = "."
  · rw [if_pos hblank, if_pos hblank]
    rfl
  · rw [if_neg hblank, if_neg hblank]
    by_cases hup : piece = ".."
    · rw [if_pos hup, hup]
      rfl
    · rw [if_neg hup]
      rfl

theorem isAbsolute_eq_head (path : Path) : path.isAbsolute = (path.components.head? == some .root) := by
  have hnever : ∀ pieces : List String, Component.root ∉ pieces.filterMap component? := by
    intro pieces hmem
    obtain ⟨piece, -, hpiece⟩ := List.mem_filterMap.mp hmem
    rw [component?] at hpiece
    split at hpiece
    · cases hpiece
    · split at hpiece <;> cases hpiece
  rw [isAbsolute, components_eq]
  cases path.anchor with
  | root => rfl
  | here => rfl
  | implicit =>
    change false = ((path.pieces.filterMap component?).head? == some .root)
    refine (beq_eq_false_iff_ne.mpr fun hhead => ?_).symm
    exact hnever _ (List.mem_of_head? hhead)

/-! ### Leaving out what adds nothing -/

/-- Some pieces without some of those that add nothing. -/
inductive Thins : List String → List String → Prop
  | nil : Thins [] []
  | drop {piece : String} {pieces thinned : List String} (hblank : piece = "" ∨ piece = ".")
      (hrest : Thins pieces thinned) :
      Thins (piece :: pieces) thinned
  | keep {piece : String} {pieces thinned : List String} (hrest : Thins pieces thinned) :
      Thins (piece :: pieces) (piece :: thinned)

theorem Thins.append_left (hthins : Thins pieces thinned) (first : List String) :
    Thins (first ++ pieces) (first ++ thinned) := by
  induction first with
  | nil => exact hthins
  | cons piece first ih => exact .keep ih

/-- The components say which pieces there are besides those that add nothing. -/
theorem thins_components (path : Path) : Thins path.pieces (path.components.filterMap Component.piece?) := by
  have hanchor : path.anchor.components.filterMap Component.piece? = [] := by cases path.anchor <;> rfl
  rw [components_eq, List.filterMap_append, hanchor, List.nil_append, List.filterMap_filterMap]
  induction path.pieces with
  | nil => exact .nil
  | cons piece pieces ih =>
    rw [List.filterMap_cons, piece?_component?]
    by_cases hblank : piece = "" ∨ piece = "."
    · rw [if_pos hblank]
      exact .drop hblank ih
    · rw [if_neg hblank]
      exact .keep ih

/-! ### Going on along names -/

theorem anchor_join (hne : names ≠ []) (hnames : ∀ name ∈ names, IsName name) (hpath : path.text ≠ "") :
    (path.join (ofNames names)).anchor = path.anchor := by
  obtain ⟨before, hjoined, hbefore⟩ := toList_join hne hnames hpath
  rw [anchor, anchor, hjoined]
  rcases List.eq_nil_or_concat before with rfl | ⟨init, last, rfl⟩
  · rcases hbefore with hsame | hseparator
    · exact absurd (String.toList_eq_nil_iff.mp hsame) hpath
    · rw [hseparator]
      rfl
  · have hnonempty : init.concat last ≠ [] := by simp
    rw [splitAnchor_append hnonempty]
    rcases hbefore with hsame | hseparator
    · rw [hsame]
    · rw [hseparator, splitAnchor_append hnonempty]

theorem components_join (path : Path) (hne : names ≠ []) (hnames : ∀ name ∈ names, IsName name) :
    (path.join (ofNames names)).components = path.components ++ names.map .name := by
  by_cases hpath : path.text = ""
  · have hempty : path.components = [] := by
      rw [components, anchor, body, hpath]
      rfl
    rw [join_of_empty hpath hne hnames, components_ofNames hne hnames, hempty, List.nil_append]
  · obtain ⟨before, hpieces, hbefore⟩ := pieces_join hne hnames hpath
    rw [components_eq, components_eq, anchor_join hne hnames hpath, hpieces, List.filterMap_append,
      filterMap_component? hnames, List.append_assoc]
    rcases hbefore with hsame | hseparator
    · rw [hsame]
    · rw [hseparator, List.filterMap_append]
      simp [component?]

theorem name_injective : Function.Injective Component.name :=
  fun _ _ heq => Component.name.inj heq

theorem mem_toList_ofNames {c : Char} (hmem : c ∈ (ofNames names).text.toList) :
    c = '/' ∨ ∃ name ∈ names, c ∈ name.toList := by
  induction names with
  | nil => cases hmem
  | cons name names ih =>
    by_cases hlast : names = []
    · subst hlast
      rw [ofNames, String.intercalate_singleton] at hmem
      exact .inr ⟨name, List.mem_singleton.mpr rfl, hmem⟩
    · rw [toList_ofNames_cons name hlast] at hmem
      rcases List.mem_append.mp hmem with hfirst | hlater
      · exact .inr ⟨name, List.mem_cons_self, hfirst⟩
      · rcases List.mem_cons.mp hlater with hslash | hlater
        · exact .inl hslash
        · rcases ih hlater with hslash | ⟨found, hfound, hc⟩
          · exact .inl hslash
          · exact .inr ⟨found, List.mem_cons_of_mem name hfound, hc⟩

end Path

namespace FileSystem

variable {fs : FileSystem} {root resolved resolved' : Path} {location place : Location} {limit : Nat} {node : Node}

/-! ### Where the paths lead -/

theorem Leads.thin (hleads : fs.Leads .find limit location pieces place) (hthins : Thins pieces thinned) :
    fs.Leads .find limit location thinned place := by
  induction hleads generalizing thinned with
  | done =>
    cases hthins
    exact .done
  | stay hdirectory hpiece _ ih =>
    cases hthins with
    | drop _ hrest => exact ih hrest
    | keep hrest => exact .stay hdirectory hpiece (ih hrest)
  | up hdirectory _ ih =>
    cases hthins with
    | drop hblank => exact absurd hblank (by decide)
    | keep hrest => exact .up hdirectory (ih hrest)
  | down hdirectory hpiece hup _ hshort hnode _ ih =>
    cases hthins with
    | drop hblank => exact absurd hblank hpiece
    | keep hrest => exact .down hdirectory hpiece hup rfl hshort hnode (ih hrest)
  | follow hdirectory hpiece hup _ hshort hnode _ ih =>
    cases hthins with
    | drop hblank => exact absurd hblank hpiece
    | keep hrest => exact .follow hdirectory hpiece hup rfl hshort hnode (ih (hrest.append_left _))

theorem canonical_eq_ok : fs.canonical path = .ok resolved
    ↔ checkNonempty path = .ok ()
      ∧ ∃ place node, fs.Leads .find linkLimit (startOf path fs.workingDirectory) path.pieces place
      ∧ fs.node? place = some node ∧ resolved = pathTo place := by
  rw [canonical, except_bind_eq_ok]
  constructor
  · rintro ⟨⟨⟩, hcheck, hcanonical⟩
    obtain ⟨place, hwalk, hcanonical⟩ := except_bind_eq_ok.mp hcanonical
    refine ⟨hcheck, ?_⟩
    rw [nodeAt] at hcanonical
    split at hcanonical
    case h_1 node hnode =>
      cases hcanonical
      exact ⟨place, node, leads_of_walk hwalk, hnode, rfl⟩
    case h_2 => cases hcanonical
  · rintro ⟨hcheck, place, node, hleads, hnode, rfl⟩
    refine ⟨(), hcheck, except_bind_eq_ok.mpr ⟨place, walk_of_leads hleads, ?_⟩⟩
    rw [nodeAt, hnode]
    rfl

/-- Paths with the same components lead to the same place. -/
theorem canonical_unique (hsame : path.components = other.components) (hpath : fs.canonical path = .ok resolved)
    (hother : fs.canonical other = .ok resolved') : resolved = resolved' := by
  obtain ⟨-, place, _, hleads, -, rfl⟩ := canonical_eq_ok.mp hpath
  obtain ⟨-, place', _, hleads', -, rfl⟩ := canonical_eq_ok.mp hother
  have hstart : startOf path fs.workingDirectory = startOf other fs.workingDirectory := by
    rw [startOf, startOf, isAbsolute_eq_head, isAbsolute_eq_head, hsame]
  have hthin := hleads.thin (thins_components path)
  rw [hsame, hstart] at hthin
  rw [hthin.unique (hleads'.thin (thins_components other))]

/-- What holds of the names of any file system besides what makes them names. -/
def Nameable (fs : FileSystem) : Prop :=
  ∀ (location : Location) (node : Node), fs.node? location = some node →
    ∀ name ∈ location, name.utf8ByteSize ≤ nameLimit ∧ '\x00' ∉ name.toList

theorem nameable_iff : fs.Nameable ↔ ∀ entry ∈ fs.nodes.toList, entry.1 ≠ [] →
    ∀ name ∈ entry.1, name.utf8ByteSize ≤ nameLimit ∧ '\x00' ∉ name.toList := by
  constructor
  · intro hnameable entry hentry hroot
    exact hnameable _ _ (node?_eq_some.mpr (.inr ⟨hroot, hentry⟩))
  · intro hall location node hnode
    rcases node?_eq_some.mp hnode with ⟨rfl, -⟩ | ⟨hroot, hentry⟩
    · exact fun _ hname => absurd hname List.not_mem_nil
    · exact hall _ hentry hroot

instance (fs : FileSystem) : Decidable fs.Nameable :=
  decidable_of_iff' _ nameable_iff

theorem Leads.down_names (hleads : fs.Leads .find limit location pieces place) (hproper : fs.Proper)
    (hnameable : fs.Nameable)
    (hnode : fs.node? (place ++ names) = some node) (hunlinked : ∀ target, node ≠ .link target) :
    fs.Leads .find limit location (pieces ++ names) (place ++ names) := by
  induction names using List.reverseRecOn generalizing node with
  | nil =>
    rw [List.append_nil, List.append_nil]
    exact hleads
  | append_singleton names name ih =>
    rw [← List.append_assoc] at hnode ⊢
    rw [← List.append_assoc]
    have hdirectory := hproper.directories _ _ _ hnode
    have hname := hproper.names _ _ hnode name List.mem_concat_self
    have hshort := (hnameable _ _ hnode name List.mem_concat_self).1
    refine (ih hdirectory nofun).concat hdirectory hname hshort fun target hlink => ?_
    rw [hnode] at hlink
    exact hunlinked target (Option.some.inj hlink)

theorem checkNonempty_eq_ok : checkNonempty path = .ok () ↔ path.text ≠ "" ∧ '\x00' ∉ path.text.toList := by
  rw [checkNonempty]
  by_cases hempty : path.text = ""
  · simp [hempty]
  · by_cases hnul : '\x00' ∈ path.text.toList <;> simp [hempty, hnul]

theorem checkNonempty_join (hroot : checkNonempty root = .ok ()) (hne : names ≠ [])
    (hnames : ∀ name ∈ names, IsName name)
    (hfree : ∀ name ∈ names, '\x00' ∉ name.toList) : checkNonempty (root.join (ofNames names)) = .ok () := by
  obtain ⟨htext, hnul⟩ := checkNonempty_eq_ok.mp hroot
  obtain ⟨before, hjoined, hbefore⟩ := toList_join hne hnames htext
  have hwithin : before ⊆ root.text.toList := by
    rcases hbefore with hsame | hseparator
    · rw [hsame]
      exact List.Subset.refl _
    · rw [hseparator]
      exact List.subset_append_left _ _
  refine checkNonempty_eq_ok.mpr ⟨fun hempty => ?_, fun hmem => ?_⟩
  · rw [hempty] at hjoined
    exact List.append_ne_nil_of_right_ne_nil _ (List.cons_ne_nil _ _) hjoined.symm
  · rw [hjoined] at hmem
    rcases List.mem_append.mp hmem with hfirst | hlater
    · exact hnul (hwithin hfirst)
    · rcases List.mem_cons.mp hlater with hslash | hlater
      · exact absurd hslash (by decide)
      · rcases mem_toList_ofNames hlater with hslash | ⟨name, hname, hc⟩
        · exact absurd hslash (by decide)
        · exact hfree name hname hc

/-- The path without links to a file below a directory, however long the path along the names is. -/
theorem canonical_join (hproper : fs.Proper) (hnameable : fs.Nameable)
    (hroot : fs.resolve root = .ok (place, .directory))
    (hne : names ≠ []) (hnode : fs.node? (place ++ names) = some node) (hunlinked : ∀ target, node ≠ .link target) :
    fs.canonical (root.join (ofNames names)) = .ok (pathTo (place ++ names)) := by
  have hnames : ∀ name ∈ names, IsName name := fun name hname =>
    hproper.names _ _ hnode name (List.mem_append_right place hname)
  obtain ⟨before, hpieces, hbefore⟩ := (Rooted.of_resolve hroot).leads names hne hnames
  have hleads := hbefore.down_names hproper hnameable hnode hunlinked
  rw [← hpieces] at hleads
  obtain ⟨⟨⟩, hcheck, -⟩ := except_bind_eq_ok.mp (locate_eq_ok.mp (resolve_eq_ok.mp hroot).1).1
  refine canonical_eq_ok.mpr ⟨checkNonempty_join hcheck hne hnames fun name hname => ?_, _, _, hleads, hnode, rfl⟩
  exact (hnameable _ _ hnode name (List.mem_append_right place hname)).2

end FileSystem

end Retoken
