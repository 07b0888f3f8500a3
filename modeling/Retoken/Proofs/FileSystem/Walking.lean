import Mathlib.Data.List.Induction
import Retoken.FileSystem.Operations
import Retoken.Proofs.FileSystem.Names
import Retoken.Proofs.Reading

/-!
# Where paths lead

`Leads` says step by step how a path leads from one location to another. A path of two parts leads where the second part leads from where the first one does, names lead down unless there is a link on the way, and a path leads where it did as long as the directories and links stay.
-/

namespace Retoken.FileSystem

open Retoken.Path

variable {fs fs' : FileSystem} {purpose : Purpose} {limit : Nat} {location place middle : Location}
  {piece name : String} {pieces first second names : List String} {path target : Path}

/-! ### Nodes -/

/-- What holds of the locations of any file system: they are made of names, and nothing stands below anything but a directory. -/
structure Proper (fs : FileSystem) : Prop where
  names : ∀ (location : Location) (node : Node), fs.node? location = some node → ∀ name ∈ location, IsName name
  directories : ∀ (location : Location) (name : String) (node : Node), fs.node? (location ++ [name]) = some node →
    fs.node? location = some .directory

theorem Proper.above {node : Node} (hproper : fs.Proper) (hnames : names ≠ [])
    (hnode : fs.node? (location ++ names) = some node) : fs.node? location = some .directory := by
  induction names using List.reverseRecOn generalizing node with
  | nil => exact absurd rfl hnames
  | append_singleton names name ih =>
    rw [← List.append_assoc] at hnode
    have hdirectory := hproper.directories (location ++ names) name node hnode
    by_cases hempty : names = []
    · subst hempty
      rw [List.append_nil] at hdirectory
      exact hdirectory
    · exact ih hempty hdirectory

/-- All that a directory is in is a directory. -/
theorem Proper.within (hproper : fs.Proper) (hnode : fs.node? location = some .directory) {above : Location}
    (hwithin : above <+: location) : fs.node? above = some .directory := by
  obtain ⟨rest, rfl⟩ := hwithin
  by_cases hempty : rest = []
  · rw [hempty, List.append_nil] at hnode
    exact hnode
  · exact hproper.above hempty hnode

theorem node?_of_ne_nil (hlocation : location ≠ []) : fs.node? location = fs.nodes[location]? :=
  if_neg hlocation

theorem node?_put (hlocation : location ≠ []) (node : Node) (other : Location) :
    (fs.put location node).node? other = if location = other then some node else fs.node? other := by
  rw [node?, node?]
  by_cases hroot : other = []
  · subst hroot
    rw [if_pos rfl, if_neg hlocation]
    rfl
  · rw [if_neg hroot, if_neg hroot]
    change (fs.nodes.insert location node)[other]? = _
    rw [Std.ExtTreeMap.getElem?_insert]
    simp only [Std.LawfulEqCmp.compare_eq_iff_eq]

theorem node?_erase (hlocation : location ≠ []) (other : Location) :
    (fs.erase location).node? other = if location = other then none else fs.node? other := by
  rw [node?, node?]
  by_cases hroot : other = []
  · subst hroot
    rw [if_pos rfl, if_neg hlocation]
    rfl
  · rw [if_neg hroot, if_neg hroot]
    change (fs.nodes.erase location)[other]? = _
    rw [Std.ExtTreeMap.getElem?_erase]
    simp only [Std.LawfulEqCmp.compare_eq_iff_eq]

theorem node?_root (fs : FileSystem) : fs.node? [] = some .directory :=
  if_pos rfl

theorem node?_eq_some {node : Node} : fs.node? location = some node
    ↔ location = [] ∧ node = .directory ∨ location ≠ [] ∧ (location, node) ∈ fs.nodes.toList := by
  by_cases hroot : location = []
  · rw [hroot, node?_root]
    simp [eq_comm]
  · rw [node?_of_ne_nil hroot, Std.ExtTreeMap.mem_toList_iff_getElem?_eq_some]
    simp [hroot]

theorem proper_iff : fs.Proper ↔ ∀ entry ∈ fs.nodes.toList, entry.1 ≠ [] →
    (∀ name ∈ entry.1, IsName name) ∧ fs.node? entry.1.dropLast = some .directory := by
  constructor
  · intro hproper entry hentry hroot
    have hnode : fs.node? entry.1 = some entry.2 := node?_eq_some.mpr (.inr ⟨hroot, hentry⟩)
    refine ⟨hproper.names _ _ hnode, hproper.directories _ (entry.1.getLast hroot) entry.2 ?_⟩
    rw [List.dropLast_append_getLast, hnode]
  · intro hall
    constructor
    · intro location node hnode
      rcases node?_eq_some.mp hnode with ⟨rfl, -⟩ | ⟨hroot, hentry⟩
      · exact fun _ hname => absurd hname List.not_mem_nil
      · exact (hall _ hentry hroot).1
    · intro location name node hnode
      rcases node?_eq_some.mp hnode with ⟨hroot, -⟩ | ⟨hroot, hentry⟩
      · exact absurd hroot (List.append_ne_nil_of_right_ne_nil _ (List.cons_ne_nil _ _))
      · have hdirectory := (hall _ hentry hroot).2
        rwa [List.dropLast_concat] at hdirectory

instance (fs : FileSystem) : Decidable fs.Proper :=
  decidable_of_iff' _ proper_iff

def Unlinked (fs : FileSystem) : Prop :=
  ∀ location target, fs.node? location ≠ some (.link target)

def isLink : Node → Bool
  | .link _ => true
  | .directory | .file _ => false

theorem unlinked_iff : fs.Unlinked ↔ ∀ entry ∈ fs.nodes.toList, entry.1 ≠ [] → isLink entry.2 = false := by
  constructor
  · intro hunlinked entry hentry hroot
    have hnode : fs.node? entry.1 = some entry.2 := node?_eq_some.mpr (.inr ⟨hroot, hentry⟩)
    cases hlink : entry.2 with
    | link target =>
      rw [hlink] at hnode
      exact absurd hnode (hunlinked entry.1 target)
    | directory => rfl
    | file bytes => rfl
  · intro hall location target hnode
    rcases node?_eq_some.mp hnode with ⟨-, hdirectory⟩ | ⟨hroot, hentry⟩
    · cases hdirectory
    · cases hall _ hentry hroot

instance (fs : FileSystem) : Decidable fs.Unlinked :=
  decidable_of_iff' _ unlinked_iff

theorem enter_eq_ok : fs.enter location = .ok () ↔ fs.node? location = some .directory := by
  rw [enter]
  cases fs.node? location with
  | none => simp
  | some node => cases node <;> simp

theorem child_eq_ok : child location name = .ok place ↔ name.utf8ByteSize ≤ nameLimit ∧ location ++ [name] = place := by
  rw [child]
  split
  case isTrue hlong => simp [Nat.not_le.mpr hlong]
  case isFalse hshort => simp [Nat.le_of_not_lt hshort]

/-! ### Leading -/

/-- The pieces of a path lead from one location to another along at most the given number of links. -/
inductive Leads (fs : FileSystem) (purpose : Purpose) : Nat → Location → List String → Location → Prop
  | done {limit : Nat} {location : Location} : Leads fs purpose limit location [] location
  | stay {limit : Nat} {location place : Location} {piece : String} {pieces : List String}
      (hdirectory : fs.node? location = some .directory) (hpiece : piece = "" ∨ piece = ".")
      (hrest : Leads fs purpose limit location pieces place) : Leads fs purpose limit location (piece :: pieces) place
  | up {limit : Nat} {location place : Location} {pieces : List String}
      (hdirectory : fs.node? location = some .directory)
      (hrest : Leads fs purpose limit location.dropLast pieces place) :
      Leads fs purpose limit location (".." :: pieces) place
  | down {limit : Nat} {location place : Location} {piece : String} {pieces : List String}
      (hdirectory : fs.node? location = some .directory) (hpiece : ¬ (piece = "" ∨ piece = ".")) (hup : piece ≠ "..")
      (hallowed : purpose.refuses pieces = false) (hshort : piece.utf8ByteSize ≤ nameLimit)
      (hnode : ∀ target, fs.node? (location ++ [piece]) ≠ some (.link target))
      (hrest : Leads fs purpose limit (location ++ [piece]) pieces place) :
      Leads fs purpose limit location (piece :: pieces) place
  | follow {limit : Nat} {location place : Location} {piece : String} {pieces : List String} {target : Path}
      (hdirectory : fs.node? location = some .directory) (hpiece : ¬ (piece = "" ∨ piece = ".")) (hup : piece ≠ "..")
      (hallowed : purpose.refuses pieces = false) (hshort : piece.utf8ByteSize ≤ nameLimit)
      (hnode : fs.node? (location ++ [piece]) = some (.link target))
      (hrest : Leads fs purpose limit (startOf target location) (target.pieces ++ pieces) place) :
      Leads fs purpose (limit + 1) location (piece :: pieces) place

def following (fs : FileSystem) (purpose : Purpose) : Nat → Path → Location → List String → Except OsError Location
  | 0 => fun _ _ _ => .error .tooManyLinks
  | limit + 1 => fun target location pieces =>
    fs.walk purpose limit (startOf target location) (target.pieces ++ pieces)

theorem walk_eq (fs : FileSystem) (purpose : Purpose) (limit : Nat) :
    fs.walk purpose limit = fs.walkToLink purpose (fs.following purpose limit) := by
  cases limit <;> rfl

theorem walk_cons (hdirectory : fs.node? location = some .directory) :
    fs.walk purpose limit location (piece :: pieces)
      = if piece = "" ∨ piece = "." then fs.walk purpose limit location pieces
        else if piece = ".." then fs.walk purpose limit location.dropLast pieces
        else if purpose.refuses pieces then .error .isADirectory
        else child location piece >>= fun next => match fs.node? next with
          | some (.link target) => fs.following purpose limit target location pieces
          | _ => fs.walk purpose limit next pieces := by
  rw [walk_eq, walkToLink, enter_eq_ok.mpr hdirectory]
  rfl

/-- A name leads to what it stands for in the directory, and along that if it is a link. -/
theorem walk_name (hdirectory : fs.node? location = some .directory) (hpiece : ¬ (piece = "" ∨ piece = "."))
    (hup : piece ≠ "..") (hallowed : purpose.refuses pieces = false) (hshort : piece.utf8ByteSize ≤ nameLimit) :
    fs.walk purpose limit location (piece :: pieces) = match fs.node? (location ++ [piece]) with
      | some (.link target) => fs.following purpose limit target location pieces
      | _ => fs.walk purpose limit (location ++ [piece]) pieces := by
  rw [walk_cons hdirectory, if_neg hpiece, if_neg hup, if_neg (by rw [hallowed]; exact Bool.false_ne_true),
    child_eq_ok.mpr ⟨hshort, rfl⟩]
  rfl

/-- A walk leads as far as the walks after links do. -/
theorem leads_of_following
    (hfollowing : ∀ target location pieces place, fs.following purpose limit target location pieces = .ok place →
      ∃ fewer, limit = fewer + 1 ∧ fs.Leads purpose fewer (startOf target location) (target.pieces ++ pieces) place)
    (hwalk : fs.walk purpose limit location pieces = .ok place) : fs.Leads purpose limit location pieces place := by
  induction pieces generalizing location with
  | nil =>
    rw [walk_eq] at hwalk
    cases hwalk
    exact .done
  | cons piece pieces ih =>
    have hdirectory : fs.node? location = some .directory := by
      rw [walk_eq, walkToLink] at hwalk
      obtain ⟨⟨⟩, hentered, -⟩ := except_bind_eq_ok.mp hwalk
      exact enter_eq_ok.mp hentered
    rw [walk_cons hdirectory] at hwalk
    by_cases hpiece : piece = "" ∨ piece = "."
    · rw [if_pos hpiece] at hwalk
      exact .stay hdirectory hpiece (ih hwalk)
    rw [if_neg hpiece] at hwalk
    by_cases hup : piece = ".."
    · subst hup
      rw [if_pos rfl] at hwalk
      exact .up hdirectory (ih hwalk)
    rw [if_neg hup] at hwalk
    cases hallowed : purpose.refuses pieces with
    | true =>
      rw [if_pos hallowed] at hwalk
      cases hwalk
    | false =>
      rw [if_neg (by rw [hallowed]; exact Bool.false_ne_true)] at hwalk
      obtain ⟨next, hchild, hwalk⟩ := except_bind_eq_ok.mp hwalk
      obtain ⟨hshort, rfl⟩ := child_eq_ok.mp hchild
      split at hwalk
      case h_1 target hlink =>
        obtain ⟨fewer, rfl, hrest⟩ := hfollowing target location pieces place hwalk
        exact .follow hdirectory hpiece hup hallowed hshort hlink hrest
      case h_2 hnode => exact .down hdirectory hpiece hup hallowed hshort (fun target => hnode target) (ih hwalk)

theorem leads_of_walk (hwalk : fs.walk purpose limit location pieces = .ok place) :
    fs.Leads purpose limit location pieces place := by
  induction limit generalizing location pieces place with
  | zero => exact leads_of_following (fun _ _ _ _ hfollow => by cases hfollow) hwalk
  | succ limit ih => exact leads_of_following (fun _ _ _ _ hfollow => ⟨limit, rfl, ih hfollow⟩) hwalk

theorem walk_of_leads (hleads : fs.Leads purpose limit location pieces place) :
    fs.walk purpose limit location pieces = .ok place := by
  induction hleads with
  | done =>
    rw [walk_eq]
    rfl
  | stay hdirectory hpiece _ ih => rw [walk_cons hdirectory, if_pos hpiece, ih]
  | up hdirectory _ ih => rw [walk_cons hdirectory, if_neg (by decide), if_pos rfl, ih]
  | down hdirectory hpiece hup hallowed hshort hnode _ ih =>
    rw [walk_name hdirectory hpiece hup hallowed hshort]
    split
    case h_1 target hlink => exact absurd hlink (hnode target)
    case h_2 => exact ih
  | follow hdirectory hpiece hup hallowed hshort hnode _ ih =>
    rw [walk_name hdirectory hpiece hup hallowed hshort, hnode]
    exact ih

theorem walk_eq_ok : fs.walk purpose limit location pieces = .ok place ↔ fs.Leads purpose limit location pieces place :=
  ⟨leads_of_walk, walk_of_leads⟩

theorem Leads.unique {other : Location} (hleads : fs.Leads purpose limit location pieces place)
    (hother : fs.Leads purpose limit location pieces other) : place = other := by
  have hwalk := walk_of_leads hleads
  rw [walk_of_leads hother] at hwalk
  exact (Except.ok.inj hwalk).symm

theorem Leads.split (hleads : fs.Leads purpose limit location (first ++ second) place) :
    ∃ middle rest, fs.Leads .find limit location first middle ∧ fs.Leads purpose rest middle second place := by
  generalize hpieces : first ++ second = pieces at hleads
  induction hleads generalizing first with
  | @done limit location =>
    obtain ⟨rfl, rfl⟩ := List.append_eq_nil_iff.mp hpieces
    exact ⟨location, limit, .done, .done⟩
  | @stay limit location place piece pieces hdirectory hpiece hrest ih =>
    rcases List.append_eq_cons_iff.mp hpieces with ⟨rfl, rfl⟩ | ⟨first, rfl, rfl⟩
    · exact ⟨location, limit, .done, .stay hdirectory hpiece hrest⟩
    · obtain ⟨middle, rest, hfirst, hsecond⟩ := ih rfl
      exact ⟨middle, rest, .stay hdirectory hpiece hfirst, hsecond⟩
  | @up limit location place pieces hdirectory hrest ih =>
    rcases List.append_eq_cons_iff.mp hpieces with ⟨rfl, rfl⟩ | ⟨first, rfl, rfl⟩
    · exact ⟨location, limit, .done, .up hdirectory hrest⟩
    · obtain ⟨middle, rest, hfirst, hsecond⟩ := ih rfl
      exact ⟨middle, rest, .up hdirectory hfirst, hsecond⟩
  | @down limit location place piece pieces hdirectory hpiece hup hallowed hshort hnode hrest ih =>
    rcases List.append_eq_cons_iff.mp hpieces with ⟨rfl, rfl⟩ | ⟨first, rfl, rfl⟩
    · exact ⟨location, limit, .done, .down hdirectory hpiece hup hallowed hshort hnode hrest⟩
    · obtain ⟨middle, rest, hfirst, hsecond⟩ := ih rfl
      exact ⟨middle, rest, .down hdirectory hpiece hup rfl hshort hnode hfirst, hsecond⟩
  | @follow limit location place piece pieces target hdirectory hpiece hup hallowed hshort hnode hrest ih =>
    rcases List.append_eq_cons_iff.mp hpieces with ⟨rfl, rfl⟩ | ⟨first, rfl, rfl⟩
    · exact ⟨location, limit + 1, .done, .follow hdirectory hpiece hup hallowed hshort hnode hrest⟩
    · obtain ⟨middle, rest, hfirst, hsecond⟩ := ih (List.append_assoc ..)
      exact ⟨middle, rest, .follow hdirectory hpiece hup rfl hshort hnode hfirst, hsecond⟩

theorem Leads.after {middle : Location} (hfirst : fs.Leads .find limit location first middle)
    (hleads : fs.Leads purpose limit location (first ++ second) place) :
    ∃ rest, fs.Leads purpose rest middle second place := by
  obtain ⟨found, rest, hfound, hsecond⟩ := hleads.split
  rw [hfound.unique hfirst] at hsecond
  exact ⟨rest, hsecond⟩

theorem Leads.of_separator (hleads : fs.Leads purpose limit location [""] place) : place = location := by
  generalize hpieces : [""] = pieces at hleads
  cases hleads with
  | done => cases hpieces
  | stay _ _ hrest =>
    cases hpieces
    cases hrest
    rfl
  | up => exact absurd (List.cons.inj hpieces).1 (by decide)
  | down _ hpiece => exact absurd (.inl (List.cons.inj hpieces).1.symm) hpiece
  | follow _ hpiece => exact absurd (.inl (List.cons.inj hpieces).1.symm) hpiece

theorem Leads.cases_name {pieces : List String} (hleads : fs.Leads purpose limit location (name :: pieces) place)
    (hname : IsName name) :
    fs.node? location = some .directory ∧ name.utf8ByteSize ≤ nameLimit
      ∧ (fs.Leads purpose limit (location ++ [name]) pieces place
        ∨ ∃ target, fs.node? (location ++ [name]) = some (.link target)) := by
  cases hleads with
  | stay _ hpiece => exact absurd hpiece hname.not_blank
  | up => exact absurd rfl hname.ne_up
  | down hdirectory _ _ _ hshort _ hrest => exact ⟨hdirectory, hshort, .inl hrest⟩
  | follow hdirectory _ _ _ hshort hnode => exact ⟨hdirectory, hshort, .inr ⟨_, hnode⟩⟩

/-- Names lead down where there are no links on the way. -/
theorem Leads.place_eq (hnames : ∀ name ∈ names, IsName name)
    (hunlinked : ∀ below target, below ≠ [] → below <+: names → fs.node? (location ++ below) ≠ some (.link target))
    (hleads : fs.Leads purpose limit location names place) : place = location ++ names := by
  induction names generalizing location with
  | nil =>
    cases hleads
    rw [List.append_nil]
  | cons name names ih =>
    obtain ⟨-, -, hrest | ⟨target, hlink⟩⟩ := hleads.cases_name (hnames name List.mem_cons_self)
    · have hbelow : ∀ below target, below ≠ [] → below <+: names →
          fs.node? (location ++ [name] ++ below) ≠ some (.link target) := by
        intro below target _ hwithin
        rw [List.append_assoc]
        exact hunlinked (name :: below) target (List.cons_ne_nil _ _) ((List.prefix_cons_inj name).mpr hwithin)
      rw [ih (fun other hother => hnames other (List.mem_cons_of_mem _ hother)) hbelow hrest, List.append_assoc]
      rfl
    · have hfirst : [name] <+: name :: names := (List.prefix_cons_inj name).mpr (List.nil_prefix)
      exact absurd hlink (hunlinked [name] target (List.cons_ne_nil _ _) hfirst)

/-- A path leads along names only if they are short and directories stand on the way down. -/
theorem Leads.along_names (hnames : ∀ name ∈ names, IsName name)
    (hunlinked : ∀ below target, below ≠ [] → below <+: names → fs.node? (location ++ below) ≠ some (.link target))
    (hleads : fs.Leads purpose limit location names place) :
    (∀ name ∈ names, name.utf8ByteSize ≤ nameLimit)
      ∧ ∀ below, below <+: names → below ≠ names → fs.node? (location ++ below) = some .directory := by
  induction names generalizing location with
  | nil => exact ⟨nofun, fun below hwithin hother => absurd (List.prefix_nil.mp hwithin) hother⟩
  | cons name names ih =>
    obtain ⟨hdirectory, hshort, hrest | ⟨target, hlink⟩⟩ := hleads.cases_name (hnames name List.mem_cons_self)
    · obtain ⟨hshorts, hdirectories⟩ := ih (fun other hother => hnames other (List.mem_cons_of_mem _ hother))
        (fun below target _ hwithin => by
          rw [List.append_assoc]
          exact hunlinked (name :: below) target (List.cons_ne_nil _ _) ((List.prefix_cons_inj name).mpr hwithin)) hrest
      refine ⟨List.forall_mem_cons.mpr ⟨hshort, hshorts⟩, fun below hwithin hother => ?_⟩
      rcases List.prefix_cons_iff.mp hwithin with rfl | ⟨later, rfl, hlater⟩
      · rw [List.append_nil]
        exact hdirectory
      · have hbelow := hdirectories later hlater fun hsame => hother (congrArg (name :: ·) hsame)
        rw [List.append_assoc] at hbelow
        exact hbelow
    · have hfirst : [name] <+: name :: names := (List.prefix_cons_inj name).mpr (List.nil_prefix)
      exact absurd hlink (hunlinked [name] target (List.cons_ne_nil _ _) hfirst)

theorem Purpose.refuses_concat (purpose : Purpose) (pieces : List String) (hname : name ≠ "") :
    purpose.refuses (pieces ++ [name]) = false := by
  cases purpose with
  | find => rfl
  | create => simp [Purpose.refuses, hname]

theorem Leads.concat (hleads : fs.Leads .find limit location pieces place)
    (hdirectory : fs.node? place = some .directory) (hname : IsName name) (hshort : name.utf8ByteSize ≤ nameLimit)
    (hnode : ∀ target, fs.node? (place ++ [name]) ≠ some (.link target)) :
    fs.Leads purpose limit location (pieces ++ [name]) (place ++ [name]) := by
  have hallowed := fun pieces => purpose.refuses_concat pieces hname.ne_empty
  induction hleads with
  | done =>
    refine .down hdirectory hname.not_blank hname.ne_up ?_ hshort hnode .done
    cases purpose <;> rfl
  | stay hstart hpiece _ ih => exact .stay hstart hpiece (ih hdirectory hnode)
  | up hstart _ ih => exact .up hstart (ih hdirectory hnode)
  | down hstart hpiece hup _ hpieceShort hfree _ ih =>
    exact .down hstart hpiece hup (hallowed _) hpieceShort hfree (ih hdirectory hnode)
  | follow hstart hpiece hup _ hpieceShort hlink _ ih =>
    have hrest := ih hdirectory hnode
    rw [List.append_assoc] at hrest
    exact .follow hstart hpiece hup (hallowed _) hpieceShort hlink hrest

/-- A path leads where it did as long as directories and links stay, and no links are made. -/
theorem Leads.kept (hdirectories : ∀ location, fs.node? location = some .directory →
    fs'.node? location = some .directory)
    (hlinks : ∀ location target, fs'.node? location = some (.link target) ↔ fs.node? location = some (.link target))
    (hleads : fs.Leads purpose limit location pieces place) : fs'.Leads purpose limit location pieces place := by
  induction hleads with
  | done => exact .done
  | stay hdirectory hpiece _ ih => exact .stay (hdirectories _ hdirectory) hpiece ih
  | up hdirectory _ ih => exact .up (hdirectories _ hdirectory) ih
  | down hdirectory hpiece hup hallowed hshort hnode _ ih =>
    exact .down (hdirectories _ hdirectory) hpiece hup hallowed hshort
      (fun target hlink => hnode target ((hlinks _ target).mp hlink)) ih
  | follow hdirectory hpiece hup hallowed hshort hnode _ ih =>
    exact .follow (hdirectories _ hdirectory) hpiece hup hallowed hshort ((hlinks _ _).mpr hnode) ih

end Retoken.FileSystem
