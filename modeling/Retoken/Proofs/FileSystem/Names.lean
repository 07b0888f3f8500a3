import Mathlib.Data.List.Basic
import Mathlib.Tactic.MkIffOfInductiveProp
import Retoken.FileSystem.Path

/-!
# Paths made of names

A path that goes on along the names of directory entries is walked as the path before them is and then name by name. A text at its end belongs to the last name.
-/

namespace Retoken.Path

@[mk_iff]
structure IsName (name : String) : Prop where
  ne_empty : name ≠ ""
  ne_here : name ≠ "."
  ne_up : name ≠ ".."
  free : '/' ∉ name.toList

instance (name : String) : Decidable (IsName name) :=
  decidable_of_iff' _ (isName_iff name)

theorem IsName.not_blank {name : String} (hname : IsName name) : ¬ (name = "" ∨ name = ".") :=
  not_or.mpr ⟨hname.ne_empty, hname.ne_here⟩

variable {name suffix : String} {names : List String} {path : Path} {first second : List Char}

/-! ### Pieces of texts -/

theorem splitAtSlashes_ne_nil (text : List Char) : splitAtSlashes text ≠ [] := by
  induction text with
  | nil => exact List.cons_ne_nil _ _
  | cons c text ih =>
    by_cases hslash : c = '/'
    · subst hslash
      exact List.cons_ne_nil _ _
    · rw [splitAtSlashes]
      · cases hpieces : splitAtSlashes text <;> exact List.cons_ne_nil _ _
      · exact hslash

theorem splitAtSlashes_cons {c : Char} (hslash : c ≠ '/') {text piece : List Char} {pieces : List (List Char)}
    (hpieces : splitAtSlashes text = piece :: pieces) : splitAtSlashes (c :: text) = (c :: piece) :: pieces := by
  rw [splitAtSlashes, hpieces]
  exact hslash

theorem splitAtSlashes_free (hfree : '/' ∉ first) : splitAtSlashes first = [first] := by
  induction first with
  | nil => rfl
  | cons c first ih =>
    rw [List.mem_cons, not_or] at hfree
    exact splitAtSlashes_cons (Ne.symm hfree.1) (ih hfree.2)

theorem splitAtSlashes_append (first second : List Char) :
    splitAtSlashes (first ++ '/' :: second) = splitAtSlashes first ++ splitAtSlashes second := by
  induction first with
  | nil => rfl
  | cons c first ih =>
    by_cases hslash : c = '/'
    · subst hslash
      exact congrArg ([] :: ·) ih
    · obtain ⟨piece, pieces, hpieces⟩ := List.exists_cons_of_ne_nil (splitAtSlashes_ne_nil first)
      rw [hpieces, List.cons_append] at ih
      rw [List.cons_append, splitAtSlashes_cons hslash ih, splitAtSlashes_cons hslash hpieces]
      rfl

theorem splitAtSlashes_suffix {text last : List Char} {before : List (List Char)} (hfree : '/' ∉ second)
    (hpieces : splitAtSlashes text = before ++ [last]) :
    splitAtSlashes (text ++ second) = before ++ [last ++ second] := by
  induction text generalizing before last with
  | nil =>
    obtain ⟨rfl, rfl⟩ : before = [] ∧ last = [] := by
      rw [splitAtSlashes] at hpieces
      cases before with
      | nil => exact ⟨rfl, (List.singleton_inj.mp hpieces).symm⟩
      | cons piece before => cases before <;> cases hpieces
    exact splitAtSlashes_free hfree
  | cons c text ih =>
    obtain ⟨front, lastPiece, hsplit⟩ :=
      (List.eq_nil_or_concat (splitAtSlashes text)).resolve_left (splitAtSlashes_ne_nil text)
    rw [List.concat_eq_append] at hsplit
    have hrest := ih hsplit
    by_cases hslash : c = '/'
    · subst hslash
      rw [splitAtSlashes, hsplit, ← List.cons_append] at hpieces
      obtain ⟨rfl, hlast⟩ := List.append_inj' hpieces rfl
      obtain rfl := List.singleton_inj.mp hlast
      rw [List.cons_append, splitAtSlashes, hrest, List.cons_append]
    · cases front with
      | nil =>
        rw [splitAtSlashes_cons hslash hsplit, ← List.nil_append [_]] at hpieces
        obtain ⟨rfl, hlast⟩ := List.append_inj' hpieces rfl
        obtain rfl := List.singleton_inj.mp hlast
        exact splitAtSlashes_cons hslash hrest
      | cons piece front =>
        rw [List.cons_append] at hsplit
        rw [splitAtSlashes_cons hslash hsplit, ← List.cons_append] at hpieces
        obtain ⟨rfl, hlast⟩ := List.append_inj' hpieces rfl
        obtain rfl := List.singleton_inj.mp hlast
        exact splitAtSlashes_cons hslash hrest

theorem free_of_mem_splitAtSlashes {text piece : List Char} (hpiece : piece ∈ splitAtSlashes text) : '/' ∉ piece := by
  induction text generalizing piece with
  | nil =>
    rw [List.mem_singleton.mp hpiece]
    exact List.not_mem_nil
  | cons c text ih =>
    by_cases hslash : c = '/'
    · subst hslash
      rcases List.mem_cons.mp hpiece with rfl | hlater
      · exact List.not_mem_nil
      · exact ih hlater
    · obtain ⟨first, later, hsplit⟩ := List.exists_cons_of_ne_nil (splitAtSlashes_ne_nil text)
      rw [hsplit] at ih
      rw [splitAtSlashes_cons hslash hsplit] at hpiece
      rcases List.mem_cons.mp hpiece with rfl | hlater
      · rw [List.mem_cons, not_or]
        exact ⟨Ne.symm hslash, ih List.mem_cons_self⟩
      · exact ih (List.mem_cons_of_mem _ hlater)

theorem free_of_mem_pieces (hname : name ∈ path.pieces) : '/' ∉ name.toList := by
  obtain ⟨chars, hchars, rfl⟩ := List.mem_map.mp hname
  rw [String.toList_ofList]
  exact free_of_mem_splitAtSlashes hchars

/-! ### Names in a row -/

theorem toList_ofNames_cons (name : String) (hnames : names ≠ []) :
    (ofNames (name :: names)).text.toList = name.toList ++ '/' :: (ofNames names).text.toList := by
  obtain ⟨next, rest, rfl⟩ := List.exists_cons_of_ne_nil hnames
  rw [ofNames, String.intercalate_cons_cons, String.toList_append, String.toList_append, List.append_assoc]
  rfl

theorem splitAtSlashes_ofNames (hne : names ≠ []) (hfree : ∀ name ∈ names, '/' ∉ name.toList) :
    splitAtSlashes (ofNames names).text.toList = names.map String.toList := by
  induction names with
  | nil => exact absurd rfl hne
  | cons name names ih =>
    have hfirst := hfree name List.mem_cons_self
    by_cases hrest : names = []
    · subst hrest
      rw [ofNames, String.intercalate_singleton]
      exact splitAtSlashes_free hfirst
    · rw [toList_ofNames_cons name hrest, splitAtSlashes_append, splitAtSlashes_free hfirst,
        ih hrest fun other hother => hfree other (List.mem_cons_of_mem _ hother)]
      rfl

theorem pieces_ofNames (hne : names ≠ []) (hnames : ∀ name ∈ names, IsName name) :
    splitAtSlashes (ofNames names).text.toList = names.map String.toList :=
  splitAtSlashes_ofNames hne fun name hname => (hnames name hname).free

/-- Names start with something that is no separator. -/
theorem toList_ofNames (hne : names ≠ []) (hnames : ∀ name ∈ names, IsName name) :
    ∃ c rest, (ofNames names).text.toList = c :: rest ∧ c ≠ '/' := by
  obtain ⟨name, later, rfl⟩ := List.exists_cons_of_ne_nil hne
  have hname := hnames name List.mem_cons_self
  have hnonempty : name.toList ≠ [] := fun hnil => hname.ne_empty (String.toList_eq_nil_iff.mp hnil)
  obtain ⟨c, rest, hchars⟩ := List.exists_cons_of_ne_nil hnonempty
  have hslash : c ≠ '/' := by
    rintro rfl
    exact hname.free (by rw [hchars]; exact List.mem_cons_self)
  by_cases hlater : later = []
  · subst hlater
    refine ⟨c, rest, ?_, hslash⟩
    rw [ofNames, String.intercalate_singleton, hchars]
  · refine ⟨c, rest ++ '/' :: (ofNames later).text.toList, ?_, hslash⟩
    rw [toList_ofNames_cons name hlater, hchars, List.cons_append]

/-! ### Going on along names -/

theorem isAbsolute_eq (path : Path) : path.isAbsolute = (path.text.toList.head? == some '/') := by
  rw [isAbsolute, anchor]
  cases htext : path.text.toList with
  | nil => rfl
  | cons c rest =>
    rw [splitAnchor.eq_def]
    split <;> simp_all

theorem isAbsolute_ofNames (hne : names ≠ []) (hnames : ∀ name ∈ names, IsName name) :
    (ofNames names).isAbsolute = false := by
  obtain ⟨c, rest, hchars, hslash⟩ := toList_ofNames hne hnames
  rw [isAbsolute_eq, hchars]
  simpa using hslash

theorem toList_join (hne : names ≠ []) (hnames : ∀ name ∈ names, IsName name) (hpath : path.text ≠ "") :
    ∃ before, (path.join (ofNames names)).text.toList = before ++ '/' :: (ofNames names).text.toList
      ∧ (path.text.toList = before ∨ path.text.toList = before ++ ['/']) := by
  have hnonempty : path.text.toList ≠ [] := fun hnil => hpath (String.toList_eq_nil_iff.mp hnil)
  rw [join, isAbsolute_ofNames hne hnames, if_neg Bool.false_ne_true, List.getLast?_eq_some_getLast hnonempty]
  by_cases hlast : path.text.toList.getLast hnonempty = '/'
  · have hsplit : path.text.toList = path.text.toList.dropLast ++ ['/'] := by
      rw [← hlast, List.dropLast_append_getLast hnonempty]
    refine ⟨path.text.toList.dropLast, ?_, .inr hsplit⟩
    rw [if_pos (by simpa using hlast), String.toList_append]
    conv_lhs => rw [hsplit]
    rw [List.append_assoc]
    rfl
  · refine ⟨path.text.toList, ?_, .inl rfl⟩
    rw [if_neg (by simpa using hlast), String.toList_append, String.toList_append, List.append_assoc]
    rfl

/-- A path is walked along before the names behind it. A separator at its end makes no difference then. -/
theorem pieces_join (hne : names ≠ []) (hnames : ∀ name ∈ names, IsName name) (hpath : path.text ≠ "") :
    ∃ before, (path.join (ofNames names)).pieces = before ++ names
      ∧ (path.pieces = before ∨ path.pieces = before ++ [""]) := by
  obtain ⟨before, hjoined, hbefore⟩ := toList_join hne hnames hpath
  refine ⟨(splitAtSlashes before).map String.ofList, ?_, ?_⟩
  · have hback : String.ofList ∘ String.toList = id := funext fun _ => String.ofList_toList
    rw [pieces, hjoined, splitAtSlashes_append, pieces_ofNames hne hnames, List.map_append, List.map_map, hback,
      List.map_id]
  · rcases hbefore with hsame | hseparator
    · left
      rw [pieces, hsame]
    · right
      rw [pieces, hseparator, splitAtSlashes_append, List.map_append]
      rfl

theorem isAbsolute_join (hne : names ≠ []) (hnames : ∀ name ∈ names, IsName name) (hpath : path.text ≠ "") :
    (path.join (ofNames names)).isAbsolute = path.isAbsolute := by
  obtain ⟨before, hjoined, hbefore⟩ := toList_join hne hnames hpath
  have hnonempty : path.text.toList ≠ [] := fun hnil => hpath (String.toList_eq_nil_iff.mp hnil)
  rw [isAbsolute_eq, isAbsolute_eq, hjoined]
  rcases hbefore with hsame | hseparator
  · rw [← hsame, List.head?_append_of_ne_nil _ hnonempty]
  · rw [hseparator]
    cases before <;> rfl

theorem pieces_ofNames_eq (hne : names ≠ []) (hnames : ∀ name ∈ names, IsName name) :
    (ofNames names).pieces = names := by
  rw [pieces, pieces_ofNames hne hnames, List.map_map]
  simp [Function.comp_def]

theorem join_of_empty (hpath : path.text = "") (hne : names ≠ []) (hnames : ∀ name ∈ names, IsName name) :
    path.join (ofNames names) = ofNames names := by
  rw [join, isAbsolute_ofNames hne hnames, if_neg Bool.false_ne_true, hpath, if_pos (by decide), String.empty_append]

theorem exists_pieces_join (path : Path) (hne : names ≠ []) (hnames : ∀ name ∈ names, IsName name) :
    ∃ before, (path.join (ofNames names)).pieces = before ++ names := by
  by_cases hpath : path.text = ""
  · refine ⟨[], ?_⟩
    rw [join_of_empty hpath hne hnames]
    exact pieces_ofNames_eq hne hnames
  · obtain ⟨before, hpieces, -⟩ := pieces_join hne hnames hpath
    exact ⟨before, hpieces⟩

/-! ### Endings -/

theorem pieces_withSuffix {before : List String} (hfree : '/' ∉ suffix.toList)
    (hpieces : path.pieces = before ++ [name]) :
    (path.withSuffix suffix).pieces = before ++ [name ++ suffix] := by
  have hsplit : splitAtSlashes path.text.toList = before.map String.toList ++ [name.toList] := by
    have hback := congrArg (List.map String.toList) hpieces
    rw [pieces, List.map_map, List.map_append] at hback
    simpa [Function.comp_def] using hback
  rw [pieces, withSuffix, String.toList_append, splitAtSlashes_suffix hfree hsplit, List.map_append, List.map_map,
    ← String.toList_append]
  simp [Function.comp_def]

theorem text_ne_empty {before : List String} (hpieces : path.pieces = before ++ [name]) (hname : name ≠ "") :
    path.text ≠ "" := by
  intro hempty
  have hlast := congrArg List.getLast? hpieces
  rw [pieces, hempty, List.getLast?_concat] at hlast
  exact hname (Option.some.inj hlast).symm

theorem isAbsolute_withSuffix (hpath : path.text ≠ "") : (path.withSuffix suffix).isAbsolute = path.isAbsolute := by
  have hnonempty : path.text.toList ≠ [] := fun hnil => hpath (String.toList_eq_nil_iff.mp hnil)
  rw [isAbsolute_eq, isAbsolute_eq, withSuffix, String.toList_append, List.head?_append_of_ne_nil _ hnonempty]

theorem splitAnchor_ofNames (hne : names ≠ []) (hnames : ∀ name ∈ names, IsName name) :
    splitAnchor (ofNames names).text.toList = (.implicit, (ofNames names).text.toList) := by
  have hpieces := pieces_ofNames hne hnames
  obtain ⟨name, later, rfl⟩ := List.exists_cons_of_ne_nil hne
  have hname := hnames name List.mem_cons_self
  rw [splitAnchor.eq_def]
  split
  case h_1 body htext =>
    rw [htext, splitAtSlashes, List.map_cons] at hpieces
    exact absurd (String.toList_eq_nil_iff.mp (List.cons.inj hpieces).1.symm) hname.ne_empty
  case h_2 htext =>
    rw [htext] at hpieces
    exact absurd (String.toList_inj.mp (List.cons.inj hpieces).1.symm) hname.ne_here
  case h_3 body htext =>
    rw [htext, splitAtSlashes_cons (by decide) (splitAtSlashes.eq_2 body)] at hpieces
    exact absurd (String.toList_inj.mp (List.cons.inj hpieces).1.symm) hname.ne_here
  case h_4 => rfl

theorem component?_name (hname : IsName name) : component? name = some (.name name) := by
  rw [component?, if_neg hname.not_blank, if_neg hname.ne_up]

theorem filterMap_component? (hnames : ∀ name ∈ names, IsName name) : names.filterMap component? = names.map .name := by
  rw [← List.filterMap_eq_map]
  exact List.filterMap_congr fun name hname => component?_name (hnames name hname)

theorem components_ofNames (hne : names ≠ []) (hnames : ∀ name ∈ names, IsName name) :
    (ofNames names).components = names.map .name := by
  rw [components, anchor, body, splitAnchor_ofNames hne hnames, pieces_ofNames hne hnames, List.map_map,
    ← filterMap_component? hnames]
  simp [Function.comp_def, Anchor.components]

theorem extension?_ofNames (hnames : ∀ other ∈ names ++ [name], IsName other) :
    (ofNames (names ++ [name])).extension? = extensionOf? name := by
  rw [extension?, components_ofNames (List.append_ne_nil_of_right_ne_nil _ (List.cons_ne_nil _ _)) hnames,
    List.map_append, List.getLast?_append]
  rfl

/-! ### Temporary files -/

def temporary : List String → List String
  | [] => []
  | [name] => [name ++ ".tmp"]
  | name :: names => name :: temporary names

theorem temporary_cons (name : String) (hnames : names ≠ []) : temporary (name :: names) = name :: temporary names := by
  obtain ⟨next, later, rfl⟩ := List.exists_cons_of_ne_nil hnames
  rfl

theorem temporary_concat (names : List String) (name : String) :
    temporary (names ++ [name]) = names ++ [name ++ ".tmp"] := by
  induction names with
  | nil => rfl
  | cons first names ih =>
    rw [List.cons_append, temporary_cons first (List.append_ne_nil_of_right_ne_nil _ (List.cons_ne_nil _ _)), ih]
    rfl

theorem temporary_ne (hne : names ≠ []) : temporary names ≠ names := by
  obtain ⟨init, last, rfl⟩ := (List.eq_nil_or_concat names).resolve_left hne
  rw [List.concat_eq_append, temporary_concat]
  intro hsame
  have hlast := congrArg (fun name => name.toList.length) (List.singleton_inj.mp (List.append_cancel_left hsame))
  rw [String.toList_append, List.length_append] at hlast
  exact absurd hlast (by simp)

theorem length_temporary (hne : names ≠ []) : (temporary names).length = names.length := by
  obtain ⟨init, last, rfl⟩ := (List.eq_nil_or_concat names).resolve_left hne
  rw [List.concat_eq_append, temporary_concat, List.length_append, List.length_append, List.length_singleton,
    List.length_singleton]

theorem temporary_ne_nil (hne : names ≠ []) : temporary names ≠ [] := by
  obtain ⟨name, later, rfl⟩ := List.exists_cons_of_ne_nil hne
  cases later <;> exact List.cons_ne_nil _ _

theorem toList_temporary (hne : names ≠ []) :
    (ofNames (temporary names)).text.toList = (ofNames names).text.toList ++ ".tmp".toList := by
  induction names with
  | nil => exact absurd rfl hne
  | cons name names ih =>
    by_cases hrest : names = []
    · subst hrest
      rw [temporary, ofNames, ofNames, String.intercalate_singleton, String.intercalate_singleton, String.toList_append]
    · rw [temporary_cons name hrest, toList_ofNames_cons name (temporary_ne_nil hrest),
        toList_ofNames_cons name hrest, ih hrest, List.append_assoc, List.cons_append]

theorem isName_append_tmp (hfree : '/' ∉ name.toList) : IsName (name ++ ".tmp") := by
  have hlength : 4 ≤ (name ++ ".tmp").toList.length := by
    rw [String.toList_append, List.length_append]
    exact Nat.le_add_left 4 _
  have hother : ∀ short : String, short.toList.length < 4 → name ++ ".tmp" ≠ short := by
    intro short hshort heq
    rw [heq] at hlength
    omega
  refine ⟨hother "" (by decide), hother "." (by decide), hother ".." (by decide), ?_⟩
  rw [String.toList_append, List.mem_append, not_or]
  exact ⟨hfree, by decide⟩

theorem IsName.temporary (hname : IsName name) : IsName (name ++ ".tmp") :=
  isName_append_tmp hname.free

theorem isName_temporary (hnames : ∀ name ∈ names, IsName name) : ∀ name ∈ temporary names, IsName name := by
  induction names with
  | nil => exact hnames
  | cons first names ih =>
    intro name hname
    have hfirst := hnames first List.mem_cons_self
    by_cases hrest : names = []
    · subst hrest
      rw [List.mem_singleton.mp hname]
      exact hfirst.temporary
    · rw [temporary_cons first hrest] at hname
      rcases List.mem_cons.mp hname with rfl | hlater
      · exact hfirst
      · exact ih (fun other hother => hnames other (List.mem_cons_of_mem _ hother)) name hlater

/-- What stands beside a file for the time of a write is no class file. -/
theorem extensionOf?_temporary (name : String) : extensionOf? (name ++ ".tmp") ≠ some "class" := by
  have hspan : (name ++ ".tmp").toList.reverse.span (· != '.') = (['p', 'm', 't'], '.' :: name.toList.reverse) := by
    rw [String.toList_append, List.reverse_append]
    rfl
  rw [extensionOf?, hspan]
  cases name.toList.reverse with
  | nil => nofun
  | cons c rest => exact fun hclass => absurd (Option.some.inj hclass) (by decide)

theorem withSuffix_join (hne : names ≠ []) (hnames : ∀ name ∈ names, IsName name) :
    (path.join (ofNames names)).withSuffix ".tmp" = path.join (ofNames (temporary names)) := by
  have htext : (ofNames (temporary names)).text = (ofNames names).text ++ ".tmp" := by
    rw [← String.toList_inj, toList_temporary hne, String.toList_append]
  rw [join, join, isAbsolute_ofNames hne hnames,
    isAbsolute_ofNames (temporary_ne_nil hne) (isName_temporary hnames), htext, if_neg Bool.false_ne_true,
    if_neg Bool.false_ne_true]
  split
  · rw [withSuffix, String.append_assoc]
  · rw [withSuffix, String.append_assoc]

end Retoken.Path
