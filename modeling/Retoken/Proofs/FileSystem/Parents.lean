import Retoken.Proofs.FileSystem.Names

/-!
# The directories around a path

Every directory around a path is on the way along it: its pieces come first among those of the path, and there is another component behind them. So a path that leads anywhere leads through the directories around it.
-/

namespace Retoken.Path

variable {path parent : Path} {body shown : List String}

theorem suffix_of_mem_enclosing (hshown : shown ∈ enclosing body) : shown <:+ body := by
  induction body with
  | nil =>
    obtain rfl := List.mem_singleton.mp hshown
    exact List.suffix_rfl
  | cons piece body ih =>
    rw [enclosing] at hshown
    split at hshown
    case isTrue => exact (ih hshown).trans (List.suffix_cons piece body)
    case isFalse =>
      rcases List.mem_cons.mp hshown with rfl | hlater
      · exact List.suffix_rfl
      · exact (ih hlater).trans (List.suffix_cons piece body)

theorem exists_of_mem_tail_enclosing (hshown : shown ∈ (enclosing body).tail) :
    ∃ first, (∃ piece ∈ first, component? piece ≠ none) ∧ body = first ++ shown := by
  induction body with
  | nil => cases hshown
  | cons piece body ih =>
    rw [enclosing] at hshown
    split at hshown
    case isTrue =>
      obtain ⟨first, ⟨later, hlater, hcomponent⟩, rfl⟩ := ih hshown
      exact ⟨piece :: first, ⟨later, List.mem_cons_of_mem piece hlater, hcomponent⟩, rfl⟩
    case isFalse hcomponent =>
      obtain ⟨first, rfl⟩ := suffix_of_mem_enclosing hshown
      exact ⟨piece :: first, ⟨piece, List.mem_cons_self, hcomponent⟩, rfl⟩

theorem isAbsolute_of_pieces {rest : List String} (hpieces : path.pieces = "" :: rest) (hrest : rest ≠ []) :
    path.isAbsolute = true := by
  rw [isAbsolute_eq]
  rw [pieces] at hpieces
  cases htext : path.text.toList with
  | nil =>
    rw [htext] at hpieces
    exact absurd (List.cons.inj hpieces).2.symm hrest
  | cons c text =>
    by_cases hslash : c = '/'
    · rw [hslash]
      rfl
    · obtain ⟨first, later, hsplit⟩ := List.exists_cons_of_ne_nil (splitAtSlashes_ne_nil text)
      rw [htext, splitAtSlashes_cons hslash hsplit] at hpieces
      have hempty := congrArg String.toList (List.cons.inj hpieces).1
      rw [String.toList_ofList] at hempty
      cases hempty

theorem pieces_of_isAbsolute (habsolute : path.isAbsolute = true) : ∃ rest, path.pieces = "" :: rest := by
  rw [isAbsolute_eq] at habsolute
  rw [pieces]
  cases htext : path.text.toList with
  | nil =>
    rw [htext] at habsolute
    cases habsolute
  | cons c text =>
    rw [htext] at habsolute
    obtain rfl : c = '/' := by simpa using habsolute
    exact ⟨(splitAtSlashes text).map String.ofList, rfl⟩

theorem pieces_of_root (hanchor : path.anchor = .root) : path.pieces = "" :: path.body := by
  rw [anchor, splitAnchor.eq_def] at hanchor
  rw [pieces, body, splitAnchor.eq_def]
  split at hanchor
  case h_1 chars htext =>
    simp only [htext]
    rfl
  all_goals cases hanchor

theorem pieces_of_here (hanchor : path.anchor = .here) :
    ∃ later, path.body = "" :: later ∧ path.pieces = "." :: later := by
  rw [anchor, splitAnchor.eq_def] at hanchor
  rw [pieces, body, splitAnchor.eq_def]
  split at hanchor
  case h_2 htext =>
    simp only [htext]
    exact ⟨[], rfl, rfl⟩
  case h_3 chars htext =>
    simp only [htext]
    exact ⟨(splitAtSlashes chars).map String.ofList, rfl, rfl⟩
  all_goals cases hanchor

theorem pieces_of_implicit (hanchor : path.anchor = .implicit) : path.pieces = path.body := by
  rw [anchor, splitAnchor.eq_def] at hanchor
  rw [pieces, body, splitAnchor.eq_def]
  split at hanchor
  case h_4 => rfl
  all_goals cases hanchor

/-- The pieces of the first path come first among those of the second, and there is another component behind them. A separator at the end of the first path makes no difference. -/
def OnWay (parent path : Path) : Prop :=
  parent.isAbsolute = path.isAbsolute
    ∧ ∃ before rest, path.pieces = before ++ rest ∧ (∃ piece ∈ rest, component? piece ≠ none)
      ∧ (parent.pieces = before ∨ parent.pieces = before ++ [""])

theorem splitAtSlashes_of_subset_body {names : List String} (hsubset : names ⊆ path.body) (hne : names ≠ []) :
    (splitAtSlashes (ofNames names).text.toList).map String.ofList = names := by
  have hfree : ∀ piece ∈ names, '/' ∉ piece.toList := by
    intro piece hpiece
    obtain ⟨chars, hchars, rfl⟩ := List.mem_map.mp (hsubset hpiece)
    rw [String.toList_ofList]
    exact free_of_mem_splitAtSlashes hchars
  rw [splitAtSlashes_ofNames hne hfree, List.map_map]
  simp [Function.comp_def]

/-! A path with the start of another one and the first part of its body is on the way along it. -/

section

variable {rest : List String} (hsplit : path.body = shown ++ rest) (hrest : ∃ piece ∈ rest, component? piece ≠ none)
  (hparent : parent.text = path.anchor.text ++ (ofNames shown).text)

include hsplit

omit hrest hparent in
theorem subset_of_body : shown ⊆ path.body := by
  rw [hsplit]
  exact List.subset_append_left shown rest

include hrest hparent

theorem on_way_of_root (hanchor : path.anchor = .root) : OnWay parent path := by
  rw [hanchor] at hparent
  have hpieces : parent.pieces = "" :: (splitAtSlashes (ofNames shown).text.toList).map String.ofList := by
    rw [pieces, hparent, String.toList_append]
    rfl
  constructor
  · rw [isAbsolute_eq, hparent, String.toList_append, isAbsolute, hanchor]
    rfl
  · refine ⟨"" :: shown, rest, ?_, hrest, ?_⟩
    · rw [pieces_of_root hanchor, hsplit]
      rfl
    · rw [hpieces]
      by_cases hempty : shown = []
      · subst hempty
        exact .inr rfl
      · rw [splitAtSlashes_of_subset_body (subset_of_body hsplit) hempty]
        exact .inl rfl

theorem on_way_of_here (hanchor : path.anchor = .here) : OnWay parent path := by
  rw [hanchor] at hparent
  obtain ⟨later, hbody, hpath⟩ := pieces_of_here hanchor
  have hwithin := subset_of_body hsplit
  constructor
  · rw [isAbsolute_eq, hparent, String.toList_append, isAbsolute, hanchor]
    rfl
  · cases shown with
    | nil =>
      obtain ⟨piece, hpiece, hcomponent⟩ := hrest
      rw [← List.nil_append rest, ← hsplit, hbody] at hpiece
      refine ⟨["."], later, hpath, ⟨piece, (List.mem_cons.mp hpiece).resolve_left ?_, hcomponent⟩, .inl ?_⟩
      · rintro rfl
        exact hcomponent rfl
      · rw [pieces, hparent]
        rfl
    | cons first shown =>
      rw [hbody, List.cons_append] at hsplit
      obtain ⟨rfl, rfl⟩ := List.cons.inj hsplit
      refine ⟨"." :: shown, rest, hpath, hrest, .inl ?_⟩
      by_cases hempty : shown = []
      · subst hempty
        rw [pieces, hparent]
        rfl
      · rw [pieces, hparent, String.toList_append, toList_ofNames_cons "" hempty]
        change "." :: (splitAtSlashes (ofNames shown).text.toList).map String.ofList = _
        rw [splitAtSlashes_of_subset_body (List.Subset.trans (List.subset_cons_self _ _) hwithin) hempty]

/-- The first part of the body is not empty, so the parent does not start with a separator unless the path does. -/
theorem on_way_of_implicit (hanchor : path.anchor = .implicit) (htext : parent.text ≠ "") : OnWay parent path := by
  rw [hanchor] at hparent
  have hempty : shown ≠ [] := by
    rintro rfl
    exact htext hparent
  have hpieces : parent.pieces = shown := by
    rw [pieces, hparent, String.toList_append]
    exact splitAtSlashes_of_subset_body (subset_of_body hsplit) hempty
  have hpath : path.isAbsolute = false := by
    rw [isAbsolute, hanchor]
    rfl
  constructor
  · rw [hpath, Bool.eq_false_iff]
    intro habsolute
    obtain ⟨later, hlater⟩ := pieces_of_isAbsolute habsolute
    rw [hpieces] at hlater
    have hstart : path.pieces = "" :: (later ++ rest) := by
      rw [pieces_of_implicit hanchor, hsplit, hlater]
      rfl
    obtain ⟨piece, hpiece, -⟩ := hrest
    rw [isAbsolute_of_pieces hstart (List.append_ne_nil_of_right_ne_nil _ (List.ne_nil_of_mem hpiece))] at hpath
    cases hpath
  · refine ⟨shown, rest, ?_, hrest, .inl hpieces⟩
    rw [pieces_of_implicit hanchor, hsplit]

end

/-- A directory around a path is on the way along it. -/
theorem on_way_of_mem_parents (hparent : parent ∈ path.parents) (htext : parent.text ≠ "") : OnWay parent path := by
  rcases List.mem_append.mp hparent with hbody | hhere
  · obtain ⟨reversed, hreversed, rfl⟩ := List.mem_map.mp hbody
    obtain ⟨first, ⟨piece, hpiece, hcomponent⟩, hsplit⟩ := exists_of_mem_tail_enclosing hreversed
    rw [List.reverse_eq_iff, List.reverse_append] at hsplit
    have hrest : ∃ piece ∈ first.reverse, component? piece ≠ none := ⟨piece, List.mem_reverse.mpr hpiece, hcomponent⟩
    cases hanchor : path.anchor with
    | root => exact on_way_of_root hsplit hrest (by rw [hanchor]; rfl) hanchor
    | here => exact on_way_of_here hsplit hrest (by rw [hanchor]; rfl) hanchor
    | implicit =>
      rw [hanchor] at htext
      exact on_way_of_implicit hsplit hrest (by rw [hanchor]; rfl) hanchor htext
  · split at hhere
    case isTrue => exact absurd (congrArg Path.text (List.mem_singleton.mp hhere)) htext
    case isFalse => cases hhere

end Retoken.Path
