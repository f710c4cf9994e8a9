import TextOverride.FileTree.Replace
import TextOverride.Proofs.FileTree.Walk

namespace TextOverride

namespace Path

variable {path : Path} {name : Text}

theorem of_fileName? (h : fileName? path = some name) :
    name ∈ names path ∧ isTrivial name = false ∧ name ≠ parent := by
  obtain ⟨hlast, hparent⟩ := Option.filter_eq_some_iff.mp h
  obtain ⟨hmem, hnontrivial⟩ := List.mem_filter.mp (List.mem_of_getLast? hlast)
  exact ⟨hmem, Bool.not_eq_true' _ ▸ hnontrivial, bne_iff_ne.mp hparent⟩

private theorem not_mem_ofNat {c : Char} (hc : c.isDigit = false) (n : Nat) :
    c ∉ Text.ofNat n := by
  intro hmem
  rw [Nat.isDigit_of_mem_toDigits (by decide) (by decide) hmem] at hc
  cases hc

theorem not_mem_temporaryName {c : Char} (hc : c ∉ ".tmp".toList)
    (hdigit : c.isDigit = false)
    (h : ∀ name, fileName? path = some name → c ∉ name) (process : Nat) :
    c ∉ FileTree.temporaryName process path := by
  have hdot : c ≠ '.' := fun heq => hc (heq ▸ by decide)
  have hname : c ∉ (fileName? path).getD [] := by
    cases hfile : fileName? path with
    | none => exact List.not_mem_nil
    | some name => exact h name hfile
  rw [FileTree.temporaryName]
  simp only [List.mem_append, List.mem_cons, not_or]
  exact ⟨⟨⟨hdot, hname⟩, hdot, not_mem_ofNat hdigit process⟩, hc⟩

theorem separator_not_mem_temporaryName (process : Nat) (path : Path) :
    separator ∉ FileTree.temporaryName process path :=
  not_mem_temporaryName (by decide) (by decide)
    (fun _ hname => separator_not_mem_of_mem_names (of_fileName? hname).1)
    process

theorem temporaryName_ne (process : Nat) (path : Path) {other : Text}
    (h : other.length ≤ 2) :
    FileTree.temporaryName process path ≠ other := by
  intro heq
  have hlength : 2 < (FileTree.temporaryName process path).length := by
    rw [FileTree.temporaryName, List.length_append,
      show ".tmp".toList.length = 4 from rfl]
    omega
  rw [heq] at hlength
  omega

theorem isTrivial_temporaryName (process : Nat) (path : Path) :
    isTrivial (FileTree.temporaryName process path) = false := by
  rw [isTrivial, Bool.or_eq_false_iff, beq_eq_false_iff_ne, beq_eq_false_iff_ne]
  exact ⟨temporaryName_ne process path (by decide),
    temporaryName_ne process path (by decide)⟩

end Path

namespace FileTree

variable {t : FileTree} {process : Nat} {home place directory : Place}
    {path : Path}
  {name : Text} {content : Utf8.Bytes} {mode : Nat} {follow : Bool}
  {found : Target}

private theorem sought_temporaryName {process : Nat} {path : Path}
    (h : (temporaryName process path).byteSize ≤ nameLimit) :
    Sought (temporaryName process path) where
  nontrivial := Path.isTrivial_temporaryName process path
  ne_parent := Path.temporaryName_ne process path (by decide)
  byteSize_le := h

/-- The path ends in a name, and leads to the directory that has it. -/
structure EndsIn (t : FileTree) (home : Place) (path : Path) (directory : Place)
    (name : Text) : Prop where
  no_nul : '\x00' ∉ path
  ne_nil : path ≠ []
  byteSize_lt : path.byteSize < pathLimit
  walk : ∃ before, Path.names path = before ++ [name] ∧
    t.walk true linkLimit (origin home path) before = .ok (.present directory)
  opened : t.Open directory
  sought : Sought name

theorem WellFormed.endsIn_of_file (hwf : t.WellFormed)
    (h : t.resolve home false path = .ok (.present place))
    (hnot : t.isDirectoryAt place = false) :
    ∃ directory name, place = name :: directory ∧
      t.EndsIn home path directory name := by
  obtain ⟨before, name, hnames⟩ :=
    (List.eq_nil_or_concat (Path.names path)).resolve_left
      (Path.names_ne_nil path)
  obtain ⟨hnul, hne, hshort, hwalk⟩ := exists_walk_of_resolve h
  rw [List.concat_eq_append] at hnames
  rw [hnames] at hwalk
  obtain ⟨directory, hdirectory⟩ :=
    exists_of_walk_append (List.cons_ne_nil name []) hwalk
  obtain ⟨left, hleft⟩ := walk_append hdirectory
  rw [hleft false [name] (.inr (List.cons_ne_nil name []))] at hwalk
  -- A last name that is trivial, or that of the parent, would have led to a
  -- directory.
  rcases t.stride_cases directory name with
    ⟨hopen, hname⟩ | ⟨e, hrefused⟩ | ⟨hplace, ⟨_, hstride⟩ | ⟨_, hstride⟩⟩
  · rw [hopen.walk_last hname] at hwalk
    split at hwalk
    case isTrue => cases hwalk
    case isFalse =>
      cases hwalk
      exact ⟨directory, name, rfl, hnul, hne, hshort,
        ⟨before, hnames, hdirectory⟩, hopen, hname⟩
  · rw [walk_refused hrefused] at hwalk
    cases hwalk
  · rw [walk_onward hstride, walk_nil] at hwalk
    cases hwalk
    rw [hplace] at hnot
    cases hnot
  · rw [walk_onward hstride, walk_nil] at hwalk
    cases hwalk
    rw [hwf.isDirectoryAt_tail hplace] at hnot
    cases hnot

namespace EndsIn

theorem exists_resolve_eq (h : t.EndsIn home path directory name) :
    ∃ left, ∀ follow, t.resolve home follow path =
      t.walk follow left directory [name] := by
  obtain ⟨before, hnames, hwalk⟩ := h.walk
  obtain ⟨left, hleft⟩ := walk_append hwalk
  refine ⟨left, fun follow => ?_⟩
  rw [resolve_eq h.no_nul h.ne_nil h.byteSize_lt, hnames]
  exact hleft follow [name] (.inr (List.cons_ne_nil name []))

theorem resolve_last (h : t.EndsIn home path directory name) :
    t.resolve home false path =
      .ok (if t.node? (name :: directory) = none then .vacant directory name
        else .present (name :: directory)) := by
  obtain ⟨left, hleft⟩ := h.exists_resolve_eq
  rw [hleft, h.opened.walk_last h.sought]

theorem resolve_file (h : t.EndsIn home path directory name)
    (hfile : t.node? (name :: directory) = some (.file content mode))
    (follow : Bool) :
    t.resolve home follow path = .ok (.present (name :: directory)) := by
  obtain ⟨left, hleft⟩ := h.exists_resolve_eq
  rw [hleft, h.opened.walk_file h.sought hfile]

theorem resolve_vacant (h : t.EndsIn home path directory name)
    (hvacant : t.node? (name :: directory) = none) (follow : Bool) :
    t.resolve home follow path = .ok (.vacant directory name) := by
  obtain ⟨left, hleft⟩ := h.exists_resolve_eq
  have hstride := h.opened.stride_sought h.sought
  rw [hvacant] at hstride
  rw [hleft, walk_stride, hstride]
  rfl

theorem present_of_resolve (h : t.EndsIn home path directory name)
    (hplace : t.resolve home false path = .ok (.present place)) :
    place = name :: directory ∧ t.node? (name :: directory) ≠ none := by
  rw [h.resolve_last] at hplace
  split at hplace
  case isTrue => cases hplace
  case isFalse hnode =>
    cases hplace
    exact ⟨rfl, hnode⟩

theorem slot_eq (h : t.EndsIn home path directory name) :
    t.slot home path = .ok ⟨name :: directory, false⟩ := by
  obtain ⟨before, hnames, hwalk⟩ := h.walk
  have hbare : ((before ++ [name]).reverse.dropWhile (· == [])).reverse =
      before ++ [name] := by
    rw [List.reverse_concat, List.dropWhile_cons_of_neg, List.reverse_cons,
      List.reverse_reverse]
    exact fun hnil =>
      ne_nil_of_nontrivial h.sought.nontrivial (beq_iff_eq.mp hnil)
  rw [slot, if_neg h.no_nul, if_neg h.ne_nil,
    if_neg (Nat.not_le.mpr h.byteSize_lt), hnames]
  simp only [hbare, List.getLast?_concat, List.dropLast_concat, hwalk,
    h.opened.directory, h.opened.searchable, h.sought.nontrivial,
    h.sought.ne_parent,
    Nat.not_lt.mpr h.sought.byteSize_le, Nat.lt_irrefl, decide_false,
    Bool.true_eq_false,
    Bool.false_eq_true, false_or, if_false]

end EndsIn

/-- No separator follows the last name if no empty name is dropped there. -/
private theorem bare_eq_self {names : List Text}
    (h : ¬ (names.reverse.dropWhile (· == [])).reverse.length < names.length) :
    (names.reverse.dropWhile (· == [])).reverse = names := by
  have hprefix : (names.reverse.dropWhile (· == [])).reverse <+: names := by
    rw [← List.reverse_suffix, List.reverse_reverse]
    exact List.dropWhile_suffix _
  exact hprefix.eq_of_length_le (Nat.le_of_not_lt h)

theorem exists_of_slot (h : t.slot home path = .ok ⟨place, false⟩) :
    ∃ directory name, t.EndsIn home path directory name ∧
      place = name :: directory := by
  rw [slot] at h
  obtain ⟨hnul, h⟩ := of_ite_error_eq_ok h
  obtain ⟨hne, h⟩ := of_ite_error_eq_ok h
  obtain ⟨hshort, h⟩ := of_ite_error_eq_ok h
  simp only at h
  split at h
  case h_1 => cases h
  case h_2 name hlast =>
  split at h
  case h_1 => cases h
  case h_2 => cases h
  case h_3 directory hwalk =>
  obtain ⟨hdirectory, h⟩ := of_ite_error_eq_ok h
  obtain ⟨hsearchable, h⟩ := of_ite_error_eq_ok h
  obtain ⟨hname, h⟩ := of_ite_error_eq_ok h
  obtain ⟨hsize, h⟩ := of_ite_error_eq_ok h
  -- Nothing was refused, so every demand on an ending has been met.
  injection h with h
  injection h with hplace hclosed
  rw [bare_eq_self (of_decide_eq_false hclosed)] at hlast hwalk
  obtain ⟨before, hnames⟩ := List.getLast?_eq_some_iff.mp hlast
  rw [hnames, List.dropLast_concat] at hwalk
  obtain ⟨hnontrivial, hparent⟩ := not_or.mp hname
  exact ⟨directory, name,
    { no_nul := hnul
      ne_nil := hne
      byteSize_lt := Nat.lt_of_not_le hshort
      walk := ⟨before, hnames, hwalk⟩
      opened :=
        ⟨(Bool.not_eq_false _).mp hdirectory,
          (Bool.not_eq_false _).mp hsearchable⟩
      sought :=
        ⟨(Bool.not_eq_true _).mp hnontrivial, hparent,
          Nat.le_of_not_lt hsize⟩ },
    hplace.symm⟩

/-! The temporary file beside a file. -/

theorem walk_trivials {left : Nat} {names : List Text}
    (htrivial : ∀ name ∈ names, Path.isTrivial name = true)
    (h : t.walk true left place names = .ok found) :
    found = .present place := by
  induction names with
  | nil =>
      rw [walk_nil] at h
      cases h
      rfl
  | cons name names ih =>
      obtain ⟨hname, hnames⟩ := List.forall_mem_cons.mp htrivial
      rcases t.stride_cases place name with
        ⟨_, hsought⟩ | ⟨e, hrefused⟩ | ⟨_, ⟨_, hstride⟩ | ⟨rfl, _⟩⟩
      · rw [hsought.nontrivial] at hname
        cases hname
      · rw [walk_refused hrefused] at h
        cases h
      · rw [walk_onward hstride] at h
        exact ih hnames h
      · cases hname

private theorem temporaryPath_no_nul {before kept dropped : List Text}
    {process : Nat} (hnul : '\x00' ∉ path)
    (hnames : Path.names path = before ++ [name])
    (hkept : before = kept ++ dropped)
    (hsibling : Path.names (temporaryPath process path) =
      kept ++ [temporaryName process path]) :
    '\x00' ∉ temporaryPath process path := by
  rw [Path.mem_iff_exists_names (by decide)] at hnul ⊢
  rintro ⟨other, hother, hmem⟩
  rw [hsibling, List.mem_append, List.mem_singleton] at hother
  rcases hother with hbefore | rfl
  · refine hnul ⟨other, ?_, hmem⟩
    rw [hnames, hkept]
    exact List.mem_append_left _ (List.mem_append_left _ hbefore)
  · refine Path.not_mem_temporaryName (by decide) (by decide) ?_ process hmem
    intro found hfound hfoundNul
    exact hnul ⟨found, (Path.of_fileName? hfound).1, hfoundNul⟩

/-- The temporary file of a path is in the directory that the path leads to,
unless it is refused for its length. -/
theorem EndsIn.temporary (h : t.EndsIn home path directory name)
    (process : Nat) :
    if pathLimit ≤ (temporaryPath process path).byteSize ∨
        nameLimit < (temporaryName process path).byteSize then
      ∀ follow, t.resolve home follow (temporaryPath process path) =
        .error .nameTooLong
    else t.EndsIn home (temporaryPath process path) directory
      (temporaryName process path) := by
  obtain ⟨before, hnames, hwalk⟩ := h.walk
  have hseparator := Path.separator_not_mem_temporaryName process path
  obtain ⟨⟨kept, dropped, hkept, htrivial, hsibling⟩, habsolute⟩ :=
    Path.sibling_withFileName hnames h.sought.nontrivial h.sought.ne_parent
      hseparator
  rw [← temporaryPath] at hsibling habsolute
  -- The directory of the temporary path is that of the path, but for trivial
  -- names at its end, which may be dropped.
  obtain ⟨between, hbetween⟩ : ∃ between,
      t.walk true linkLimit (origin home path) kept =
      .ok (.present between) := by
    by_cases hne : dropped = []
    · rw [hkept, hne, List.append_nil] at hwalk
      exact ⟨directory, hwalk⟩
    · rw [hkept] at hwalk
      exact exists_of_walk_append hne hwalk
  have hdirectory : between = directory := by
    obtain ⟨left, hleft⟩ := walk_append hbetween
    rw [hkept, hleft true dropped (.inl rfl)] at hwalk
    cases walk_trivials htrivial hwalk
    rfl
  rw [hdirectory] at hbetween
  have horigin :
      origin home (temporaryPath process path) = origin home path := by
    rw [origin, origin, habsolute]
  have hnul := temporaryPath_no_nul h.no_nul hnames hkept hsibling
  have hne : temporaryPath process path ≠ [] := by
    intro hnil
    rw [hnil] at hsibling
    obtain ⟨_, heq⟩ :=
      List.append_inj' (show [] ++ [[]] = kept ++ [_] from hsibling) rfl
    exact Path.temporaryName_ne process path (by decide)
      (List.cons.inj heq).1.symm
  by_cases hpath : pathLimit ≤ (temporaryPath process path).byteSize
  · rw [if_pos (.inl hpath)]
    intro follow
    rw [resolve, if_neg hnul, if_neg hne, if_pos hpath]
  by_cases hsize : (temporaryName process path).byteSize ≤ nameLimit
  · rw [if_neg (not_or.mpr ⟨hpath, Nat.not_lt.mpr hsize⟩)]
    exact ⟨hnul, hne, Nat.lt_of_not_le hpath,
      ⟨kept, hsibling, horigin ▸ hbetween⟩, h.opened,
      sought_temporaryName hsize⟩
  · rw [if_pos (.inr (Nat.lt_of_not_le hsize))]
    obtain ⟨left, hleft⟩ := walk_append hbetween
    intro follow
    rw [resolve_eq hnul hne (Nat.lt_of_not_le hpath), hsibling, horigin,
      hleft follow _ (.inr (List.cons_ne_nil _ [])), walk_refused]
    exact h.opened.stride_tooLong (Path.isTrivial_temporaryName process path)
      (Path.temporaryName_ne process path (by decide)) (Nat.lt_of_not_le hsize)

/-- Nothing in the tree has a temporary name. -/
def TemporaryFree (t : FileTree) (process : Nat) : Prop :=
  ∀ path directory, t.node? (temporaryName process path :: directory) = none

theorem TemporaryFree.of_sameShape {t' : FileTree}
    (hfree : t.TemporaryFree process) (h : SameShape t t') :
    t'.TemporaryFree process :=
  fun path directory => h.node?_eq_none_iff.mp (hfree path directory)

theorem TemporaryFree.unused (hfree : t.TemporaryFree process) (home : Place)
    (path : Path) (place : Place) :
    t.resolve home false (temporaryPath process path) ≠
      .ok (.present place) := by
  intro hresolve
  obtain ⟨before, hnames⟩ :=
    Path.exists_names_withFileName
      (Path.separator_not_mem_temporaryName process path) path
  obtain ⟨_, _, _, hwalk⟩ := exists_walk_of_resolve hresolve
  rw [temporaryPath, hnames] at hwalk
  obtain ⟨directory, hdirectory⟩ :=
    exists_of_walk_append (List.cons_ne_nil _ []) hwalk
  obtain ⟨left, hleft⟩ := walk_append hdirectory
  rw [hleft false _ (.inr (List.cons_ne_nil _ []))] at hwalk
  rcases t.stride_cases directory (temporaryName process path) with
    ⟨hopen, hname⟩ | ⟨e, hrefused⟩ | ⟨_, ⟨htrivial, _⟩ | ⟨hparent, _⟩⟩
  · rw [hopen.walk_last hname, if_pos (hfree path directory)] at hwalk
    cases hwalk
  · rw [walk_refused hrefused] at hwalk
    cases hwalk
  · rw [Path.isTrivial_temporaryName] at htrivial
    cases htrivial
  · exact Path.temporaryName_ne process path (by decide) hparent

def temporaryEnd (process : Nat) : Text :=
  '.' :: Text.ofNat process ++ ".tmp".toList

theorem temporaryFree_of_nodes
    (h : ∀ entry ∈ t.nodes, ∀ name ∈ entry.1.head?,
      ¬ temporaryEnd process <:+ name) :
    t.TemporaryFree process := by
  intro path directory
  refine Decidable.byContradiction fun htaken => ?_
  obtain ⟨entry, hentry, hplace⟩ := node?_ne_none_iff.mp htaken
  refine h entry hentry (temporaryName process path) ?_ ?_
  · rw [hplace]
    rfl
  · exact ⟨'.' :: (Path.fileName? path).getD [],
      by simp [temporaryName, temporaryEnd]⟩


end FileTree

end TextOverride
