import Mathlib.Data.List.Basic
import TextOverride.FileTree.Replace

namespace TextOverride

namespace Path

theorem name_cases (name : Text) : isTrivial name = true ∨ name = parent ∨
    isTrivial name = false ∧ name ≠ parent := by
  by_cases htrivial : isTrivial name = true
  · exact .inl htrivial
  by_cases hparent : name = parent
  · exact .inr (.inl hparent)
  · exact .inr (.inr ⟨(Bool.not_eq_true _).mp htrivial, hparent⟩)

/-- A name that a directory can hold, its length aside. -/
structure IsName (name : Text) : Prop where
  nontrivial : isTrivial name = false
  ne_parent : name ≠ parent
  no_separator : separator ∉ name
  no_nul : '\x00' ∉ name

instance (name : Text) : Decidable (IsName name) :=
  decidable_of_iff
    (isTrivial name = false ∧ name ≠ parent ∧ separator ∉ name ∧ '\x00' ∉ name)
    ⟨fun ⟨htrivial, hparent, hseparator, hnul⟩ =>
      ⟨htrivial, hparent, hseparator, hnul⟩,
      fun ⟨htrivial, hparent, hseparator, hnul⟩ =>
        ⟨htrivial, hparent, hseparator, hnul⟩⟩

theorem names_eq_splitOn (p : Path) : names p = p.splitOn separator := by
  induction p with
  | nil => rfl
  | cons c rest ih =>
      rw [names, List.splitOn_cons_eq_if_modifyHead, ih]
      by_cases hc : c = separator
      · rw [if_pos hc, if_pos (beq_iff_eq.mpr hc)]
      · rw [if_neg hc, if_neg (by rwa [beq_iff_eq])]
        cases hrest : rest.splitOn separator with
        | nil => exact absurd hrest (List.splitOn_ne_nil separator rest)
        | cons name names => rfl

theorem names_ne_nil (p : Path) : names p ≠ [] := by
  rw [names_eq_splitOn]
  exact List.splitOn_ne_nil separator p

theorem names_ofNames {ns : List Text} (hne : ns ≠ [])
    (h : ∀ name ∈ ns, separator ∉ name) :
    names (ofNames ns) = ns := by
  rw [names_eq_splitOn]
  exact List.splitOn_intercalate separator h hne

theorem ofNames_singleton (name : Text) : ofNames [name] = name :=
  List.intercalate_singleton

theorem ofNames_cons {ns : List Text} (hne : ns ≠ []) (name : Text) :
    ofNames (name :: ns) = name ++ separator :: ofNames ns := by
  rw [ofNames, List.intercalate_cons_of_ne_nil hne, List.append_assoc]
  rfl

private theorem ofNames_concat {ns : List Text} (hne : ns ≠ []) (name : Text) :
    ofNames (ns ++ [name]) = ofNames ns ++ separator :: name := by
  induction ns with
  | nil => exact absurd rfl hne
  | cons first ns ih =>
      rw [List.cons_append, ofNames_cons (by simp)]
      cases ns with
      | nil => rw [List.nil_append, ofNames_singleton, ofNames_singleton]
      | cons second ns =>
          have hne := List.cons_ne_nil second ns
          rw [ih hne, ofNames_cons hne, List.append_assoc, List.cons_append]

theorem names_append_separator (p rest : Path) :
    names (p ++ separator :: rest) = names p ++ names rest := by
  induction p with
  | nil => rfl
  | cons c p ih =>
      rw [List.cons_append, names, names, ih]
      split
      · rfl
      · cases hnames : names p with
        | nil => exact absurd hnames (names_ne_nil p)
        | cons name ns => rfl

theorem names_eq_singleton {p : Path} (h : separator ∉ p) : names p = [p] := by
  have hsplit :=
    names_ofNames (List.cons_ne_nil p []) (List.forall_mem_singleton.mpr h)
  rwa [ofNames_singleton] at hsplit

theorem mem_iff_exists_names {c : Char} (hc : c ≠ separator) {p : Path} :
    c ∈ p ↔ ∃ name ∈ names p, c ∈ name := by
  induction p with
  | nil => simp [names]
  | cons first rest ih =>
      rw [names, List.mem_cons, ih]
      split
      case isTrue hfirst =>
        have hne : c ≠ first := fun heq => hc (heq.trans hfirst)
        simp [hne]
      case isFalse =>
        cases hnames : names rest with
        | nil => exact absurd hnames (names_ne_nil rest)
        | cons name ns =>
            rw [Text.prepend]
            simp only [List.mem_cons, exists_eq_or_imp, or_assoc]

theorem separator_not_mem_of_mem_names {p : Path} {name : Text}
    (h : name ∈ names p) :
    separator ∉ name := by
  induction p generalizing name with
  | nil =>
      rw [List.mem_singleton.mp h]
      exact List.not_mem_nil
  | cons first rest ih =>
      rw [names] at h
      split at h
      case isTrue =>
        rcases List.mem_cons.mp h with rfl | hmem
        · exact List.not_mem_nil
        · exact ih hmem
      case isFalse hne =>
        cases hnames : names rest with
        | nil => exact absurd hnames (names_ne_nil rest)
        | cons name' ns =>
            rw [hnames, Text.prepend] at h
            rw [hnames] at ih
            rcases List.mem_cons.mp h with rfl | hmem
            · exact List.not_mem_cons_of_ne_of_not_mem (Ne.symm hne)
                (ih List.mem_cons_self)
            · exact ih (List.mem_cons_of_mem name' hmem)

/-! Joining. -/

variable {base target : Path}

/-- A separator at the end of the left side gives way to the one between. -/
theorem names_join (hrelative : isAbsolute target = false) (hbase : base ≠ []) :
    names (join base target) = names base ++ names target ∨
      ∃ start, names base = start ++ [[]] ∧
        names (join base target) = start ++ names target := by
  rw [join, hrelative, if_neg Bool.false_ne_true]
  by_cases hlast : base.getLast? = some separator
  · obtain ⟨start, rfl⟩ := List.getLast?_eq_some_iff.mp hlast
    refine .inr ⟨names start, names_append_separator start [], ?_⟩
    rw [if_pos (.inr hlast), List.append_assoc]
    exact names_append_separator start target
  · rw [if_neg (not_or.mpr ⟨hbase, hlast⟩)]
    exact .inl (names_append_separator base target)

theorem getLast?_names_join (hrelative : isAbsolute target = false)
    (hbase : base ≠ []) :
    (names (join base target)).getLast? = (names target).getLast? := by
  have hne := names_ne_nil target
  rcases names_join hrelative hbase with hnames | ⟨start, _, hnames⟩
  · rw [hnames, List.getLast?_append_of_ne_nil _ hne]
  · rw [hnames, List.getLast?_append_of_ne_nil _ hne]

theorem join_ne_nil (hrelative : isAbsolute target = false)
    (hbase : base ≠ []) :
    join base target ≠ [] := by
  rw [join, hrelative, if_neg Bool.false_ne_true]
  split
  · exact List.append_ne_nil_of_left_ne_nil hbase target
  · exact List.append_ne_nil_of_left_ne_nil hbase _

theorem isAbsolute_join (hrelative : isAbsolute target = false)
    (hbase : base ≠ []) :
    isAbsolute (join base target) = isAbsolute base := by
  obtain ⟨c, rest, rfl⟩ := List.exists_cons_of_ne_nil hbase
  rw [join, hrelative, if_neg Bool.false_ne_true]
  split
  · rfl
  · rfl

theorem mem_join_iff (hrelative : isAbsolute target = false) {c : Char}
    (hc : c ≠ separator) :
    c ∈ join base target ↔ c ∈ base ∨ c ∈ target := by
  rw [join, hrelative, if_neg Bool.false_ne_true]
  split
  · exact List.mem_append
  · rw [List.mem_append, List.mem_cons, or_iff_right hc]

theorem confine?_eq_some_iff {base target path : Path} :
    confine? base target = some path ↔
      isAbsolute target = false ∧ parent ∉ names target ∧
      path = join base target := by
  rw [confine?]
  by_cases h : isAbsolute target = true ∨ parent ∈ names target
  · rw [if_pos h]
    refine iff_of_false nofun ?_
    rintro ⟨hrelative, hinside, _⟩
    rcases h with habsolute | hparent
    · exact Bool.false_ne_true (hrelative.symm.trans habsolute)
    · exact hinside hparent
  · obtain ⟨hrelative, hinside⟩ := not_or.mp h
    rw [if_neg h, Option.some.injEq]
    constructor
    · intro hpath
      exact ⟨(Bool.not_eq_true _).mp hrelative, hinside, hpath.symm⟩
    · exact fun hpath => hpath.2.2.symm

/-! File names. -/

variable {name other : Text} {before : List Text}

theorem exists_dropTrivialEnd (ns : List Text) :
    ∃ dropped, ns = dropTrivialEnd ns ++ dropped ∧
      ∀ name ∈ dropped, isTrivial name = true := by
  refine ⟨(ns.reverse.takeWhile isTrivial).reverse, ?_, fun name hname => ?_⟩
  · rw [dropTrivialEnd, ← List.reverse_append, List.takeWhile_append_dropWhile,
      List.reverse_reverse]
  · exact List.all_eq_true.mp List.all_takeWhile name
      (List.mem_reverse.mp hname)

theorem dropTrivialEnd_concat (h : isTrivial name = false) (ns : List Text) :
    dropTrivialEnd (ns ++ [name]) = ns ++ [name] := by
  rw [dropTrivialEnd, List.reverse_concat, List.dropWhile_cons_of_neg,
    List.reverse_cons, List.reverse_reverse]
  rw [h]
  exact Bool.false_ne_true

theorem dropTrivialEnd_cases (ns : List Text) :
    dropTrivialEnd ns = [] ∨
      ∃ start last, dropTrivialEnd ns = start ++ [last] ∧
        isTrivial last = false := by
  rw [dropTrivialEnd]
  cases hdrop : ns.reverse.dropWhile isTrivial with
  | nil => exact .inl rfl
  | cons last start =>
      refine .inr ⟨start.reverse, last, List.reverse_cons, ?_⟩
      have hne : ns.reverse.dropWhile isTrivial ≠ [] :=
        hdrop ▸ List.cons_ne_nil last start
      simpa [hdrop] using List.head_dropWhile_not isTrivial hne

private theorem exists_of_isAbsolute (h : isAbsolute base = true) :
    ∃ rest, base = separator :: rest := by
  cases base with
  | nil => cases h
  | cons c rest =>
      exact ⟨rest, congrArg (· :: rest) (Option.some.inj (beq_iff_eq.mp h))⟩

private theorem directory_absolute (rest : Path) :
    Path.directory (separator :: rest) =
      separator ::
        ofNames (dropTrivialEnd (dropTrivialEnd (names rest)).dropLast) := rfl

private theorem directory_relative (h : isAbsolute base = false) :
    Path.directory base = ofNames (directoryNames (names base)) := by
  rw [Path.directory.eq_def]
  split
  case h_1 => cases h
  case h_2 => rfl

private theorem fileName?_of_names (hnames : names base = before ++ [name])
    (hname : isTrivial name = false) (hparent : name ≠ parent) :
    fileName? base = some name := by
  have hkeep : [name].filter (fun name => !isTrivial name) = [name] := by
    rw [List.filter_cons_of_pos (by rw [hname]; rfl), List.filter_nil]
  rw [fileName?, hnames, List.filter_append, hkeep, List.getLast?_concat,
    Option.filter_some_pos]
  exact bne_iff_ne.mpr hparent

theorem isAbsolute_of_no_separator (h : separator ∉ other) :
    isAbsolute other = false := by
  rw [isAbsolute, beq_eq_false_iff_ne]
  exact fun hhead => h (List.mem_of_head? hhead)

theorem names_join_of_last {start : List Text} {last : Text} (hbase : base ≠ [])
    (hnames : names base = start ++ [last]) (hlast : isTrivial last = false)
    (hother : separator ∉ other) :
    names (join base other) = names base ++ [other] := by
  rw [← names_eq_singleton hother]
  rcases names_join (isAbsolute_of_no_separator hother) hbase with
    h | ⟨start', hstart, _⟩
  · exact h
  · rw [hnames] at hstart
    obtain ⟨_, hnil⟩ := List.append_inj' hstart rfl
    rw [(List.cons.inj hnil).1] at hlast
    cases hlast

private theorem exists_names_of_relative (h : isAbsolute base = false)
    (hne : base ≠ []) :
    ∃ first others, names base = first :: others ∧ first ≠ [] := by
  obtain ⟨c, rest, rfl⟩ := List.exists_cons_of_ne_nil hne
  have hc : c ≠ separator := by
    rintro rfl
    cases h
  rw [names, if_neg hc]
  cases hnames : names rest with
  | nil => exact absurd hnames (names_ne_nil rest)
  | cons name ns => exact ⟨c :: name, ns, rfl, List.cons_ne_nil c name⟩

private theorem isAbsolute_ofNames {first : Text} (hne : first ≠ [])
    (h : separator ∉ first) (others : List Text) :
    isAbsolute (ofNames (first :: others)) = false := by
  obtain ⟨c, rest, rfl⟩ := List.exists_cons_of_ne_nil hne
  have hc : c ≠ separator := fun heq => h (heq ▸ List.mem_cons_self)
  have hhead : (ofNames ((c :: rest) :: others)).head? = some c := by
    cases others with
    | nil => rw [ofNames_singleton, List.head?_cons]
    | cons name others =>
        rw [ofNames_cons (List.cons_ne_nil name others), List.cons_append,
          List.head?_cons]
  rw [isAbsolute, hhead, beq_eq_false_iff_ne]
  exact fun heq => hc (Option.some.inj heq)

/-- The path `sibling` has another last name in place of that of `path`. Trivial
names before it may be missing. -/
structure Sibling (path : Path) (before : List Text) (other : Text)
    (sibling : Path) : Prop where
  names : ∃ kept dropped, before = kept ++ dropped ∧
    (∀ name ∈ dropped, isTrivial name = true) ∧ names sibling = kept ++ [other]
  absolute : isAbsolute sibling = isAbsolute path

private theorem exists_names_join_absolute (hother : separator ∉ other)
    (h : ∀ name ∈ before, separator ∉ name) :
    ∃ dropped, before = dropTrivialEnd before ++ dropped ∧
      (∀ name ∈ dropped, isTrivial name = true) ∧
      names (join (separator :: ofNames (dropTrivialEnd before)) other) =
        [] :: dropTrivialEnd before ++ [other] := by
  obtain ⟨dropped, hdropped, htrivial⟩ := exists_dropTrivialEnd before
  refine ⟨dropped, hdropped, htrivial, ?_⟩
  rcases dropTrivialEnd_cases before with hnil | ⟨start, last, hkept, hlast⟩
  · rw [hnil, join, isAbsolute_of_no_separator hother,
      if_neg Bool.false_ne_true, if_pos (by decide)]
    exact (names_append_separator [] other).trans
      (congrArg ([[]] ++ ·) (names_eq_singleton hother))
  · have hdirectory : names (separator :: ofNames (dropTrivialEnd before)) =
        ([] :: start) ++ [last] := by
      rw [names, if_pos rfl, names_ofNames, hkept, List.cons_append]
      · rw [hkept]
        simp
      · exact fun name hmem =>
          h name (hdropped ▸ List.mem_append_left dropped hmem)
    rw [names_join_of_last (List.cons_ne_nil _ _) hdirectory hlast hother,
      hdirectory, hkept, List.cons_append]

private theorem ofNames_kept {start : List Text} {last : Text}
    (hlast : isTrivial last = false)
    (h : ∀ name ∈ start ++ [last], separator ∉ name) :
    names (ofNames (start ++ [last])) = start ++ [last] ∧
    ofNames (start ++ [last]) ≠ [] := by
  have hnames := names_ofNames (by simp) h
  refine ⟨hnames, fun hnil => ?_⟩
  rw [hnil] at hnames
  obtain ⟨_, heq⟩ :=
    List.append_inj' (show [] ++ [[]] = start ++ [last] from hnames) rfl
  rw [← (List.cons.inj heq).1] at hlast
  cases hlast

private theorem sibling_of_absolute {rest : Path}
    (hnames : names (separator :: rest) = before ++ [name])
    (hname : isTrivial name = false) (hother : separator ∉ other) :
    Sibling (separator :: rest) before other
      (join (Path.directory (separator :: rest)) other) := by
  have hfree : ∀ name ∈ before, separator ∉ name := fun name hmem =>
    separator_not_mem_of_mem_names (hnames ▸ List.mem_append_left _ hmem)
  rw [names, if_pos rfl] at hnames
  cases before with
  | nil => exact absurd (List.cons.inj hnames).2 (names_ne_nil rest)
  | cons first before =>
      obtain rfl := (List.cons.inj hnames).1
      have hrest : names rest = before ++ [name] := (List.cons.inj hnames).2
      obtain ⟨dropped, hdropped, htrivial, hjoin⟩ :=
        exists_names_join_absolute hother (List.forall_mem_cons.mp hfree).2
      rw [directory_absolute, hrest, dropTrivialEnd_concat hname,
        List.dropLast_concat]
      refine ⟨⟨[] :: dropTrivialEnd before, dropped, ?_, htrivial, hjoin⟩, ?_⟩
      · rw [List.cons_append, ← hdropped]
      · exact isAbsolute_join (isAbsolute_of_no_separator hother)
          (List.cons_ne_nil _ _)

private theorem sibling_of_relative (hrelative : isAbsolute base = false)
    (hnames : names base = before ++ [name]) (hbase : base ≠ [])
    (hname : isTrivial name = false) (hother : separator ∉ other) :
    Sibling base before other (join (Path.directory base) other) := by
  have hotherRelative := isAbsolute_of_no_separator hother
  rw [directory_relative hrelative, directoryNames, hnames,
    dropTrivialEnd_concat hname, List.dropLast_concat]
  obtain ⟨dropped, hdropped, htrivial⟩ := exists_dropTrivialEnd before
  -- Trivial names alone before the last one leave `.` or nothing.
  rcases dropTrivialEnd_cases before with hnil | ⟨start, last, hkept, hlast⟩
  · rw [hnil, List.nil_append] at hdropped
    rw [hnil]
    by_cases hdot : (before ++ [name]).head? = some ['.']
    · cases before with
      | nil =>
          rw [Option.some.inj hdot] at hname
          cases hname
      | cons first before =>
          obtain rfl := Option.some.inj hdot
          rw [if_pos ⟨rfl, rfl⟩]
          refine ⟨⟨[['.']], before, rfl, fun name hmem => ?_, ?_⟩, ?_⟩
          · exact htrivial name (hdropped ▸ List.mem_cons_of_mem _ hmem)
          · rw [join, hotherRelative, if_neg Bool.false_ne_true,
              if_neg (by decide)]
            exact (names_append_separator ['.'] other).trans
              (congrArg ([['.']] ++ ·) (names_eq_singleton hother))
          · exact (isAbsolute_join hotherRelative (List.cons_ne_nil _ _)).trans
              hrelative.symm
    · have hjoin : join (ofNames []) other = other := by
        rw [join, hotherRelative, if_neg Bool.false_ne_true]
        rfl
      rw [if_neg fun h => hdot h.2, hjoin]
      exact ⟨⟨[], before, rfl, hdropped ▸ htrivial, names_eq_singleton hother⟩,
        hotherRelative.trans hrelative.symm⟩
  · have hfree : ∀ name ∈ start ++ [last], separator ∉ name := by
      intro name hmem
      refine separator_not_mem_of_mem_names (?_ : name ∈ names base)
      rw [hnames, hdropped, hkept]
      exact List.mem_append_left _ (List.mem_append_left _ hmem)
    obtain ⟨hdirectory, hne⟩ := ofNames_kept hlast hfree
    have hkeptNe : start ++ [last] ≠ [] := by simp
    obtain ⟨first, others, hfirst⟩ := List.exists_cons_of_ne_nil hkeptNe
    obtain ⟨first', _, hfirst', hfirstNe⟩ :=
      exists_names_of_relative hrelative hbase
    have heq : first = first' := by
      rw [hnames, hdropped, hkept, hfirst] at hfirst'
      exact (List.cons.inj hfirst').1
    have hdirectoryRelative :
        isAbsolute (ofNames (start ++ [last])) = false := by
      rw [hfirst] at hfree ⊢
      exact isAbsolute_ofNames (heq ▸ hfirstNe)
        (hfree first List.mem_cons_self) others
    rw [hkept, if_neg fun h => hkeptNe h.1]
    refine ⟨⟨start ++ [last], dropped, hkept ▸ hdropped, htrivial, ?_⟩, ?_⟩
    · rw [names_join_of_last hne hdirectory hlast hother, hdirectory]
    · rw [isAbsolute_join hotherRelative hne, hdirectoryRelative, hrelative]

theorem sibling_withFileName (hnames : names base = before ++ [name])
    (hname : isTrivial name = false) (hparent : name ≠ parent)
    (hother : separator ∉ other) :
    Sibling base before other (withFileName base other) := by
  have hbase : base ≠ [] := by
    rintro rfl
    obtain ⟨_, hnil⟩ :=
      List.append_inj' (show [] ++ [[]] = before ++ [name] from hnames) rfl
    rw [← (List.cons.inj hnil).1] at hname
    cases hname
  rw [withFileName, fileName?_of_names hnames hname hparent,
    if_pos Option.isSome_some]
  by_cases habsolute : isAbsolute base = true
  · obtain ⟨rest, rfl⟩ := exists_of_isAbsolute habsolute
    exact sibling_of_absolute hnames hname hother
  · exact sibling_of_relative ((Bool.not_eq_true _).mp habsolute) hnames hbase
      hname hother

theorem exists_names_withFileName (hother : separator ∉ other) (path : Path) :
    ∃ before, names (withFileName path other) = before ++ [other] := by
  have hjoin (base : Path) : ∃ before,
      names (join base other) = before ++ [other] := by
    by_cases hbase : base = []
    · refine ⟨[], ?_⟩
      rw [hbase, join, isAbsolute_of_no_separator hother,
        if_neg Bool.false_ne_true]
      exact names_eq_singleton hother
    · rw [← names_eq_singleton hother]
      rcases names_join (isAbsolute_of_no_separator hother) hbase with
        h | ⟨start, _, h⟩
      · exact ⟨_, h⟩
      · exact ⟨_, h⟩
  rw [withFileName]
  split
  · exact hjoin _
  · exact hjoin _

/-! The path of a place. -/

variable {directory : Place}

theorem names_path {place : Place} (hne : place ≠ [])
    (h : ∀ name ∈ place, IsName name) :
    names place.path = [] :: place.reverse := by
  rw [Place.path, names, if_pos rfl, names_ofNames]
  · simpa using hne
  · exact fun name hname => (h name (List.mem_reverse.mp hname)).no_separator

theorem path_singleton (name : Text) : Place.path [name] = separator :: name :=
  congrArg (separator :: ·) (ofNames_singleton name)

theorem path_cons (hne : directory ≠ []) (name : Text) :
    Place.path (name :: directory) =
      Place.path directory ++ separator :: name := by
  rw [Place.path, List.reverse_cons, ofNames_concat (by simpa using hne)]
  rfl

theorem path_prefix {place : Place} (hne : directory ≠ [])
    (h : directory <:+ place) : Place.path directory <+: place.path := by
  induction place with
  | nil => exact absurd (List.suffix_nil.mp h) hne
  | cons name place ih =>
      rcases List.suffix_cons_iff.mp h with rfl | hbelow
      · exact List.prefix_rfl
      · have hplace : place ≠ [] := by
          rintro rfl
          exact hne (List.suffix_nil.mp hbelow)
        rw [path_cons hplace]
        exact (ih hbelow).trans (List.prefix_append _ _)

theorem path_ne_nil (place : Place) : place.path ≠ [] := List.cons_ne_nil _ _

end Path

end TextOverride
