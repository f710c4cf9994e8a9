import TextOverride.Proofs.FileTree.Ending

namespace TextOverride.FileTree

variable {t t' : FileTree} {follow : Bool} {links : Nat}
    {place reached home : Place}
  {name new : Text} {directory : Place} {names : List Text}
  {content : Utf8.Bytes} {mode : Nat} {path : Path}

theorem node?_set_of_ne (h : place ≠ new :: directory) (node : Node) :
    (t.set (new :: directory) node).node? place = t.node? place := by
  rw [node?_set, if_neg h]

theorem isDirectoryAt_set_file (h : t.isDirectoryAt (new :: directory) = false)
    (content : Utf8.Bytes) (mode : Nat) (place : Place) :
    (t.set (new :: directory) (.file content mode)).isDirectoryAt place =
      t.isDirectoryAt place := by
  rw [isDirectoryAt, node?_set]
  by_cases heq : place = new :: directory
  · rw [if_pos heq, heq, h]
  · rw [if_neg heq, isDirectoryAt]

theorem allowsAt_set_file (h : t.isDirectoryAt (new :: directory) = false)
    (content : Utf8.Bytes) (mode : Nat) (hplace : t.isDirectoryAt place = true)
    (allows : Nat → Bool) :
    (t.set (new :: directory) (.file content mode)).allowsAt allows place =
      t.allowsAt allows place := by
  rw [allowsAt, node?_set_of_ne, allowsAt]
  rintro rfl
  rw [h] at hplace
  cases hplace

theorem Open.set_file (hopen : t.Open place)
    (h : t.isDirectoryAt (new :: directory) = false) (content : Utf8.Bytes)
    (mode : Nat) :
    (t.set (new :: directory) (.file content mode)).Open place where
  directory :=
    (isDirectoryAt_set_file h content mode place).trans hopen.directory
  searchable :=
    (allowsAt_set_file h content mode hopen.directory Node.searchable).trans
      hopen.searchable

private theorem Open.of_set_file
    (h : t.isDirectoryAt (new :: directory) = false)
    (hopen : (t.set (new :: directory) (.file content mode)).Open place) :
    t.Open place := by
  have hdirectory :=
    (isDirectoryAt_set_file h content mode place).symm.trans hopen.directory
  exact ⟨hdirectory,
    (allowsAt_set_file h content mode hdirectory Node.searchable).symm.trans
    hopen.searchable⟩

/-- A new file makes a difference to its own name, where that is looked up. -/
theorem stride_set_file (h : t.isDirectoryAt (new :: directory) = false)
    (content : Utf8.Bytes) (mode : Nat) (place : Place) (name : Text) :
    (t.set (new :: directory) (.file content mode)).stride place name =
      t.stride place name ∨
      name :: place = new :: directory ∧ t.Open place ∧ Sought name ∧
        (t.set (new :: directory) (.file content mode)).stride place name =
          .onward (name :: place) := by
  have hdirectory := isDirectoryAt_set_file h content mode place
  by_cases hplace : t.isDirectoryAt place = true
  case neg =>
    have hnot := (Bool.not_eq_true _).mp hplace
    left
    rw [stride_notDirectory hnot, stride_notDirectory (hdirectory.trans hnot)]
  have hsearchable := allowsAt_set_file h content mode hplace Node.searchable
  by_cases heq : name :: place = new :: directory
  · rcases t.sought_or_stride_eq place name with ⟨hopen, hname⟩ | hsame
    · refine .inr ⟨heq, hopen, hname, ?_⟩
      rw [(hopen.set_file h content mode).stride_sought hname, heq,
        node?_set_self]
    · exact .inl (hsame _ hdirectory hsearchable)
  · exact .inl (stride_congr hdirectory hsearchable (node?_set_of_ne heq _))

/-! A vacant name. -/

/-- What a lookup may come to as well when a file takes a vacant name. -/
inductive Taken (directory : Place) (name : Text) :
    Except OsError Target → Except OsError Target → Prop
  | same {result : Except OsError Target}
      (h : result ≠ .ok (.vacant directory name)) :
      Taken directory name result result
  | found : Taken directory name (.ok (.vacant directory name))
      (.ok (.present (name :: directory)))
  | passed : Taken directory name (.error .noEntry) (.error .notDirectory)

theorem Taken.error (e : OsError) :
    Taken directory name (.error e) (.error e) := by
  refine .same fun h => ?_
  cases h

private theorem Taken.present (place : Place) :
    Taken directory name (.ok (.present place)) (.ok (.present place)) := by
  refine .same fun h => ?_
  cases h

theorem Taken.of_vacant {result : Except OsError Target}
    (h : Taken directory name (.ok (.vacant directory name)) result) :
    result = .ok (.present (name :: directory)) := by
  cases h with
  | same h => exact absurd rfl h
  | found => rfl

private theorem Taken.eq_of_present {result : Except OsError Target}
    (h : Taken directory name (.ok (.present place)) result) :
    result = .ok (.present place) := by
  cases h with
  | same => rfl

theorem Taken.of_present {result : Except OsError Target}
    (h : Taken directory name result (.ok (.present place))) :
    result = .ok (.present place) ∨ place = name :: directory := by
  cases h with
  | same h => exact .inl rfl
  | found => exact .inr rfl

theorem walk_taken (h : t.node? (new :: directory) = none)
    (content : Utf8.Bytes) (mode : Nat) (follow : Bool) (links : Nat)
    (place : Place) (names : List Text) :
    Taken directory new (t.walk follow links place names)
      ((t.set (new :: directory) (.file content mode)).walk follow links place
        names) := by
  induction links, place, names using walk_induction with
  | nil links place =>
      rw [walk_nil, walk_nil]
      exact .present place
  | cons links place name rest ihNames ihLinks =>
      have hnot := isDirectoryAt_of_vacant h
      rcases stride_set_file hnot content mode place name with
        hsame | ⟨heq, hopen, hname, hstride⟩
      · rw [walk_stride, walk_stride, hsame]
        cases hstride : t.stride place name with
        | refused e => exact .error e
        | vacant =>
            cases rest with
            | nil =>
                -- This name is vacant in the later tree, so it is not the one
                -- taken.
                refine .same fun heq => ?_
                cases heq
                have hnone := node?_of_stride_vacant (hsame.trans hstride)
                rw [node?_set_self] at hnone
                cases hnone
            | cons next rest => exact .error .noEntry
        | onward next => exact ihNames next
        | link next others =>
            simp only
            split
            case isTrue => exact .present (name :: place)
            case isFalse =>
              cases links with
              | zero => exact .error .tooManyLinks
              | succ links =>
                  exact ihLinks links links.lt_succ_self next (others ++ rest)
      · -- The walk comes by the new file: it ends there, or cannot go on.
        have hvacant : t.stride place name = .vacant := by
          rw [hopen.stride_sought hname, heq, h]
        obtain ⟨rfl, rfl⟩ := List.cons.inj heq
        rw [walk_stride, walk_stride, hstride, hvacant]
        simp only
        cases rest with
        | nil =>
            rw [walk_nil]
            exact .found
        | cons next rest =>
            have hfile :=
              (isDirectoryAt_set_file hnot content mode _).trans hnot
            rw [if_neg (List.cons_ne_nil next rest),
              walk_refused (stride_notDirectory hfile next)]
            exact .passed

theorem resolve_taken (h : t.node? (new :: directory) = none)
    (content : Utf8.Bytes) (mode : Nat) (home : Place) (follow : Bool)
    (path : Path) :
    Taken directory new (t.resolve home follow path)
      ((t.set (new :: directory) (.file content mode)).resolve home follow
        path) := by
  rw [resolve, resolve]
  split
  case isTrue => exact .error .nulInPath
  case isFalse =>
    split
    case isTrue => exact .error .noEntry
    case isFalse =>
      split
      case isTrue => exact .error .nameTooLong
      case isFalse => exact walk_taken h content mode follow linkLimit _ _

theorem EndsIn.set_vacant (h : t.EndsIn home path directory name)
    {within : Place} (hvacant : t.node? (new :: within) = none)
    (content : Utf8.Bytes) (mode : Nat) :
    (t.set (new :: within) (.file content mode)).EndsIn home path directory
      name := by
  obtain ⟨before, hnames, hwalk⟩ := h.walk
  have htaken :=
    walk_taken hvacant content mode true linkLimit (origin home path) before
  rw [hwalk] at htaken
  exact { h with
    walk := ⟨before, hnames, htaken.eq_of_present⟩
    opened := h.opened.set_file (isDirectoryAt_of_vacant hvacant) content mode }

/-- What takes a vacant name is nothing to a path to a directory. -/
theorem EndsIn.of_set_vacant {within : Place}
    (hvacant : t.node? (new :: within) = none)
    (h : (t.set (new :: within) (.file content mode)).EndsIn home path
      directory name) :
    t.EndsIn home path directory name := by
  have hopen := h.opened.of_set_file (isDirectoryAt_of_vacant hvacant)
  obtain ⟨before, hnames, hwalk⟩ := h.walk
  have htaken :=
    walk_taken hvacant content mode true linkLimit (origin home path) before
  rw [hwalk] at htaken
  refine { h with
    walk := ⟨before, hnames, htaken.of_present.resolve_right fun heq => ?_⟩
    opened := hopen }
  have hdirectory := hopen.directory
  rw [heq, isDirectoryAt_of_vacant hvacant] at hdirectory
  cases hdirectory

theorem stride_of_walk_vacant
    (h : t.walk follow links place names = .ok (.vacant directory new)) :
    t.stride directory new = .vacant := by
  induction links, place, names using walk_induction with
  | nil links place =>
      rw [walk_nil] at h
      cases h
  | cons links place name rest ihNames ihLinks =>
      rw [walk_stride] at h
      cases hstride : t.stride place name with
      | refused e =>
          rw [hstride] at h
          cases h
      | vacant =>
          rw [hstride] at h
          simp only at h
          split at h
          case isTrue =>
            cases h
            exact hstride
          case isFalse => cases h
      | onward next =>
          rw [hstride] at h
          exact ihNames next h
      | link next others =>
          rw [hstride] at h
          simp only at h
          split at h
          case isTrue => cases h
          case isFalse =>
            cases links with
            | zero => cases h
            | succ links =>
                exact ihLinks links links.lt_succ_self next (others ++ rest) h

theorem node?_of_resolve_vacant
    (h : t.resolve home follow path = .ok (.vacant directory new)) :
    t.node? (new :: directory) = none :=
  node?_of_stride_vacant
    (stride_of_walk_vacant (exists_walk_of_resolve h).2.2.2)

theorem open_of_resolve_vacant
    (h : t.resolve home follow path = .ok (.vacant directory new)) :
    t.Open directory := by
  have hvacant := stride_of_walk_vacant (exists_walk_of_resolve h).2.2.2
  rcases t.stride_cases directory new with
    ⟨hopen, _⟩ | ⟨e, hstride⟩ | ⟨_, ⟨_, hstride⟩ | ⟨_, hstride⟩⟩
  · exact hopen
  · cases hstride.symm.trans hvacant
  · cases hstride.symm.trans hvacant
  · cases hstride.symm.trans hvacant

/-- A walk to a node stays as it is, unless it went through a link that the file
has taken the place of; that link then led to a node itself. -/
theorem walk_set_file (hnot : t.isDirectoryAt (new :: directory) = false)
    (content : Utf8.Bytes) (mode : Nat)
    (h : t.walk true links place names = .ok (.present reached)) :
    (t.set (new :: directory) (.file content mode)).walk true links
      place names =
        .ok (.present reached) ∨
      ∃ target allowed between, t.node? (new :: directory) =
        some (.link target) ∧
        t.walk true allowed (origin directory target) (Path.names target) =
          .ok (.present between) := by
  induction links, place, names using walk_induction with
  | nil links place =>
      rw [walk_nil] at h ⊢
      exact .inl h
  | cons links place name rest ihNames ihLinks =>
      rcases stride_set_file hnot content mode place name with
        hsame | ⟨heq, hopen, hname, hset⟩
      · rcases exists_of_walk_present (.inl rfl) h with
          ⟨next, hstride, hnext⟩ | ⟨next, others, fewer, hstride, rfl, hnext⟩
        · rw [walk_onward (hsame.trans hstride)]
          exact ihNames next hnext
        · rw [walk_link (hsame.trans hstride) (.inl rfl)]
          exact ihLinks fewer fewer.lt_succ_self next (others ++ rest) hnext
      · -- The new file stands where the walk met a node or a link before.
        obtain ⟨rfl, rfl⟩ := List.cons.inj heq
        rw [walk_onward hset]
        rcases exists_of_walk_present (.inl rfl) h with
          ⟨next, hstride, hnext⟩ | ⟨next, others, fewer, hstride, rfl, hnext⟩
        · obtain ⟨rfl, _⟩ := hopen.solid_of_onward hname hstride
          exact ihNames _ hnext
        · obtain ⟨_, _, target, hnode, rfl, rfl⟩ :=
            exists_of_stride_link hstride
          obtain ⟨between, hbetween⟩ := exists_of_walk_prefix hnext
          exact .inr ⟨target, fewer, between, hnode, hbetween⟩

end TextOverride.FileTree
