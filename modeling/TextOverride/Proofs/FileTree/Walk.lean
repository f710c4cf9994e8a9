import TextOverride.Proofs.FileTree.Shape
import TextOverride.Proofs.Path

namespace TextOverride.FileTree

variable {t t' : FileTree} {follow : Bool} {links : Nat}
    {place reached home : Place}
  {name : Text} {names rest : List Text} {path : Path} {found : Target}

structure Open (t : FileTree) (place : Place) : Prop where
  directory : t.isDirectoryAt place = true
  searchable : t.allowsAt Node.searchable place = true

/-- There is a node at the place, and it is no link. -/
def Solid (t : FileTree) (place : Place) : Prop :=
  ∃ node, t.node? place = some node ∧ node.mode? ≠ none

theorem solid_of_isDirectoryAt (h : t.isDirectoryAt place = true) :
    t.Solid place := by
  obtain ⟨mode, hnode⟩ := exists_mode_of_isDirectoryAt h
  exact ⟨_, hnode, Option.some_ne_none mode⟩

theorem solid_of_node? {node : Node} (h : t.node? place = some node)
    (hlink : ∀ target, node ≠ .link target) : t.Solid place := by
  refine ⟨node, h, node.link_or_mode?.resolve_left ?_⟩
  rintro ⟨target, rfl⟩
  exact hlink target rfl

theorem Solid.node?_ne_none (h : t.Solid place) : t.node? place ≠ none := by
  obtain ⟨node, hnode, _⟩ := h
  exact Option.ne_none_iff_exists'.mpr ⟨node, hnode⟩

/-- A name that a walk looks up in a directory. -/
structure Sought (name : Text) : Prop where
  nontrivial : Path.isTrivial name = false
  ne_parent : name ≠ Path.parent
  byteSize_le : name.byteSize ≤ nameLimit

theorem ne_nil_of_nontrivial (h : Path.isTrivial name = false) : name ≠ [] := by
  rintro rfl
  exact absurd h (by decide)

theorem stride_notDirectory (h : t.isDirectoryAt place = false) (name : Text) :
    t.stride place name = .refused .notDirectory := by
  rw [stride, if_pos h]

theorem stride_separator (h : t.isDirectoryAt place = true) :
    t.stride place [] = .onward place := by
  rw [stride, if_neg ((Bool.not_eq_false _).mpr h), if_pos rfl]

namespace Open

theorem stride_eq (h : t.Open place) (hne : name ≠ []) :
    t.stride place name =
      if Path.isTrivial name then .onward place
      else if name = Path.parent then .onward place.tail
      else if nameLimit < name.byteSize then .refused .nameTooLong
      else
        match t.node? (name :: place) with
        | none => .vacant
        | some (.link target) => .link (origin place target) (Path.names target)
        | some _ => .onward (name :: place) := by
  rw [stride, if_neg ((Bool.not_eq_false _).mpr h.directory), if_neg hne]
  exact if_neg ((Bool.not_eq_false _).mpr h.searchable)

theorem stride_trivial (h : t.Open place) (hname : Path.isTrivial name = true) :
    t.stride place name = .onward place := by
  by_cases hne : name = []
  · rw [hne]
    exact stride_separator h.directory
  · rw [h.stride_eq hne, if_pos hname]

theorem stride_tooLong (h : t.Open place)
    (hnontrivial : Path.isTrivial name = false) (hparent : name ≠ Path.parent)
    (hsize : nameLimit < name.byteSize) :
    t.stride place name = .refused .nameTooLong := by
  rw [h.stride_eq (ne_nil_of_nontrivial hnontrivial),
    if_neg ((Bool.not_eq_true _).mpr hnontrivial), if_neg hparent, if_pos hsize]

theorem stride_sought (h : t.Open place) (hname : Sought name) :
    t.stride place name =
      match t.node? (name :: place) with
      | none => .vacant
      | some (.link target) => .link (origin place target) (Path.names target)
      | some _ => .onward (name :: place) := by
  rw [h.stride_eq (ne_nil_of_nontrivial hname.nontrivial),
    if_neg ((Bool.not_eq_true _).mpr hname.nontrivial), if_neg hname.ne_parent]
  exact if_neg (Nat.not_lt.mpr hname.byteSize_le)

theorem solid_of_onward {next : Place} (h : t.Open place) (hname : Sought name)
    (hstride : t.stride place name = .onward next) :
    next = name :: place ∧ t.Solid next := by
  rw [h.stride_sought hname] at hstride
  split at hstride
  case h_1 => cases hstride
  case h_2 => cases hstride
  case h_3 node hlink hnode =>
    cases hstride
    exact ⟨rfl, solid_of_node? hnode hlink⟩

theorem stride_solid (h : t.Open place) (hname : Sought name)
    (hsolid : t.Solid (name :: place)) :
    t.stride place name = .onward (name :: place) := by
  obtain ⟨node, hnode, hmode⟩ := hsolid
  rw [h.stride_sought hname, hnode]
  cases node with
  | file content mode => rfl
  | directory mode => rfl
  | link target => exact absurd rfl hmode

end Open

/-- A name is looked up, or the directory alone settles what becomes of it. -/
theorem stride_cases (t : FileTree) (place : Place) (name : Text) :
    t.Open place ∧ Sought name ∨
      (∃ e, t.stride place name = .refused e) ∨
      t.isDirectoryAt place = true ∧
        (Path.isTrivial name = true ∧ t.stride place name = .onward place ∨
          name = Path.parent ∧ t.stride place name = .onward place.tail) := by
  by_cases hdirectory : t.isDirectoryAt place = true
  case neg =>
    exact .inr
      (.inl ⟨_, stride_notDirectory ((Bool.not_eq_true _).mp hdirectory) name⟩)
  by_cases hne : name = []
  · rw [hne]
    exact .inr (.inr ⟨hdirectory, .inl ⟨rfl, stride_separator hdirectory⟩⟩)
  by_cases hsearchable : t.allowsAt Node.searchable place = true
  case neg =>
    refine .inr (.inl ⟨.permissionDenied, ?_⟩)
    rw [stride, if_neg ((Bool.not_eq_false _).mpr hdirectory), if_neg hne]
    exact if_pos ((Bool.not_eq_true _).mp hsearchable)
  have hopen : t.Open place := ⟨hdirectory, hsearchable⟩
  rcases Path.name_cases name with htrivial | rfl | ⟨hnontrivial, hparent⟩
  · exact .inr
      (.inr ⟨hdirectory, .inl ⟨htrivial, hopen.stride_trivial htrivial⟩⟩)
  · refine .inr (.inr ⟨hdirectory, .inr ⟨rfl, ?_⟩⟩)
    rw [hopen.stride_eq hne, if_neg (by decide), if_pos rfl]
  by_cases hsize : name.byteSize ≤ nameLimit
  · exact .inl ⟨hopen, hnontrivial, hparent, hsize⟩
  · exact .inr
      (.inl ⟨_, hopen.stride_tooLong hnontrivial hparent
        (Nat.lt_of_not_le hsize)⟩)

theorem sought_or_stride_eq (t : FileTree) (place : Place) (name : Text) :
    t.Open place ∧ Sought name ∨
      ∀ t' : FileTree, t'.isDirectoryAt place = t.isDirectoryAt place →
        t'.allowsAt Node.searchable place = t.allowsAt Node.searchable place →
        t'.stride place name = t.stride place name := by
  by_cases hsought : t.isDirectoryAt place = true ∧
      t.allowsAt Node.searchable place = true ∧ Path.isTrivial name = false ∧
      name ≠ Path.parent ∧ name.byteSize ≤ nameLimit
  · obtain ⟨hdirectory, hsearchable, hnontrivial, hparent, hsize⟩ := hsought
    exact .inl ⟨⟨hdirectory, hsearchable⟩, hnontrivial, hparent, hsize⟩
  · refine .inr fun t' hdirectory hsearchable => ?_
    rw [stride, stride, hdirectory, hsearchable]
    grind

theorem open_of_stride (hname : Sought name)
    (h : ∀ e, t.stride place name ≠ .refused e) :
    t.Open place := by
  rcases t.stride_cases place name with
    ⟨hopen, _⟩ | ⟨e, hrefused⟩ | ⟨_, ⟨htrivial, _⟩ | ⟨hparent, _⟩⟩
  · exact hopen
  · exact absurd hrefused (h e)
  · rw [hname.nontrivial] at htrivial
    cases htrivial
  · exact absurd hparent hname.ne_parent

theorem stride_congr
    (hdirectory : t'.isDirectoryAt place = t.isDirectoryAt place)
    (hsearchable : t'.allowsAt Node.searchable place =
      t.allowsAt Node.searchable place)
        (hnode : t'.node? (name :: place) = t.node? (name :: place)) :
    t'.stride place name = t.stride place name := by
  rw [stride, stride, hdirectory, hsearchable, hnode]

theorem node?_of_stride_vacant (h : t.stride place name = .vacant) :
    t.node? (name :: place) = none := by
  rw [stride] at h
  grind

theorem exists_of_stride_link {next : Place}
    (h : t.stride place name = .link next names) :
    t.Open place ∧ Sought name ∧
    ∃ target, t.node? (name :: place) = some (.link target) ∧
      next = origin place target ∧ names = Path.names target := by
  rcases t.stride_cases place name with
    ⟨hopen, hname⟩ | ⟨e, hrefused⟩ | ⟨_, ⟨_, honward⟩ | ⟨_, honward⟩⟩
  · rw [hopen.stride_sought hname] at h
    refine ⟨hopen, hname, ?_⟩
    split at h
    case h_1 => cases h
    case h_2 target hnode =>
      cases h
      exact ⟨target, hnode, rfl, rfl⟩
    case h_3 => cases h
  · cases hrefused.symm.trans h
  · cases honward.symm.trans h
  · cases honward.symm.trans h

theorem SameShape.stride (h : SameShape t t') (place : Place) (name : Text) :
    t.stride place name = t'.stride place name := by
  rw [FileTree.stride, FileTree.stride, h.isDirectoryAt, h.allowsAt]
  cases hnode : t.node? (name :: place) with
  | none => rw [h.node?_eq_none_iff.mp hnode]
  | some node =>
      cases node with
      | file content mode =>
          obtain ⟨content', hnode'⟩ := h.file hnode
          rw [hnode']
      | directory mode => rw [h.directory hnode]
      | link target => rw [h.link hnode]

/-! Walks. -/

theorem walk_nil : t.walk follow links place [] = .ok (.present place) := by
  rw [walk]

theorem walk_stride (t : FileTree) (follow : Bool) (links : Nat) (place : Place)
    (name : Text) (rest : List Text) :
    t.walk follow links place (name :: rest) =
      match t.stride place name with
      | .refused e => .error e
      | .vacant =>
          if rest = [] then .ok (.vacant place name) else .error .noEntry
      | .onward next => t.walk follow links next rest
      | .link next names =>
          if rest = [] ∧ follow = false then .ok (.present (name :: place))
          else
            match links with
            | 0 => .error .tooManyLinks
            | links + 1 => t.walk follow links next (names ++ rest) :=
  walk.eq_2 t follow links place name rest

theorem walk_onward {next : Place} (h : t.stride place name = .onward next)
    (rest : List Text) :
    t.walk follow links place (name :: rest) =
      t.walk follow links next rest := by
  rw [walk_stride, h]

theorem walk_refused {e : OsError} (h : t.stride place name = .refused e)
    (rest : List Text) :
    t.walk follow links place (name :: rest) = .error e := by
  rw [walk_stride, h]

theorem walk_link {next : Place} (h : t.stride place name = .link next names)
    (hgoes : follow = true ∨ rest ≠ []) :
    t.walk follow links place (name :: rest) =
      match links with
      | 0 => .error .tooManyLinks
      | links + 1 => t.walk follow links next (names ++ rest) := by
  have hends : ¬ (rest = [] ∧ follow = false) := by
    rintro ⟨hrest, hfollow⟩
    rcases hgoes with htrue | hne
    · exact Bool.false_ne_true (hfollow.symm.trans htrue)
    · exact hne hrest
  rw [walk_stride, h]
  simp only [hends, if_false]

theorem exists_of_walk_cons (hgoes : follow = true ∨ rest ≠ [])
    (h : t.walk follow links place (name :: rest) = .ok found) :
    (t.stride place name = .vacant ∧ rest = [] ∧ found = .vacant place name) ∨
      (∃ next, t.stride place name = .onward next ∧
        t.walk follow links next rest = .ok found) ∨
      ∃ next others fewer, t.stride place name = .link next others ∧
        links = fewer + 1 ∧
        t.walk follow fewer next (others ++ rest) = .ok found := by
  cases hstride : t.stride place name with
  | refused e =>
      rw [walk_refused hstride] at h
      cases h
  | vacant =>
      rw [walk_stride, hstride] at h
      simp only at h
      split at h
      case isTrue hrest =>
        cases h
        exact .inl ⟨rfl, hrest, rfl⟩
      case isFalse => cases h
  | onward next =>
      rw [walk_onward hstride] at h
      exact .inr (.inl ⟨next, rfl, h⟩)
  | link next others =>
      rw [walk_link hstride hgoes] at h
      cases links with
      | zero => cases h
      | succ fewer => exact .inr (.inr ⟨next, others, fewer, rfl, rfl, h⟩)

theorem exists_of_walk_present (hgoes : follow = true ∨ rest ≠ [])
    (h : t.walk follow links place (name :: rest) = .ok (.present reached)) :
    (∃ next, t.stride place name = .onward next ∧
        t.walk follow links next rest = .ok (.present reached)) ∨
      ∃ next others fewer, t.stride place name = .link next others ∧
        links = fewer + 1 ∧
        t.walk follow fewer next (others ++ rest) = .ok (.present reached) := by
  rcases exists_of_walk_cons hgoes h with ⟨_, _, hfound⟩ | hnext
  · cases hfound
  · exact hnext

/-- A walk goes on with the rest of its names, or with fewer links. -/
theorem walk_induction {motive : Nat → Place → List Text → Prop}
    (nil : ∀ links place, motive links place [])
    (cons : ∀ links place name rest, (∀ next, motive links next rest) →
      (∀ fewer < links, ∀ next names, motive fewer next names) →
      motive links place (name :: rest))
    (links : Nat) (place : Place) (names : List Text) :
    motive links place names := by
  induction links using Nat.strongRecOn generalizing place names with
  | ind links ihLinks =>
      induction names generalizing place with
      | nil => exact nil links place
      | cons name rest ihNames =>
          exact cons links place name rest ihNames
            fun fewer hfewer next names =>
            ihLinks fewer hfewer next names

theorem SameShape.walk (h : SameShape t t') (follow : Bool) (links : Nat)
    (place : Place) (names : List Text) :
    t.walk follow links place names = t'.walk follow links place names := by
  induction links, place, names using walk_induction with
  | nil links place => rw [walk_nil, walk_nil]
  | cons links place name rest ihNames ihLinks =>
      rw [walk_stride, walk_stride, h.stride]
      cases t'.stride place name with
      | refused e => rfl
      | vacant => rfl
      | onward next => exact ihNames next
      | link next others =>
          cases links with
          | zero => rfl
          | succ links =>
              simp only [ihLinks links links.lt_succ_self next (others ++ rest)]

/-- A walk goes on from a place that it has reached, with the links left. -/
theorem walk_append
    (h : t.walk true links place names = .ok (.present reached)) :
    ∃ left, ∀ follow rest, follow = true ∨ rest ≠ [] →
      t.walk follow links place (names ++ rest) =
        t.walk follow left reached rest := by
  induction links, place, names using walk_induction with
  | nil links place =>
      rw [walk_nil] at h
      cases h
      exact ⟨links, fun follow rest hgoes => rfl⟩
  | cons links place name names ihNames ihLinks =>
      have hgoes {follow : Bool} {rest : List Text}
          (hrest : follow = true ∨ rest ≠ []) :
          follow = true ∨ names ++ rest ≠ [] :=
        hrest.imp_right (List.append_ne_nil_of_right_ne_nil names)
      rcases exists_of_walk_present (.inl rfl) h with
        ⟨next, hstride, hnext⟩ | ⟨next, others, fewer, hstride, rfl, hnext⟩
      · obtain ⟨left, hleft⟩ := ihNames next hnext
        refine ⟨left, fun follow rest hrest => ?_⟩
        rw [List.cons_append, walk_onward hstride]
        exact hleft follow rest hrest
      · obtain ⟨left, hleft⟩ :=
          ihLinks fewer fewer.lt_succ_self next (others ++ names) hnext
        refine ⟨left, fun follow rest hrest => ?_⟩
        rw [List.cons_append, walk_link hstride (hgoes hrest),
          ← hleft follow rest hrest, List.append_assoc]

theorem exists_of_walk_append (hrest : rest ≠ [])
    (h : t.walk follow links place (names ++ rest) = .ok found) :
    ∃ between, t.walk true links place names = .ok (.present between) := by
  induction links, place, names using walk_induction with
  | nil links place => exact ⟨place, walk_nil⟩
  | cons links place name names ihNames ihLinks =>
      have hne := List.append_ne_nil_of_right_ne_nil names hrest
      rw [List.cons_append] at h
      rcases exists_of_walk_cons (.inr hne) h with
        ⟨_, hnil, _⟩ | ⟨next, hstride, hnext⟩
          | ⟨next, others, fewer, hstride, rfl, hnext⟩
      · exact absurd hnil hne
      · rw [walk_onward hstride]
        exact ihNames next hnext
      · rw [← List.append_assoc] at hnext
        rw [walk_link hstride (.inl rfl)]
        exact ihLinks fewer fewer.lt_succ_self next (others ++ names) hnext

theorem exists_of_walk_prefix
    (h : t.walk true links place (names ++ rest) = .ok (.present reached)) :
    ∃ between, t.walk true links place names = .ok (.present between) := by
  by_cases hrest : rest = []
  · rw [hrest, List.append_nil] at h
    exact ⟨reached, h⟩
  · exact exists_of_walk_append hrest h

/-- The number of links makes a difference only if it is too small. -/
theorem walk_links (h : t.walk true links place names = .ok (.present reached))
    (allowed : Nat) :
    t.walk true allowed place names = .ok (.present reached) ∨
      t.walk true allowed place names = .error .tooManyLinks := by
  induction links, place, names using walk_induction generalizing allowed with
  | nil links place =>
      rw [walk_nil] at h ⊢
      exact .inl h
  | cons links place name names ihNames ihLinks =>
      rcases exists_of_walk_present (.inl rfl) h with
        ⟨next, hstride, hnext⟩ | ⟨next, others, fewer, hstride, rfl, hnext⟩
      · rw [walk_onward hstride]
        exact ihNames next hnext allowed
      · rw [walk_link hstride (.inl rfl)]
        cases allowed with
        | zero => exact .inr rfl
        | succ allowed =>
            exact ihLinks fewer fewer.lt_succ_self next (others ++ names)
              hnext allowed

/-- A link at the end is all that following makes a difference for. -/
theorem walk_follow
    (h : ∀ found, t.walk false links place names ≠ .ok (.present found)) :
    t.walk true links place names = t.walk false links place names := by
  induction links, place, names using walk_induction with
  | nil links place => exact absurd walk_nil (h place)
  | cons links place name names ihNames ihLinks =>
      rw [walk_stride] at h ⊢
      rw [walk_stride]
      cases hstride : t.stride place name with
      | refused e => rfl
      | vacant => rfl
      | onward next =>
          rw [hstride] at h
          exact ihNames next h
      | link next others =>
          rw [hstride] at h
          simp only at h ⊢
          split at h
          case isTrue => exact absurd rfl (h (name :: place))
          case isFalse hgoes =>
            rw [if_neg hgoes, if_neg fun hend => Bool.false_ne_true hend.2.symm]
            cases links with
            | zero => rfl
            | succ links =>
                exact ihLinks links links.lt_succ_self next (others ++ names) h

theorem Open.walk_last (h : t.Open place) (hname : Sought name) :
    t.walk false links place [name] =
      .ok (if t.node? (name :: place) = none then .vacant place name
        else .present (name :: place)) := by
  rw [walk_stride, h.stride_sought hname]
  cases t.node? (name :: place) with
  | none => rfl
  | some node =>
      rw [if_neg (Option.some_ne_none node)]
      cases node with
      | file content mode => exact walk_nil
      | directory mode => exact walk_nil
      | link target => rfl

theorem Open.walk_file (h : t.Open place) (hname : Sought name)
    {content : Utf8.Bytes} {mode : Nat}
    (hnode : t.node? (name :: place) = some (.file content mode)) :
    t.walk follow links place [name] = .ok (.present (name :: place)) := by
  have hstride := h.stride_sought hname
  rw [hnode] at hstride
  rw [walk_onward hstride, walk_nil]

/-! Paths. -/

theorem resolve_eq (hnul : '\x00' ∉ path) (hne : path ≠ [])
    (hshort : path.byteSize < pathLimit) (t : FileTree) (home : Place)
    (follow : Bool) :
    t.resolve home follow path =
      t.walk follow linkLimit (origin home path) (Path.names path) := by
  rw [resolve, if_neg hnul, if_neg hne, if_neg (Nat.not_le.mpr hshort)]

theorem exists_walk_of_resolve (h : t.resolve home follow path = .ok found) :
    '\x00' ∉ path ∧ path ≠ [] ∧ path.byteSize < pathLimit ∧
      t.walk follow linkLimit (origin home path) (Path.names path) =
        .ok found := by
  rw [resolve] at h
  obtain ⟨hnul, h⟩ := of_ite_error_eq_ok h
  obtain ⟨hne, h⟩ := of_ite_error_eq_ok h
  obtain ⟨hshort, h⟩ := of_ite_error_eq_ok h
  exact ⟨hnul, hne, Nat.lt_of_not_le hshort, h⟩

theorem resolve_follow
    (h : ∀ found, t.resolve home false path ≠ .ok (.present found)) :
    t.resolve home true path = t.resolve home false path := by
  rw [resolve] at h ⊢
  rw [resolve]
  split
  case isTrue => rfl
  case isFalse hnul =>
    rw [if_neg hnul] at h
    split
    case isTrue => rfl
    case isFalse hne =>
      rw [if_neg hne] at h
      split
      case isTrue => rfl
      case isFalse hshort =>
        rw [if_neg hshort] at h
        exact walk_follow h

theorem place?_eq_some_iff :
    t.place? home path = some place ↔
      t.resolve home true path = .ok (.present place) := by
  rw [place?]
  constructor
  · intro h
    split at h
    case h_1 found hresolve =>
      cases h
      exact hresolve
    case h_2 => cases h
  · intro h
    rw [h]

theorem SameShape.resolve (h : SameShape t t') (home : Place) (follow : Bool)
    (path : Path) :
    t.resolve home follow path = t'.resolve home follow path := by
  rw [FileTree.resolve, FileTree.resolve, h.walk]

theorem SameShape.place? (h : SameShape t t') (home : Place) (path : Path) :
    t.place? home path = t'.place? home path := by
  rw [FileTree.place?, FileTree.place?, h.resolve]

theorem SameShape.present (h : SameShape t t') (home : Place) (path : Path) :
    t.present home path = t'.present home path := by
  rw [FileTree.present, FileTree.present, h.place?]

/-! Well-formed trees. -/

def Fits (t : FileTree) : Place → Prop
  | [] => True
  | name :: place =>
      t.isDirectoryAt place = true ∧ Path.IsName name ∧
        name.byteSize ≤ nameLimit

instance (t : FileTree) (place : Place) : Decidable (t.Fits place) :=
  match place with
  | [] => isTrue trivial
  | _ :: _ => inferInstanceAs (Decidable (_ ∧ _ ∧ _))

/-- Every node lies in a directory, under a name that a directory can hold. -/
def WellFormed (t : FileTree) : Prop :=
  ∀ place, t.node? place ≠ none → t.Fits place

theorem wellFormed_iff : t.WellFormed ↔ ∀ entry ∈ t.nodes, t.Fits entry.1 := by
  constructor
  · intro hwf entry hentry
    cases hplace : entry.1 with
    | nil => trivial
    | cons name place =>
        exact hwf _ (node?_ne_none_iff.mpr ⟨entry, hentry, hplace⟩)
  · intro h place hnode
    cases place with
    | nil => trivial
    | cons name place =>
        obtain ⟨entry, hentry, hplace⟩ := node?_ne_none_iff.mp hnode
        exact hplace ▸ h entry hentry

instance (t : FileTree) : Decidable t.WellFormed :=
  decidable_of_iff _ wellFormed_iff.symm

theorem Fits.of_isDirectoryAt (hfits : t.Fits place)
    (h : ∀ place, t.isDirectoryAt place = true →
      t'.isDirectoryAt place = true) :
    t'.Fits place := by
  cases place with
  | nil => trivial
  | cons name place => exact ⟨h place hfits.1, hfits.2⟩

theorem node?_ne_none_of_isDirectoryAt (h : t.isDirectoryAt place = true) :
    t.node? place ≠ none := by
  obtain ⟨mode, hnode⟩ := exists_mode_of_isDirectoryAt h
  exact Option.ne_none_iff_exists'.mpr ⟨_, hnode⟩

theorem isDirectoryAt_of_file {content : Utf8.Bytes} {mode : Nat}
    (h : t.node? place = some (.file content mode)) :
    t.isDirectoryAt place = false := by
  rw [isDirectoryAt, h]

theorem isDirectoryAt_of_vacant (h : t.node? place = none) :
    t.isDirectoryAt place = false := by
  rw [isDirectoryAt, h]

namespace WellFormed

theorem inDirectory (hwf : t.WellFormed) (h : t.node? (name :: place) ≠ none) :
    t.isDirectoryAt place = true :=
  (hwf (name :: place) h).1

theorem isName (hwf : t.WellFormed) (h : t.node? (name :: place) ≠ none) :
    Path.IsName name :=
  (hwf (name :: place) h).2.1

theorem byteSize_le (hwf : t.WellFormed) (h : t.node? (name :: place) ≠ none) :
    name.byteSize ≤ nameLimit :=
  (hwf (name :: place) h).2.2

theorem of_sameShape (hwf : t.WellFormed) (h : SameShape t t') :
    t'.WellFormed := by
  intro place hnode
  apply (hwf place (mt h.node?_eq_none_iff.mp hnode)).of_isDirectoryAt
  intro other hdirectory
  rwa [← h.isDirectoryAt]

theorem sought (hwf : t.WellFormed) (h : t.node? (name :: place) ≠ none) :
    Sought name where
  nontrivial := (hwf.isName h).nontrivial
  ne_parent := (hwf.isName h).ne_parent
  byteSize_le := hwf.byteSize_le h

theorem isName_of_mem (hwf : t.WellFormed) (h : t.node? place ≠ none) :
    ∀ name ∈ place, Path.IsName name := by
  induction place with
  | nil => exact nofun
  | cons name place ih =>
      have hplace := ih (node?_ne_none_of_isDirectoryAt (hwf.inDirectory h))
      exact List.forall_mem_cons.mpr ⟨hwf.isName h, hplace⟩

theorem isDirectoryAt_tail (hwf : t.WellFormed)
    (h : t.isDirectoryAt place = true) :
    t.isDirectoryAt place.tail = true := by
  cases place with
  | nil => exact h
  | cons name place => exact hwf.inDirectory (node?_ne_none_of_isDirectoryAt h)

theorem solid_tail (hwf : t.WellFormed) (h : t.Solid place) :
    t.Solid place.tail := by
  cases place with
  | nil => exact h
  | cons name place =>
      exact solid_of_isDirectoryAt (hwf.inDirectory h.node?_ne_none)

/-- The names of what is no link lead to it, if they lead anywhere. -/
theorem walk_root (hwf : t.WellFormed) (h : t.Solid place)
    (hwalk : t.walk true links [] place.reverse = .ok found) :
    found = .present place := by
  induction place generalizing found with
  | nil =>
      rw [List.reverse_nil, walk_nil] at hwalk
      cases hwalk
      rfl
  | cons name place ih =>
      have hname := hwf.sought h.node?_ne_none
      rw [List.reverse_cons] at hwalk
      obtain ⟨between, hbetween⟩ :=
        exists_of_walk_append (List.cons_ne_nil name []) hwalk
      cases ih (hwf.solid_tail h) hbetween
      obtain ⟨left, hleft⟩ := walk_append hbetween
      rw [hleft true [name] (.inl rfl)] at hwalk
      have hopen : t.Open place := by
        refine open_of_stride hname fun e hrefused => ?_
        rw [walk_refused hrefused] at hwalk
        cases hwalk
      rw [walk_onward (hopen.stride_solid hname h), walk_nil] at hwalk
      cases hwalk
      rfl

end WellFormed

end TextOverride.FileTree
