import TextOverride.Proofs.FileTree.Replacement

namespace TextOverride.FileTree

variable {t t' : FileTree} {follow follow' : Bool} {links links' : Nat}
  {place next root reached home home' : Place} {name : Text}
  {names rest : List Text} {base target : Path} {found : Target}

theorem walk_join (hrelative : Path.isAbsolute target = false)
    (hbase : base ≠ [])
    (h : t.walk true links place (Path.names base) = .ok (.present reached)) :
    ∃ left, ∀ follow,
      t.walk follow links place (Path.names (Path.join base target)) =
        t.walk follow left reached (Path.names target) := by
  have hne := Path.names_ne_nil target
  rcases Path.names_join hrelative hbase with hnames | ⟨start, hstart, hnames⟩
  · obtain ⟨left, hleft⟩ := walk_append h
    exact ⟨left, fun follow => hnames ▸ hleft follow _ (.inr hne)⟩
  · rw [hstart] at h
    obtain ⟨between, hbetween⟩ := exists_of_walk_prefix h
    obtain ⟨left, hleft⟩ := walk_append hbetween
    rw [hleft true [[]] (.inl rfl)] at h
    cases walk_trivials (List.forall_mem_singleton.mpr rfl) h
    exact ⟨left, fun follow => hnames ▸ hleft follow _ (.inr hne)⟩

def NoLinks (t : FileTree) (root : Place) : Prop :=
  ∀ place target, root <:+ place → t.node? place ≠ some (.link target)

def SameBelow (root : Place) (t t' : FileTree) : Prop :=
  ∀ place, root <:+ place → t'.node? place = t.node? place

theorem SameBelow.isDirectoryAt (h : SameBelow root t t')
    (hplace : root <:+ place) :
    t'.isDirectoryAt place = t.isDirectoryAt place := by
  rw [FileTree.isDirectoryAt, FileTree.isDirectoryAt, h place hplace]

theorem SameBelow.allowsAt (h : SameBelow root t t') (hplace : root <:+ place)
    (allows : Nat → Bool) :
    t'.allowsAt allows place = t.allowsAt allows place := by
  rw [FileTree.allowsAt, FileTree.allowsAt, h place hplace]

private theorem SameBelow.stride (h : SameBelow root t t')
    (hplace : root <:+ place) (name : Text) :
    t'.stride place name = t.stride place name :=
  stride_congr (h.isDirectoryAt hplace) (h.allowsAt hplace Node.searchable)
    (h (name :: place) (hplace.trans (List.suffix_cons name place)))

theorem NoLinks.stride_ne_link (h : t.NoLinks root) (hplace : root <:+ place)
    (name : Text) (next : Place) (names : List Text) :
    t.stride place name ≠ .link next names := by
  have hnode := h (name :: place)
  rw [stride]
  grind

theorem stride_below (hplace : root <:+ place) (hname : name ≠ Path.parent)
    (h : t.stride place name = .onward next) : root <:+ next := by
  rw [stride] at h
  grind

/-- Where no link can be met, it does not matter how many may be followed. -/
theorem SameBelow.walk (h : SameBelow root t t') (hlinks : t.NoLinks root)
    (hplace : root <:+ place) (hparent : Path.parent ∉ names)
    (follow follow' : Bool) (links links' : Nat) :
    t'.walk follow' links' place names = t.walk follow links place names := by
  induction names generalizing place with
  | nil => rw [walk_nil, walk_nil]
  | cons name rest ih =>
      obtain ⟨hname, hrest⟩ := List.ne_and_not_mem_of_not_mem_cons hparent
      rw [walk_stride, walk_stride, h.stride hplace]
      cases hstride : t.stride place name with
      | refused e => rfl
      | vacant => rfl
      | onward next => exact ih (stride_below hplace hname.symm hstride) hrest
      | link next others =>
          exact absurd hstride (hlinks.stride_ne_link hplace name next others)

private theorem NoLinks.walk_below (h : t.NoLinks root)
    (hplace : root <:+ place) (hparent : Path.parent ∉ names)
    (hwalk : t.walk true links place names = .ok (.present reached)) :
    root <:+ reached := by
  induction names generalizing place with
  | nil =>
      rw [walk_nil] at hwalk
      cases hwalk
      exact hplace
  | cons name rest ih =>
      obtain ⟨hname, hrest⟩ := List.ne_and_not_mem_of_not_mem_cons hparent
      rcases exists_of_walk_present (.inl rfl) hwalk with
        ⟨next, hstride, hnext⟩ | ⟨next, others, _, hstride, _⟩
      · exact ih (stride_below hplace hname.symm hstride) hrest hnext
      · exact absurd hstride (h.stride_ne_link hplace name next others)

private theorem mem_of_lookup {place : Place} {node : Node}
    {nodes : List (Place × Node)} (h : lookup place nodes = some node) :
    (place, node) ∈ nodes := by
  induction nodes with
  | nil => cases h
  | cons entry nodes ih =>
      rw [lookup] at h
      split at h
      case isTrue heq =>
        cases h
        exact heq ▸ List.mem_cons_self
      case isFalse => exact List.mem_cons_of_mem entry (ih h)

theorem noLinks_of_nodes
    (h : ∀ entry ∈ t.nodes, root <:+ entry.1 → entry.2.mode? ≠ none) :
    t.NoLinks root := by
  intro place target hplace hnode
  cases place with
  | nil => cases hnode
  | cons name directory => exact h _ (mem_of_lookup hnode) hplace rfl

private theorem lookup_filter_of_below (hplace : root <:+ place)
    (nodes : List (Place × Node)) :
    lookup place (nodes.filter fun entry => root <:+ entry.1) =
      lookup place nodes := by
  induction nodes with
  | nil => rfl
  | cons entry nodes ih =>
      by_cases hentry : root <:+ entry.1
      · rw [List.filter_cons_of_pos (by simpa using hentry), lookup, lookup, ih]
      · rw [List.filter_cons_of_neg (by simpa using hentry), lookup, ih, if_neg]
        exact fun heq => hentry (heq ▸ hplace)

theorem sameBelow_of_nodes
    (h : (t.nodes.filter fun entry => root <:+ entry.1) =
      t'.nodes.filter fun entry => root <:+ entry.1) : SameBelow root t t' := by
  intro place hplace
  cases place with
  | nil => rfl
  | cons name directory =>
      rw [node?_cons, node?_cons, ← lookup_filter_of_below hplace, ← h,
        lookup_filter_of_below hplace]

private theorem SameBelow.refl (root : Place) (t : FileTree) :
    SameBelow root t t :=
  fun _ _ => rfl

private theorem NoLinks.of_sameBelow (hlinks : t.NoLinks root)
    (h : SameBelow root t t') :
    t'.NoLinks root := by
  intro place target hplace
  rw [h place hplace]
  exact hlinks place target hplace

/-- The path leads to a directory with no link below it. -/
structure Rooted (t : FileTree) (home : Place) (base : Path)
    (root : Place) : Prop where
  place : t.place? home base = some root
  directory : t.isDirectoryAt root = true
  links : t.NoLinks root

namespace Rooted

private theorem of_sameShape (h : t.Rooted home base root)
    (hshape : SameShape t t') :
    t'.Rooted home base root where
  place := (hshape.place? home base).symm.trans h.place
  directory := (hshape.isDirectoryAt root).symm.trans h.directory
  links place target hplace hnode :=
    h.links place target hplace (hshape.symm.link hnode)

private theorem of_sameBelow (h : t.Rooted home base root)
    (hsame : SameBelow root t t') (hplace : t'.place? home' base = some root) :
    t'.Rooted home' base root where
  place := hplace
  directory := (hsame.isDirectoryAt (List.suffix_refl root)).trans h.directory
  links := h.links.of_sameBelow hsame

/-- A target is looked up from the directory that the base leads to. -/
theorem resolve_join (h : t.Rooted home base root)
    (hrelative : Path.isAbsolute target = false)
    (hinside : Path.parent ∉ Path.names target) (follow : Bool) :
    t.resolve home follow (Path.join base target) =
      if '\x00' ∈ target then .error .nulInPath
      else if pathLimit ≤ (Path.join base target).byteSize then
        .error .nameTooLong
      else t.walk true linkLimit root (Path.names target) := by
  obtain ⟨hnul, hne, _, hwalk⟩ :=
    exists_walk_of_resolve (place?_eq_some_iff.mp h.place)
  have hmem : '\x00' ∈ Path.join base target ↔ '\x00' ∈ target := by
    rw [Path.mem_join_iff hrelative (by decide), or_iff_right hnul]
  obtain ⟨left, hleft⟩ := walk_join hrelative hne hwalk
  rw [resolve, origin, Path.isAbsolute_join hrelative hne, ← origin, hleft,
    (SameBelow.refl root t).walk h.links (List.suffix_refl root) hinside
    true follow
      linkLimit left]
  simp only [hmem, Path.join_ne_nil hrelative hne, if_false]

theorem below (h : t.Rooted home base root)
    (hrelative : Path.isAbsolute target = false)
    (hinside : Path.parent ∉ Path.names target)
    (hplace : t.place? home (Path.join base target) = some reached) :
    root <:+ reached := by
  have hresolve := place?_eq_some_iff.mp hplace
  rw [h.resolve_join hrelative hinside] at hresolve
  split at hresolve
  case isTrue => cases hresolve
  case isFalse =>
    split at hresolve
    case isTrue => cases hresolve
    case isFalse =>
      exact h.links.walk_below (List.suffix_refl root) hinside hresolve

theorem resolve_eq (h : t.Rooted home base root)
    (h' : t'.Rooted home' base root) (hsame : SameBelow root t t')
    (hrelative : Path.isAbsolute target = false)
    (hinside : Path.parent ∉ Path.names target) (follow : Bool) :
    t'.resolve home' follow (Path.join base target) =
      t.resolve home follow (Path.join base target) := by
  rw [h.resolve_join hrelative hinside, h'.resolve_join hrelative hinside,
    hsame.walk h.links (List.suffix_refl root) hinside true true linkLimit
    linkLimit]

theorem followable (h : t.Rooted home base root)
    (hrelative : Path.isAbsolute target = false)
    (hinside : Path.parent ∉ Path.names target) :
    t.Followable home (Path.join base target) := by
  intro place hresolve
  rw [h.resolve_join hrelative hinside] at hresolve ⊢
  exact .inr hresolve

theorem place?_eq (h : t.Rooted home base root) (h' : t'.Rooted home' base root)
    (hsame : SameBelow root t t') (hrelative : Path.isAbsolute target = false)
    (hinside : Path.parent ∉ Path.names target) :
    t'.place? home' (Path.join base target) =
      t.place? home (Path.join base target) := by
  rw [place?, place?, h.resolve_eq h' hsame hrelative hinside]

theorem read_eq (h : t.Rooted home base root) (h' : t'.Rooted home' base root)
    (hsame : SameBelow root t t') (hrelative : Path.isAbsolute target = false)
    (hinside : Path.parent ∉ Path.names target) :
    t'.read home' (Path.join base target) =
      t.read home (Path.join base target) := by
  rw [read, read, h.resolve_eq h' hsame hrelative hinside]
  cases hresolve : t.resolve home true (Path.join base target) with
  | error e => rfl
  | ok found =>
      cases found with
      | vacant directory name => rfl
      | present place =>
          have hbelow :=
            h.below hrelative hinside (place?_eq_some_iff.mpr hresolve)
          simp only [hsame place hbelow]

end Rooted

/-! Canonical forms of targets below the base. -/

private theorem walk_of_place? (hwf : t.WellFormed) (hroot : t.Solid root)
    (h : t.place? [] root.path = some root) :
    t.walk true linkLimit [] ([] :: root.reverse) = .ok (.present root) := by
  by_cases hne : root = []
  · rw [hne]
    exact (walk_onward (stride_separator rfl) []).trans walk_nil
  · obtain ⟨_, _, _, hwalk⟩ := exists_walk_of_resolve (place?_eq_some_iff.mp h)
    rwa [Path.names_path hne (hwf.isName_of_mem hroot.node?_ne_none)] at hwalk

private theorem place?_of_walk (hwf : t.WellFormed) (hroot : t.Solid root)
    (hplace : root <:+ place) (hnul : '\x00' ∉ Place.path place)
    (hshort : Text.byteSize place.path < pathLimit)
    (h : t.walk true linkLimit [] ([] :: root.reverse) = .ok found) :
    t.place? [] root.path = some root := by
  rw [place?_eq_some_iff]
  cases hwf.walk_rooted hroot h
  by_cases hne : root = []
  · rw [hne, resolve_eq (by decide) (by decide) (by decide)]
    exact ((walk_onward (stride_separator rfl) [[]]).trans
      (walk_onward (stride_separator rfl) [])).trans walk_nil
  · obtain ⟨rest, hrest⟩ := Path.path_prefix hne hplace
    rw [← hrest, List.mem_append, not_or] at hnul
    rw [← hrest, Text.byteSize_append] at hshort
    rw [resolve_eq hnul.1 (Path.path_ne_nil root)
      (Nat.lt_of_add_right_lt hshort),
      Path.names_path hne (hwf.isName_of_mem hroot.node?_ne_none), origin_path]
    exact h

/-- The base leads to the directory in both trees alike: as it is given, in its
canonical form, and by the path of the directory itself. -/
structure SameBase (home home' : Place) (base : Path) (root : Place)
    (t t' : FileTree) : Prop where
  place : t'.place? home' base = some root
  canonical : t'.canonical? home' base = t.canonical? home base
  path : t'.place? [] root.path = t.place? [] root.path

private theorem SameBase.of_sameShape {later later' : FileTree}
    (h : SameBase home home' base root t t') (hshape : SameShape t later)
    (hshape' : SameShape t' later') :
    SameBase home home' base root later later' where
  place := (hshape'.place? home' base).symm.trans h.place
  canonical := by
    rw [← hshape.canonical?, ← hshape'.canonical?, h.canonical]
  path := by
    rw [← hshape.place?, ← hshape'.place?, h.path]

structure Twins (home home' : Place) (base : Path) (root : Place)
    (t t' : FileTree) : Prop where
  wellFormed : t.WellFormed
  wellFormed' : t'.WellFormed
  rooted : t.Rooted home base root
  same : SameBelow root t t'
  base : SameBase home home' base root t t'

namespace Twins

variable (h : Twins home home' base root t t')

include h

theorem rooted' : t'.Rooted home' base root :=
  h.rooted.of_sameBelow h.same h.base.place

private theorem symm : Twins home' home base root t' t where
  wellFormed := h.wellFormed'
  wellFormed' := h.wellFormed
  rooted := h.rooted'
  same place hplace := (h.same place hplace).symm
  base := ⟨h.rooted.place, h.base.canonical.symm, h.base.path.symm⟩

theorem of_sameShape {later later' : FileTree} (hshape : SameShape t later)
    (hshape' : SameShape t' later') (hsame : SameBelow root later later') :
    Twins home home' base root later later' where
  wellFormed := h.wellFormed.of_sameShape hshape
  wellFormed' := h.wellFormed'.of_sameShape hshape'
  rooted := h.rooted.of_sameShape hshape
  same := hsame
  base := h.base.of_sameShape hshape hshape'

theorem solid (hplace : root <:+ place) (hsolid : t.Solid place) :
    t'.Solid place := by
  obtain ⟨node, hnode, hmode⟩ := hsolid
  exact ⟨node, (h.same place hplace).trans hnode, hmode⟩

private theorem inspect?_of (hplace : root <:+ place)
    (hsolid : t.Solid place) (hseparator : Path.separator ∉ name)
    (hnontrivial : Path.isTrivial name = false) (hparent : name ≠ Path.parent)
    {node : Node} (hnode : t.inspect? (name :: place) = some node) :
    t'.inspect? (name :: place) = some node := by
  have hwf := h.wellFormed
  obtain ⟨hnode, hresolve⟩ :=
    hwf.of_inspect? hsolid hseparator hnontrivial hparent hnode
  have hsome := Option.ne_none_iff_exists'.mpr ⟨node, hnode⟩
  obtain ⟨below, rfl⟩ := hplace
  have hbelow : root <:+ name :: (below ++ root) :=
    (List.suffix_append below root).trans (List.suffix_cons name _)
  have hnames : Path.names (Place.path (name :: (below ++ root))) =
      ([] :: root.reverse) ++ (below.reverse ++ [name]) := by
    rw [hwf.names_path hsolid (hwf.isName hsome)]
    simp
  have hinside : Path.parent ∉ below.reverse ++ [name] := by
    intro hmem
    rcases List.mem_append.mp hmem with hbelow | hname
    · have hpart := List.mem_append_left root (List.mem_reverse.mp hbelow)
      exact (hwf.isName_of_mem hsolid.node?_ne_none _ hpart).ne_parent rfl
    · exact hparent (List.mem_singleton.mp hname).symm
  -- The path goes to the root first, which both trees find by the same path,
  -- and from there on below it, where they agree.
  obtain ⟨hnul, hne, hshort, hwalk⟩ := exists_walk_of_resolve hresolve
  rw [hnames, origin_path] at hwalk
  have hroot := solid_of_isDirectoryAt h.rooted.directory
  have hlast : below.reverse ++ [name] ≠ [] := by simp
  obtain ⟨between, hbetween⟩ := exists_of_walk_append hlast hwalk
  have hreached := place?_of_walk hwf hroot hbelow hnul hshort hbetween
  obtain ⟨left, hleft⟩ := walk_append (walk_of_place? hwf hroot hreached)
  obtain ⟨left', hleft'⟩ := walk_append <| walk_of_place? h.wellFormed'
    (h.solid (List.suffix_refl root) hroot) (h.base.path.trans hreached)
  have hresolve' : t'.resolve [] false (Place.path (name :: (below ++ root))) =
      .ok (.present (name :: (below ++ root))) := by
    rw [resolve_eq hnul hne hshort, hnames, origin_path,
      hleft' false _ (.inr hlast), h.same.walk h.rooted.links
        (List.suffix_refl root) hinside false false left left',
        ← hleft false _ (.inr hlast), hwalk]
  rw [inspect?, hresolve']
  exact (h.same _ hbelow).trans hnode

private theorem inspect? (hplace : root <:+ place)
    (hsolid : t.Solid place) (hseparator : Path.separator ∉ name)
    (hnontrivial : Path.isTrivial name = false) (hparent : name ≠ Path.parent) :
    t'.inspect? (name :: place) = t.inspect? (name :: place) :=
  Option.ext fun _ =>
    ⟨h.symm.inspect?_of hplace (h.solid hplace hsolid) hseparator hnontrivial
        hparent,
      h.inspect?_of hplace hsolid hseparator hnontrivial hparent⟩

private theorem real? (hplace : root <:+ place)
    (hsolid : t.Solid place) (hwhole : Path.Whole names)
    (hinside : Path.parent ∉ names)
    (hasks : ∀ rest, rest <:+ names → Path.asksDirectory rest = false)
    (links links' : Nat) :
    t'.real? links' place names = t.real? links place names := by
  induction names generalizing place with
  | nil => rw [real?_nil, real?_nil]
  | cons name rest ih =>
      obtain ⟨hseparator, hothers⟩ := List.forall_mem_cons.mp hwhole
      obtain ⟨hparent, hrest⟩ := List.ne_and_not_mem_of_not_mem_cons hinside
      have ih {next : Place} (hnext : root <:+ next) (hsolid : t.Solid next) :=
        ih hnext hsolid hothers hrest
          fun others hsuffix =>
            hasks others (hsuffix.trans (List.suffix_cons name rest))
      by_cases htrivial : Path.isTrivial name = true
      · rw [real?_trivial htrivial, real?_trivial htrivial, ih hplace hsolid]
      have hnontrivial := (Bool.not_eq_true _).mp htrivial
      have hinspect :=
        h.inspect? hplace hsolid hseparator hnontrivial hparent.symm
      have hbelow := hplace.trans (List.suffix_cons name place)
      cases hnode : t.inspect? (name :: place) with
      | none =>
          rw [real?_sought hnontrivial hparent.symm,
            real?_sought hnontrivial hparent.symm, hinspect, hnode]
      | some node =>
          obtain ⟨hfound, _⟩ := h.wellFormed.of_inspect? hsolid hseparator
            hnontrivial hparent.symm hnode
          rcases node.link_or_mode? with ⟨target, rfl⟩ | hmode
          · exact absurd hfound (h.rooted.links _ target hbelow)
          · have hnone {enters : Bool} :
                ¬(Path.asksDirectory rest = true ∧ enters = false) := by
              rw [hasks rest (List.suffix_cons name rest)]
              exact fun hasked => Bool.false_ne_true hasked.1
            rw [real?_onward hnontrivial hparent.symm hnode hmode,
              real?_onward hnontrivial hparent.symm
              (hinspect.trans hnode) hmode,
              if_neg hnone, if_neg hnone]
            exact ih hbelow ⟨node, hfound, hmode⟩

end Twins

/-- A target that leads to a file ends in a name that is looked up. -/
private theorem Rooted.exists_names (h : t.Rooted home base root)
    (hwf : t.WellFormed) (hrelative : Path.isAbsolute target = false)
    (hinside : Path.parent ∉ Path.names target)
    (hplace : t.place? home (Path.join base target) = some place)
    (hnot : t.isDirectoryAt place = false) :
    '\x00' ∉ target ∧ ∃ before last,
      Path.names target = before ++ [last] ∧ Path.isTrivial last = false := by
  have hresolve := place?_eq_some_iff.mp hplace
  rw [h.resolve_join hrelative hinside,
    ← h.resolve_join hrelative hinside false]
    at hresolve
  obtain ⟨directory, name, _, hends⟩ := hwf.endsIn_of_file hresolve hnot
  obtain ⟨hnul, _, _, ⟨others, hothers, _⟩, _, hname⟩ := hends
  obtain ⟨before, last, hnames⟩ := (List.eq_nil_or_concat _).resolve_left
    (Path.names_ne_nil target)
  rw [List.concat_eq_append] at hnames
  obtain ⟨_, hne, _⟩ := exists_walk_of_resolve (place?_eq_some_iff.mp h.place)
  have hlast := Path.getLast?_names_join hrelative hne
  rw [hothers, hnames, List.getLast?_concat, List.getLast?_concat] at hlast
  rw [Path.mem_join_iff hrelative (by decide), not_or] at hnul
  exact ⟨hnul.2, before, last, hnames, Option.some.inj hlast ▸ hname.nontrivial⟩

/-- Files below the base have the same canonical form in both trees. -/
theorem Twins.canonical?_join (h : Twins home home' base root t t')
    (hrelative : Path.isAbsolute target = false)
    (hinside : Path.parent ∉ Path.names target)
    (hplace : t.place? home (Path.join base target) = some place)
    (hnot : t.isDirectoryAt place = false) :
    t'.canonical? home' (Path.join base target) =
      t.canonical? home (Path.join base target) := by
  obtain ⟨hnul, before, last, hnames, hlast⟩ :=
    h.rooted.exists_names h.wellFormed hrelative hinside hplace hnot
  have hasks (rest : List Text) (hrest : rest <:+ Path.names target) :=
    Path.asksDirectory_suffix hlast (hnames ▸ hinside) (hnames ▸ hrest)
  have hplain := Path.Plain.of_asksDirectory (Path.names_ne_nil target)
    (hasks _ (List.suffix_refl _))
  have hreal := h.real? (List.suffix_refl root)
    (solid_of_isDirectoryAt h.rooted.directory)
    (Path.whole_names target) hinside
    hasks
  rcases h.wellFormed.canonical?_join (place?_eq_some_iff.mp h.rooted.place)
      hrelative hnul hplain with ⟨hnone, hjoin⟩ | ⟨left, hsome, hjoin⟩ <;>
    rcases h.wellFormed'.canonical?_join (place?_eq_some_iff.mp h.base.place)
        hrelative hnul hplain with ⟨hnone', hjoin'⟩ | ⟨left', hsome', hjoin'⟩
  · rw [hjoin, hjoin']
  · cases hnone.symm.trans (h.base.canonical.symm.trans hsome')
  · cases hnone'.symm.trans (h.base.canonical.trans hsome)
  · rw [hjoin, hjoin', hreal left left']

end TextOverride.FileTree
