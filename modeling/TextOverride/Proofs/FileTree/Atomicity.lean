import TextOverride.Proofs.FileTree.Replacement

namespace TextOverride.FileTree

def Target.place : Target → Place
  | .present place => place
  | .vacant directory name => name :: directory

variable {t : FileTree} {process : Nat} {home place directory : Place}
    {path : Path}
  {name : Text} {content : Utf8.Bytes} {mode links : Nat} {names : List Text}

/-- The path has what is at the place for its own: by its canonical form, or by
the way that it is opened. -/
structure Leads (t : FileTree) (home : Place) (path : Path) (place : Place) :
    Prop where
  solid : t.Solid place
  leads : t.canonical? home path = some place.path ∨
    t.resolve home true path = .ok (.present place)
  unique : ∀ found, t.resolve home true path = .ok (.present found) →
    found = place

namespace WellFormed

/-- A walk that follows every link ends at none. -/
theorem solid_of_walk (hwf : t.WellFormed) (hstart : names ≠ [] ∨ t.Solid place)
    {reached : Place}
    (h : t.walk true links place names = .ok (.present reached)) :
    t.Solid reached := by
  induction links, place, names using walk_induction with
  | nil links place =>
      rw [walk_nil] at h
      cases h
      exact hstart.resolve_left fun hne => hne rfl
  | cons links place name rest ihNames ihLinks =>
      rcases exists_of_walk_present (.inl rfl) h with
        ⟨next, hstride, hnext⟩ | ⟨next, others, fewer, hstride, rfl, hnext⟩
      · refine ihNames next (.inr ?_) hnext
        rcases t.stride_cases place name with
          ⟨hopen, hname⟩ | ⟨e, hrefused⟩ |
            ⟨hplace, ⟨_, honward⟩ | ⟨_, honward⟩⟩
        · exact (hopen.solid_of_onward hname hstride).2
        · cases hrefused.symm.trans hstride
        · cases honward.symm.trans hstride
          exact solid_of_isDirectoryAt hplace
        · cases honward.symm.trans hstride
          exact solid_of_isDirectoryAt (hwf.isDirectoryAt_tail hplace)
      · refine ihLinks fewer fewer.lt_succ_self next (others ++ rest)
          (.inl ?_) hnext
        obtain ⟨_, _, target, _, _, rfl⟩ := exists_of_stride_link hstride
        exact List.append_ne_nil_of_left_ne_nil (Path.names_ne_nil target) rest

theorem eq_of_endsIn_path (hwf : t.WellFormed) (hplace : t.Solid place)
    (h : t.EndsIn home place.path directory name) :
    place = name :: directory := by
  obtain ⟨before, hnames, hwalk⟩ := h.walk
  cases place with
  | nil =>
      obtain ⟨_, hname⟩ :=
        List.append_inj' (show [[]] ++ [[]] = before ++ [name] from hnames) rfl
      exact absurd (List.cons.inj hname).1.symm
        (ne_nil_of_nontrivial h.sought.nontrivial)
  | cons other place =>
      have hparent : t.Solid place := hwf.solid_tail hplace
      rw [hwf.names_path hparent (hwf.isName hplace.node?_ne_none)] at hnames
      obtain ⟨rfl, hname⟩ := List.append_inj' hnames rfl
      cases hwf.walk_rooted hparent hwalk
      rw [(List.cons.inj hname).1]

/-- What a replacement gives a file to is a node, if its path leads to one. -/
theorem node?_of_endsIn_working (hwf : t.WellFormed)
    (h : t.EndsIn home (t.working home path) directory name)
    (hplace : t.resolve home true path = .ok (.present place)) :
    t.node? (name :: directory) ≠ none := by
  rw [working] at h
  cases hcanonical : t.canonical? home path with
  | some real =>
      obtain ⟨found, rfl, hsettled, _⟩ := hwf.exists_of_canonical? hcanonical
      rw [hcanonical, Option.getD_some] at h
      rw [← hwf.eq_of_endsIn_path hsettled.solid h]
      exact hsettled.solid.node?_ne_none
  | none =>
      rw [hcanonical, Option.getD_none] at h
      intro hvacant
      rw [h.resolve_vacant hvacant] at hplace
      cases hplace

theorem leads_of_endsIn_working (hwf : t.WellFormed)
    (hfollow : t.Followable home path)
    (h : t.EndsIn home (t.working home path) directory name)
    (hleads : (∃ real, t.canonical? home path = some real) ∨
      ∃ found, t.resolve home true path = .ok (.present found)) :
    t.Leads home path (name :: directory) := by
  rw [working] at h
  cases hcanonical : t.canonical? home path with
  | some real =>
      obtain ⟨place, rfl, hsettled, hfound⟩ :=
        hwf.exists_of_canonical? hcanonical
      rw [hcanonical, Option.getD_some] at h
      obtain rfl := hwf.eq_of_endsIn_path hsettled.solid h
      exact ⟨hsettled.solid, .inl hcanonical, hfound⟩
  | none =>
      rw [hcanonical, Option.getD_none] at h
      have hnone : ¬ ∃ real, t.canonical? home path = some real := by
        rintro ⟨real, hreal⟩
        cases hcanonical.symm.trans hreal
      obtain ⟨found, hresolve⟩ := hleads.resolve_left hnone
      have hlast := (hfollow found hresolve).resolve_left <| by
        rw [hcanonical]
        exact Bool.false_ne_true
      obtain ⟨rfl, _⟩ := h.present_of_resolve hlast
      refine ⟨?_, .inr hresolve, fun other hother => ?_⟩
      · obtain ⟨_, _, _, hwalk⟩ := exists_walk_of_resolve hresolve
        exact hwf.solid_of_walk (.inl (Path.names_ne_nil path)) hwalk
      · cases hresolve.symm.trans hother
        rfl

private theorem set_file (hwf : t.WellFormed)
    (h : t.EndsIn home path directory name)
    (hnot : t.isDirectoryAt (name :: directory) = false)
    (content : Utf8.Bytes) (mode : Nat) :
    (t.set (name :: directory) (.file content mode)).WellFormed := by
  have hdirectories := isDirectoryAt_set_file hnot content mode
  intro place hplace
  have hfits : t.Fits place := by
    by_cases heq : place = name :: directory
    · obtain ⟨before, hnames, _⟩ := h.walk
      have hmem : name ∈ Path.names path := hnames ▸ List.mem_concat_self
      rw [heq]
      refine ⟨h.opened.directory, ⟨h.sought.nontrivial, h.sought.ne_parent,
        Path.separator_not_mem_of_mem_names hmem, fun hnul => h.no_nul ?_⟩,
        h.sought.byteSize_le⟩
      exact (Path.mem_iff_exists_names (by decide)).mpr ⟨name, hmem, hnul⟩
    · rw [node?_set_of_ne heq] at hplace
      exact hwf place hplace
  exact hfits.of_isDirectoryAt fun other hother =>
    (hdirectories other).trans hother

end WellFormed

private theorem TemporaryFree.set_file (h : t.TemporaryFree process)
    (hnode : t.node? (name :: directory) ≠ none) (node : Node) :
    (t.set (name :: directory) node).TemporaryFree process := by
  intro path other
  rw [node?_set_of_ne, h path other]
  intro heq
  exact hnode (heq ▸ h path other)

theorem file_of_solid (h : t.Solid place)
    (hnot : t.isDirectoryAt place = false) :
    ∃ content mode, t.node? place = some (.file content mode) := by
  obtain ⟨node, hnode, hmode⟩ := h
  cases node with
  | file content mode => exact ⟨content, mode, hnode⟩
  | directory mode =>
      rw [isDirectoryAt_of_node? hnode] at hnot
      cases hnot
  | link target => exact absurd rfl hmode

/-- Refused or not, the replacement of a file keeps a tree in order. -/
theorem WellFormed.replace_keeps [Device] (hwf : t.WellFormed)
    (hfree : t.TemporaryFree process) (path : Path)
    (hplace : t.resolve home true path = .ok (.present place))
    (content : Utf8.Bytes) :
    (∃ refusal, t.replace process home path content = (.error refusal, t)) ∨
      ∃ after, t.replace process home path content = (.ok (), after) ∧
        after.WellFormed ∧ after.TemporaryFree process := by
  rcases replace_cases (hfree.temporaryUnused home path) content with
    hrefused | ⟨directory, name, mode, hends, hnot, _, _, hreplace⟩
  · exact .inl hrefused
  · exact .inr ⟨_, hreplace, hwf.set_file hends hnot content mode,
      hfree.set_file (hwf.node?_of_endsIn_working hends hplace) _⟩

/-- A path leads to the file that has taken the place of its last name, unless
its links had been too many. -/
theorem EndsIn.resolve_set (h : t.EndsIn home path directory name)
    (hnot : t.isDirectoryAt (name :: directory) = false)
    (hmissing : ∀ found, t.resolve home true path ≠ .ok (.present found))
    (hlinks : t.resolve home true path ≠ .error .tooManyLinks)
    (content : Utf8.Bytes) (mode : Nat) (follow : Bool) :
    (t.set (name :: directory) (.file content mode)).resolve home follow path =
      .ok (.present (name :: directory)) := by
  obtain ⟨before, hnames, hwalk⟩ := h.walk
  rcases walk_set_file hnot content mode hwalk with
    hsame | ⟨target, allowed, between, hnode, hbetween⟩
  · have hends :
        (t.set (name :: directory) (.file content mode)).EndsIn home path
        directory name :=
      { h with
        walk := ⟨before, hnames, hsame⟩
        opened := h.opened.set_file hnot content mode }
    exact hends.resolve_file (node?_set_self t name directory _) follow
  · -- The walk to the directory went through a link under the last name itself,
    -- so that only the number of links kept the path from leading on.
    obtain ⟨left, hleft⟩ := h.exists_resolve_eq
    have hstride := h.opened.stride_sought h.sought
    rw [hnode] at hstride
    have hresolve := (hleft true).trans (walk_link hstride (.inl rfl))
    cases left with
    | zero => exact absurd hresolve hlinks
    | succ left =>
        rw [List.append_nil] at hresolve
        rcases walk_links hbetween left with hfound | hfew
        · exact absurd (hresolve.trans hfound) (hmissing between)
        · exact absurd (hresolve.trans hfew) hlinks

end TextOverride.FileTree
