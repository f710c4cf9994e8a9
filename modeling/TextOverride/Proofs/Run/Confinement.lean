import Mathlib
import TextOverride.Proofs.FileTree.Confinement
import TextOverride.Proofs.Run.Course

namespace TextOverride

namespace Path

private theorem confine?_eq_none_iff {base target : Path} :
    confine? base target = none ↔
      [separator] <+: target ∨ parent ∈ target.splitOn separator := by
  have habsolute : isAbsolute target = true ↔ [separator] <+: target := by
    cases target with
    | nil =>
        refine iff_of_false Bool.false_ne_true fun h => ?_
        exact List.cons_ne_nil separator [] (List.prefix_nil.mp h)
    | cons c rest =>
        rw [isAbsolute, beq_iff_eq, List.head?_cons, Option.some.injEq,
          List.cons_prefix_cons, and_iff_left List.nil_prefix]
        exact eq_comm
  rw [← names_eq_splitOn, ← habsolute, confine?]
  split
  case isTrue h => exact iff_of_true rfl h
  case isFalse h => exact iff_of_false (Option.some_ne_none _) h

end Path

namespace Settings

variable {s : Settings} {process : Nat} {home home' root place : Place}
  {t t' : FileTree} {entry : ManifestEntry}

theorem Reaches.exists_file (h : s.Reaches t home entry place) :
    ∃ content mode, t.node? place = some (.file content mode) := by
  obtain ⟨_, content, mode, _, _, hfile⟩ := h
  exact ⟨content, mode, hfile⟩

theorem Reaches.not_directory (h : s.Reaches t home entry place) :
    t.isDirectoryAt place = false := by
  obtain ⟨_, _, hfile⟩ := h.exists_file
  exact FileTree.isDirectoryAt_of_file hfile

theorem Reaches.below (h : s.Reaches t home entry place)
    (hroot : t.Rooted home s.base root) :
    root <:+ place ∧ root <:+ place.tail := by
  have hnot := h.not_directory
  obtain ⟨target, _, _, hconfine, hplace, _⟩ := h
  obtain ⟨hrelative, hinside, rfl⟩ := Path.confine?_eq_some_iff.mp hconfine
  have hbelow := hroot.below hrelative hinside hplace
  refine ⟨hbelow, ?_⟩
  cases place with
  | nil => exact hbelow
  | cons name directory =>
      rcases List.suffix_cons_iff.mp hbelow with rfl | htail
      · exact absurd (hnot.symm.trans hroot.directory) Bool.false_ne_true
      · exact htail

theorem Follows.of_rooted (hroot : t.Rooted home s.base root)
    (entry : ManifestEntry) : s.Follows t home entry := by
  intro target hconfine
  obtain ⟨hrelative, hinside, rfl⟩ := Path.confine?_eq_some_iff.mp hconfine
  exact hroot.followable hrelative hinside

private theorem Prepared.of_rooted (hwf : t.WellFormed)
    (hfree : t.TemporaryFree process) (hroot : t.Rooted home s.base root)
    (manifest : Manifest) :
    s.Prepared process t home manifest where
  wellFormed := hwf
  free := hfree
  follows entry _ := .of_rooted hroot entry

private theorem Alike.of_twins (h : FileTree.Twins home home' s.base root t t')
    (entry : ManifestEntry) : s.Alike entry home t home' t' where
  place target hconfine := by
    obtain ⟨hrelative, hinside, rfl⟩ := Path.confine?_eq_some_iff.mp hconfine
    exact h.rooted.place?_eq h.rooted' h.same hrelative hinside
  readText target hconfine := by
    obtain ⟨hrelative, hinside, rfl⟩ := Path.confine?_eq_some_iff.mp hconfine
    rw [FileTree.readText, FileTree.readText,
      h.rooted.read_eq h.rooted' h.same hrelative hinside]
  working target hconfine place hreaches := by
    have hplace := hreaches.place_eq hconfine
    obtain ⟨hrelative, hinside, rfl⟩ := Path.confine?_eq_some_iff.mp hconfine
    rw [FileTree.working, FileTree.working, h.canonical?_join hrelative hinside
      hplace hreaches.not_directory]
  file place hreaches := h.same place (hreaches.below h.rooted).1
  writable place hreaches :=
    h.same.allowsAt (hreaches.below h.rooted).2 Node.writable

/-- The temporary file is below the root as well, where the trees agree. -/
theorem Ready.of_twins (h : FileTree.Twins home home' s.base root t t')
    (hfree : t.TemporaryFree process) (entry : ManifestEntry) :
    s.Ready process t' home' entry where
  wellFormed := h.wellFormed'
  follows := .of_rooted h.rooted' entry
  unused target hconfine place hreaches := by
    have hresolve := h.wellFormed'.resolve_working
      (Follows.of_rooted h.rooted' entry target hconfine)
      (FileTree.place?_eq_some_iff.mp (hreaches.place_eq hconfine))
      hreaches.not_directory
    obtain ⟨directory, name, rfl, hends⟩ :=
      h.wellFormed'.endsIn_of_file hresolve hreaches.not_directory
    refine hends.temporaryUnused ?_
    have hbelow : root <:+ directory := (hreaches.below h.rooted').2
    exact (h.same _ (hbelow.trans (List.suffix_cons _ directory))).trans
      (hfree _ directory)

variable [FileTree.Device]

private theorem Verdict.twins {report : Report} {change : Option (Place × Node)}
    (h : s.Verdict process home t entry report change)
    (htwins : FileTree.Twins home home' s.base root t t') :
    FileTree.Twins home home' s.base root (t.apply change)
      (t'.apply change) := by
  rcases h.change_cases with rfl | ⟨place, old, mode, new, rfl, hreaches, hfile⟩
  · exact htwins
  · have hfile' :=
      (htwins.same place (hreaches.below htwins.rooted).1).trans hfile
    refine htwins.of_sameShape (FileTree.sameShape_set hfile new)
      (FileTree.sameShape_set hfile' new) fun other hother => ?_
    rw [FileTree.apply, FileTree.apply, FileTree.node?_set_file hfile,
      FileTree.node?_set_file hfile', htwins.same other hother]

private theorem steps_of_twins (hbounded : s.locator.Bounded)
    (hfree : t.TemporaryFree process)
    (htwins : FileTree.Twins home home' s.base root t t') {manifest : Manifest}
    {summary : Summary} {after : FileTree}
    (h : s.steps process home t manifest = .ok (summary, after)) :
    ∃ after', s.steps process home' t' manifest = .ok (summary, after') ∧
      FileTree.SameBelow root after after' := by
  induction manifest generalizing t t' summary with
  | nil =>
      cases h
      exact ⟨t', rfl, htwins.same⟩
  | cons entry rest ih =>
      obtain ⟨_, _, reports, rfl, hstep, hrest⟩ := exists_of_steps_cons h
      have hready : s.Ready process t home entry :=
        (Follows.of_rooted htwins.rooted entry).ready htwins.wellFormed hfree
      obtain ⟨report, change, hverdict, hsteps⟩ :=
        exists_verdict_alike hbounded hready
      cases (hsteps home t (SameFor.refl s home entry t).alike
        hready).symm.trans hstep
      have hstep' := hsteps home' t' (.of_twins htwins entry)
        (.of_twins htwins hfree entry)
      obtain ⟨after', hrest', hlast⟩ :=
        ih (hfree.of_sameShape hverdict.sameShape) (hverdict.twins htwins) hrest
      exact ⟨after', steps_cons hstep' hrest', hlast⟩

end Settings

/-- Targets that are absolute or lead through a parent are refused, all others
are joined to the base directory. So a run only changes files strictly below
that directory; and in another tree with the same directory it has the same
reports and the same effect there. -/
theorem applyAll_confined [FileTree.Device] [LineScan.Patterns]
    (config : Config) (prompts : Prompts) (logger : Log.Logger) :
    (∀ target,
      (Path.confine? config.base target = none ↔
        ['/'] <+: target ∨ ['.', '.'] ∈ target.splitOn '/') ∧
      (Path.confine? config.base target ≠ none →
        Path.confine? config.base target =
          some (Path.join config.base target))) ∧
    ∀ (machine : Machine) (root : Place) (manifest : Manifest),
      machine.tree.WellFormed → machine.tree.TemporaryFree machine.process →
      machine.tree.Rooted machine.home config.base root →
      ∃ summary after,
        machine.perform ((config.settings prompts).applyAll logger manifest) =
          (.ok summary, after) ∧
        (∀ place, after.tree.node? place ≠ machine.tree.node? place →
          root <:+ place ∧ place ≠ root ∧ ∃ old new mode,
            machine.tree.node? place = some (.file old mode) ∧
            after.tree.node? place = some (.file new mode)) ∧
        ∀ other : Machine, other.tree.WellFormed →
          other.process = machine.process →
          FileTree.SameBase machine.home other.home config.base root
            machine.tree other.tree →
          FileTree.SameBelow root machine.tree other.tree →
          ∃ after',
            other.perform ((config.settings prompts).applyAll logger manifest) =
              (.ok summary, after') ∧
            FileTree.SameBelow root after.tree after'.tree := by
  refine ⟨fun target => ⟨Path.confine?_eq_none_iff, fun hsome => ?_⟩, ?_⟩
  · obtain ⟨path, hpath⟩ := Option.ne_none_iff_exists'.mp hsome
    rw [hpath, (Path.confine?_eq_some_iff.mp hpath).2.2]
  intro machine root manifest hwf hfree hroot
  have hbounded : (config.settings prompts).locator.Bounded :=
    LineScan.locator_bounded
  have hprepared :
      (config.settings prompts).Prepared machine.process machine.tree
      machine.home manifest := .of_rooted hwf hfree hroot manifest
  obtain ⟨summary, tree, hsteps, _⟩ := Settings.steps_total hbounded
    machine.process machine.home machine.tree manifest
  refine ⟨summary, _, Settings.perform_applyAll logger hsteps, ?_, ?_⟩
  · rw [Machine.tree_logAll]
    intro place hchanged
    -- A place that no entry reaches would be as it was.
    have hreached : ∃ entry ∈ manifest,
        (config.settings prompts).Reaches machine.tree machine.home entry
        place := by
      refine Classical.byContradiction fun hnone => hchanged ?_
      exact hprepared.steps_frame hbounded hsteps
        fun entry hentry hreaches => hnone ⟨entry, hentry, hreaches⟩
    obtain ⟨entry, _, hreaches⟩ := hreached
    obtain ⟨old, mode, hfile⟩ := hreaches.exists_file
    obtain ⟨new, hfile'⟩ :=
      (hprepared.steps_sameShape hbounded hsteps).file hfile
    refine ⟨(hreaches.below hroot).1, ?_, old, new, mode, hfile, hfile'⟩
    rintro rfl
    exact absurd (hreaches.not_directory.symm.trans hroot.directory)
      Bool.false_ne_true
  · intro other hwf' hprocess hbase hsame
    obtain ⟨after', hsteps', hsame'⟩ :=
      Settings.steps_of_twins hbounded
        hfree ⟨hwf, hwf', hroot, hsame, hbase⟩ hsteps
    rw [← hprocess] at hsteps'
    refine ⟨_, Settings.perform_applyAll logger hsteps', ?_⟩
    rw [Machine.tree_logAll, Machine.tree_logAll]
    exact hsame'

/-- The base directory is reached through a link. -/
def confinedFiles (home : Place) (others : List (Place × Node)) : Machine :=
  .holding home <|
    [(["base".toList], .directory FileTree.directoryMode),
      (["a.ts".toList, "base".toList],
        .file (Utf8.encode "const P = 1;\n".toList) FileTree.fileMode),
      (["link".toList], .link "base".toList)] ++ others

def confinedRun : Config := .patching "/link".toList ["P".toList]

def confinedPrompts : Prompts := .ofList [("p".toList, "x".toList)]

def confinedManifest : Manifest :=
  [⟨"p".toList, "P".toList, "../out.ts".toList⟩,
    ⟨"p".toList, "P".toList, "a.ts".toList⟩]

def outsideFile : Place × Node :=
  (["out.ts".toList],
    .file (Utf8.encode "const P = 1;\n".toList) FileTree.fileMode)

theorem applyAll_confined_linked_base :
    let machine := confinedFiles [] [outsideFile]
    let other := confinedFiles ["base".toList] []
    machine.tree.WellFormed ∧ machine.tree.TemporaryFree 7 ∧
      machine.tree.Rooted [] "/link".toList ["base".toList] ∧
      other.tree.WellFormed ∧
      FileTree.SameBase [] ["base".toList] "/link".toList ["base".toList]
        machine.tree other.tree ∧
      ∃ summary after after',
        machine.perform
            ((confinedRun.settings confinedPrompts).applyAll .off
              confinedManifest) =
          (.ok summary, after) ∧
        after.tree.node? outsideFile.1 = some outsideFile.2 ∧
        other.perform
            ((confinedRun.settings confinedPrompts).applyAll .off
              confinedManifest) =
          (.ok summary, after') ∧
        FileTree.SameBelow ["base".toList] after.tree after'.tree := by
  intro machine other
  have hwf : machine.tree.WellFormed := by decide
  have hwf' : other.tree.WellFormed := by decide
  have hfree : machine.tree.TemporaryFree 7 :=
    FileTree.temporaryFree_of_nodes (by decide)
  have hroot : machine.tree.Rooted [] "/link".toList ["base".toList] :=
    ⟨by cbv, rfl, FileTree.noLinks_of_nodes (by decide)⟩
  have hbase :
      FileTree.SameBase [] ["base".toList] "/link".toList ["base".toList]
      machine.tree other.tree := ⟨by cbv, by cbv, by cbv⟩
  have hsame : FileTree.SameBelow ["base".toList] machine.tree other.tree :=
    FileTree.sameBelow_of_nodes (by decide)
  obtain ⟨summary, after, hperform, hchanged, hothers⟩ :=
    (applyAll_confined confinedRun confinedPrompts .off).2 machine
      ["base".toList]
      confinedManifest hwf hfree hroot
  obtain ⟨after', hperform', hafter⟩ := hothers other hwf' rfl hbase hsame
  have houtside : after.tree.node? outsideFile.1 =
      machine.tree.node? outsideFile.1 :=
    Decidable.byContradiction fun hne => absurd (hchanged _ hne).1 (by decide)
  exact ⟨hwf, hfree, hroot, hwf', hbase, summary, after, after', hperform,
    houtside, hperform', hafter⟩

end TextOverride
