import TextOverride.Proofs.Run.Verdict

namespace TextOverride.Settings

variable {s : Settings} {process : Nat} {home : Place} {t t' t'' : FileTree}
  {entry : ManifestEntry} {report : Report}

structure Prepared (s : Settings) (process : Nat) (t : FileTree) (home : Place)
    (manifest : Manifest) : Prop where
  wellFormed : t.WellFormed
  free : t.TemporaryFree process
  follows : ∀ entry ∈ manifest, s.Follows t home entry

namespace Prepared

variable {manifest rest : Manifest}

theorem ready (h : s.Prepared process t home manifest)
    (hentry : entry ∈ manifest) :
    s.Ready process t home entry :=
  (h.follows entry hentry).ready h.wellFormed h.free

theorem of_sameShape (h : s.Prepared process t home manifest)
    (hshape : FileTree.SameShape t t') :
    s.Prepared process t' home manifest where
  wellFormed := h.wellFormed.of_sameShape hshape
  free := h.free.of_sameShape hshape
  follows entry hentry := (h.follows entry hentry).of_sameShape hshape

theorem subset (h : s.Prepared process t home manifest)
    (hsub : rest ⊆ manifest) :
    s.Prepared process t home rest :=
  { h with follows := fun entry hentry => h.follows entry (hsub hentry) }

end Prepared

variable [FileTree.Device]

private theorem Plans.step_total {edit : Edit} (h : s.Plans home t entry edit)
    (hbounded : s.locator.Bounded) (process : Nat) :
    ∃ report t', s.step process home t entry = .ok (report, t') ∧
      report.entry = entry := by
  obtain ⟨lines, hlines⟩ := h.exists_lines hbounded
  by_cases hdry : s.dryRun = true
  · exact ⟨_, t, h.step_of_dry hlines hdry process, rfl⟩
  · have hreal := (Bool.not_eq_true _).mp hdry
    cases hreplace :
      t.replace process home edit.target (Utf8.encode lines.flatten) with
    | mk result after =>
        cases result with
        | error refusal =>
            exact ⟨_, after, h.step_of_refused hlines hreal hreplace, rfl⟩
        | ok => exact ⟨_, after, h.step_of_replaced hlines hreal hreplace, rfl⟩

theorem step_total (hbounded : s.locator.Bounded) (process : Nat) (home : Place)
    (t : FileTree) (entry : ManifestEntry) :
    ∃ report t', s.step process home t entry = .ok (report, t') ∧
      report.entry = entry := by
  rcases plans_or_stops hbounded process home t entry with
    ⟨edit, hplans⟩ | ⟨outcome, target, _, hstops⟩
  · exact hplans.step_total hbounded process
  · exact ⟨_, t, hstops s.dryRun home t
      (SameFor.refl s home entry t).alike, rfl⟩

theorem steps_total (hbounded : s.locator.Bounded) (process : Nat)
    (home : Place) (t : FileTree) (manifest : Manifest) :
    ∃ summary t', s.steps process home t manifest = .ok (summary, t') ∧
      summary.map Report.entry = manifest := by
  induction manifest generalizing t with
  | nil => exact ⟨[], t, rfl, rfl⟩
  | cons entry rest ih =>
      obtain ⟨report, middle, hstep, hentry⟩ :=
        step_total hbounded process home t entry
      obtain ⟨summary, t', hsteps, hentries⟩ := ih middle
      refine ⟨report :: summary, t', steps_cons hstep hsteps, ?_⟩
      rw [List.map_cons, hentry, hentries]

theorem steps_append {manifest later : Manifest} {summary others : Summary}
    (h : s.steps process home t manifest = .ok (summary, t'))
    (hlater : s.steps process home t' later = .ok (others, t'')) :
    s.steps process home t (manifest ++ later) =
      .ok (summary ++ others, t'') := by
  induction manifest generalizing t summary with
  | nil =>
      cases h
      exact hlater
  | cons entry rest ih =>
      obtain ⟨report, middle, reports, rfl, hstep, hrest⟩ :=
        exists_of_steps_cons h
      exact steps_cons hstep (ih hrest)

/-! What a run leaves alone. -/

theorem Ready.exists_verdict (h : s.Ready process t home entry)
    (hbounded : s.locator.Bounded)
    (hstep : s.step process home t entry = .ok (report, t')) :
    ∃ change, s.Verdict process home t entry report change ∧
      t' = t.apply change := by
  obtain ⟨r, change, hverdict, hsteps⟩ := Settings.exists_verdict hbounded h
  cases (hsteps t (.refl s home entry t)).symm.trans hstep
  exact ⟨change, hverdict, rfl⟩

namespace Prepared

variable {manifest rest : Manifest} {summary : Summary} {place : Place}

theorem step_sameShape (h : s.Prepared process t home (entry :: rest))
    (hbounded : s.locator.Bounded)
    (hstep : s.step process home t entry = .ok (report, t')) :
    FileTree.SameShape t t' := by
  obtain ⟨change, hverdict, rfl⟩ :=
    (h.ready List.mem_cons_self).exists_verdict hbounded hstep
  exact hverdict.sameShape

theorem tail (h : s.Prepared process t home (entry :: rest))
    (hbounded : s.locator.Bounded)
    (hstep : s.step process home t entry = .ok (report, t')) :
    s.Prepared process t' home rest :=
  (h.subset (List.subset_cons_self entry rest)).of_sameShape
    (h.step_sameShape hbounded hstep)

theorem steps_sameShape (h : s.Prepared process t home manifest)
    (hbounded : s.locator.Bounded)
    (hsteps : s.steps process home t manifest = .ok (summary, t')) :
    FileTree.SameShape t t' := by
  induction manifest generalizing t summary with
  | nil =>
      cases hsteps
      exact .refl _
  | cons entry rest ih =>
      obtain ⟨report, middle, reports, rfl, hstep, hrest⟩ :=
        exists_of_steps_cons hsteps
      exact (h.step_sameShape hbounded hstep).trans
        (ih (h.tail hbounded hstep) hrest)

/-- A node can only change if the target of some entry leads to it. -/
theorem steps_frame (h : s.Prepared process t home manifest)
    (hbounded : s.locator.Bounded)
    (hsteps : s.steps process home t manifest = .ok (summary, t'))
    (hplace : ∀ entry ∈ manifest, ¬ s.Reaches t home entry place) :
    t'.node? place = t.node? place := by
  induction manifest generalizing t summary with
  | nil =>
      cases hsteps
      rfl
  | cons entry rest ih =>
      obtain ⟨hentry, hothers⟩ := List.forall_mem_cons.mp hplace
      obtain ⟨report, middle, reports, rfl, hstep, hrest⟩ :=
        exists_of_steps_cons hsteps
      have hshape := h.step_sameShape hbounded hstep
      have hlater :=
        ih (h.tail hbounded hstep) hrest fun other hother hreaches =>
        hothers other hother (hreaches.of_sameShape hshape.symm)
      obtain ⟨change, hverdict, rfl⟩ :=
        (h.ready List.mem_cons_self).exists_verdict hbounded hstep
      exact hlater.trans (hverdict.node?_apply hentry)

end Prepared

end TextOverride.Settings
