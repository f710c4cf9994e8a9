import TextOverride.Proofs.Run.Order

namespace TextOverride

namespace Report

def Refused (r : Report) : Prop :=
  ∃ refusal, r.outcome = .failed (Error.fileNotWritten refusal).display

/-- The first report, of a dry run, says of the entry what the second says of it
in a real run, which has written what it has applied. -/
structure Foretells (dry real : Report) : Prop where
  entry : real.entry = dry.entry
  outcome : real.outcome = dry.outcome
  target : real.target = dry.target
  insertedAt : real.insertedAt = dry.insertedAt
  written : real.written = true ↔ real.outcome = .applied

private theorem untouched_foretells (entry : ManifestEntry) {outcome : Outcome}
    (houtcome : outcome.isApplied = false) (target : Option Path) :
    (untouched entry outcome target).Foretells
      (untouched entry outcome target) := by
  refine ⟨rfl, rfl, rfl, rfl, iff_of_false Bool.false_ne_true ?_⟩
  rintro rfl
  cases houtcome

end Report

private theorem Edit.report_foretells (edit : Edit) (entry : ManifestEntry) :
    (edit.report entry false).Foretells (edit.report entry true) :=
  ⟨rfl, rfl, rfl, rfl, iff_of_true rfl rfl⟩

namespace Settings

variable {s : Settings} {process : Nat} {home : Place} {t t' : FileTree}
    {entry : ManifestEntry}

private theorem step_of_dryRun [FileTree.Device] (hbounded : s.locator.Bounded)
    (hdry : s.dryRun = true) (process : Nat) (home : Place) (t : FileTree)
    (entry : ManifestEntry) :
    ∃ report, s.step process home t entry = .ok (report, t) ∧
      report.written = false := by
  rcases plans_or_stops hbounded process home t entry with
    ⟨edit, hplans⟩ | ⟨outcome, target, _, hstops⟩
  · obtain ⟨lines, hlines⟩ := hplans.exists_lines hbounded
    refine ⟨_, hplans.step_of_dry hlines hdry process, ?_⟩
    rw [hdry]
    rfl
  · exact ⟨_, hstops s.dryRun home t (SameFor.refl s home entry t).alike, rfl⟩

private theorem steps_of_dryRun [FileTree.Device] (hbounded : s.locator.Bounded)
    (hdry : s.dryRun = true) (process : Nat) (home : Place) (t : FileTree)
    (manifest : Manifest) :
    ∃ summary, s.steps process home t manifest = .ok (summary, t) ∧
      ∀ report ∈ summary, report.written = false := by
  induction manifest with
  | nil => exact ⟨[], rfl, nofun⟩
  | cons entry rest ih =>
      obtain ⟨report, hstep, hwritten⟩ :=
        step_of_dryRun hbounded hdry process home t entry
      obtain ⟨summary, hsteps, hothers⟩ := ih
      exact ⟨report :: summary, steps_cons hstep hsteps,
        List.forall_mem_cons.mpr ⟨hwritten, hothers⟩⟩

/-! A dry run and a real one. -/

private theorem SameFor.step_foretold [FileTree.Device]
    (hsame : s.SameFor home entry t t') (hbounded : s.locator.Bounded)
    (process : Nat) :
    ∃ dry real after, { s with dryRun := true }.step process home t entry =
      .ok (dry, t) ∧
      { s with dryRun := false }.step process home t' entry =
      .ok (real, after) ∧
      (¬ real.Refused → dry.Foretells real) := by
  rcases plans_or_stops hbounded process home t entry with
    ⟨edit, hplans⟩ | ⟨outcome, target, houtcome, hstops⟩
  · obtain ⟨lines, hlines⟩ := hplans.exists_lines hbounded
    -- A plan does not depend on whether it is for a dry run.
    have hdry : { s with dryRun := true }.Plans home t entry edit :=
      { hplans with }
    have hreal : { s with dryRun := false }.Plans home t' entry edit :=
      { hplans.congr hsame.alike with }
    cases hreplace :
      t'.replace process home edit.target (Utf8.encode lines.flatten) with
    | mk result after =>
        cases result with
        | ok =>
            exact ⟨_, _, after, hdry.step_of_dry hlines rfl process,
              hreal.step_of_replaced hlines rfl hreplace, fun _ =>
                edit.report_foretells entry⟩
        | error refusal =>
            exact ⟨_, _, after, hdry.step_of_dry hlines rfl process,
              hreal.step_of_refused hlines rfl hreplace, fun h =>
                absurd ⟨refusal, rfl⟩ h⟩
  · exact ⟨_, _, t', hstops true home t (SameFor.refl s home entry t).alike,
      hstops false home t' hsame.alike, fun _ =>
        Report.untouched_foretells entry houtcome target⟩

/-- What an entry does is nothing to another one that is apart from it. -/
theorem SameFor.step [FileTree.Device] {other : ManifestEntry} {report : Report}
    {t'' : FileTree} (hsame : s.SameFor home other t t')
    (hready : s.Ready process t' home entry) (hbounded : s.locator.Bounded)
    (hapart : s.Apart t home entry other)
    (hstep : s.step process home t' entry = .ok (report, t'')) :
    s.SameFor home other t t'' := by
  obtain ⟨change, hverdict, rfl⟩ := hready.exists_verdict hbounded hstep
  refine ⟨hsame.shape.trans hverdict.sameShape, fun place hother => ?_⟩
  have hentry : ¬ s.Reaches t' home entry place := fun hreaches =>
    hapart place (hreaches.of_sameShape hsame.shape.symm) hother
  exact (hverdict.node?_apply hentry).trans (hsame.file place hother)

/-- The two runs are followed side by side. The tree of the real one has
changed, but not for the entries that are still to come. -/
theorem Prepared.steps_foretold [FileTree.Device] {manifest : Manifest}
    {dry real : Summary} {after : FileTree}
    (hprepared : { s with dryRun := false }.Prepared process t' home manifest)
    (hbounded : s.locator.Bounded) (hapart : manifest.Pairwise (s.Apart t home))
    (hsame : ∀ entry ∈ manifest, s.SameFor home entry t t')
    (hdry : { s with dryRun := true }.steps process home t manifest =
      .ok (dry, t))
    (hreal : { s with dryRun := false }.steps process home t' manifest =
      .ok (real, after))
    (hwritten : ∀ report ∈ real, ¬ report.Refused) :
    List.Forall₂ Report.Foretells dry real := by
  induction manifest generalizing t' dry real with
  | nil =>
      cases hdry
      cases hreal
      exact .nil
  | cons entry rest ih =>
      obtain ⟨hentry, hothers⟩ := List.pairwise_cons.mp hapart
      obtain ⟨hfirst, hlater⟩ := List.forall_mem_cons.mp hsame
      obtain ⟨_, _, _, hdryStep, hrealStep, hforetells⟩ :=
        hfirst.step_foretold hbounded process
      obtain ⟨_, _, dry, rfl, hdryStep', hdry⟩ := exists_of_steps_cons hdry
      cases hdryStep.symm.trans hdryStep'
      obtain ⟨_, _, real, rfl, hrealStep', hreal⟩ := exists_of_steps_cons hreal
      cases hrealStep.symm.trans hrealStep'
      obtain ⟨hreport, hreports⟩ := List.forall_mem_cons.mp hwritten
      refine .cons (hforetells hreport) (ih (hprepared.tail hbounded hrealStep)
        hothers (fun other hother => ?_) hdry hreal hreports)
      have hkept := SameFor.step (s := { s with dryRun := false })
        ⟨(hlater other hother).shape, (hlater other hother).file⟩
        (hprepared.ready List.mem_cons_self) hbounded (hentry other hother)
        hrealStep
      exact ⟨hkept.shape, hkept.file⟩

end Settings

/-- A dry run leaves the tree as it is. Where no two entries are about one file,
it foretells every report of the real run, unless a file cannot be replaced. -/
theorem dryRun_foretells [FileTree.Device] [LineScan.Patterns] (config : Config)
    (prompts : Prompts) (logger : Log.Logger) (machine : Machine)
    (manifest : Manifest) :
    ∃ (dry real : Summary) (after after' : Machine),
      machine.perform
        (({ config with dryRun := true }.settings prompts).applyAll
          logger manifest) =
        (.ok dry, after) ∧
      machine.perform
      (({ config with dryRun := false }.settings prompts).applyAll
          logger manifest) =
        (.ok real, after') ∧
      after.tree = machine.tree ∧ (∀ report ∈ dry, report.written = false) ∧
      ((config.settings prompts).Prepared machine.process machine.tree
        machine.home
          manifest →
        manifest.Pairwise
        ((config.settings prompts).Apart machine.tree machine.home) →
        (∀ report ∈ real, ¬ report.Refused) →
          List.Forall₂ Report.Foretells dry real) := by
  have hbounded : (config.settings prompts).locator.Bounded :=
    LineScan.locator_bounded
  obtain ⟨dry, hdry, hunwritten⟩ :=
    Settings.steps_of_dryRun (s :=
      { config with dryRun := true }.settings prompts)
      hbounded rfl machine.process machine.home machine.tree manifest
  obtain ⟨real, tree, hreal, _⟩ :=
    Settings.steps_total (s := { config with dryRun := false }.settings prompts)
      hbounded machine.process machine.home machine.tree manifest
  refine ⟨dry, real, _, _, Settings.perform_applyAll logger hdry,
    Settings.perform_applyAll logger hreal, Machine.tree_logAll _ _ _,
    hunwritten, ?_⟩
  intro hprepared hapart hwritten
  exact Settings.Prepared.steps_foretold (s := config.settings prompts)
    ⟨hprepared.wellFormed, hprepared.free, hprepared.follows⟩ hbounded hapart
    (fun entry _ => .refl _ machine.home entry machine.tree) hdry hreal hwritten

def rehearsedFiles : Machine :=
  .holding []
    [(["a.ts".toList],
        .file (Utf8.encode "const P = 1;\n".toList) FileTree.fileMode),
      (["b.ts".toList], .link "a.ts".toList),
      (["c.ts".toList],
        .file (Utf8.encode "const P = 2;\n".toList) FileTree.fileMode)]

def rehearsedRun : Config := .patching "/".toList ["P".toList]

def rehearsedPrompts : Prompts := .ofList [("p".toList, "x".toList)]

def rehearsedSettings : Settings := rehearsedRun.settings rehearsedPrompts

def entryThroughLink : ManifestEntry := ⟨"p".toList, "P".toList, "b.ts".toList⟩

def entryWithoutValue : ManifestEntry := ⟨"q".toList, "P".toList, "c.ts".toList⟩

def rehearsedManifest : Manifest := [entryThroughLink, entryWithoutValue]

theorem dryRun_foretells_linked :
    rehearsedSettings.Prepared 7 rehearsedFiles.tree [] rehearsedManifest ∧
      rehearsedManifest.Pairwise
        (rehearsedSettings.Apart rehearsedFiles.tree []) ∧
      ∃ (dry real : Summary) (after after' : Machine),
        rehearsedFiles.perform (({ rehearsedRun with dryRun := true }.settings
          rehearsedPrompts).applyAll .off rehearsedManifest) =
            (.ok dry, after) ∧
        rehearsedFiles.perform
        (rehearsedSettings.applyAll .off rehearsedManifest) =
          (.ok real, after') ∧
        after.tree = rehearsedFiles.tree ∧
        real.map Report.outcome = [.applied, .skipped .noValue] ∧
        (∀ report ∈ real, ¬ report.Refused) ∧
        List.Forall₂ Report.Foretells dry real := by
  have hwf : rehearsedFiles.tree.WellFormed := by decide
  have hfree : rehearsedFiles.tree.TemporaryFree 7 :=
    FileTree.temporaryFree_of_nodes (by decide)
  have hrealB : rehearsedFiles.tree.canonical? [] "/b.ts".toList =
    some "/a.ts".toList := by cbv
  have hrealC : rehearsedFiles.tree.canonical? [] "/c.ts".toList =
    some "/c.ts".toList := by cbv
  have hprepared : rehearsedSettings.Prepared 7 rehearsedFiles.tree []
      rehearsedManifest :=
    ⟨hwf, hfree, List.forall_mem_cons.mpr
      ⟨Settings.follows_of_canonical rfl hrealB,
        List.forall_mem_singleton.mpr
        (Settings.follows_of_canonical rfl hrealC)⟩⟩
  have hb :
      rehearsedFiles.tree.place? [] "/b.ts".toList = some ["a.ts".toList] := by
    cbv
  have hc :
      rehearsedFiles.tree.place? [] "/c.ts".toList = some ["c.ts".toList] := by
    cbv
  have hapart : rehearsedManifest.Pairwise
      (rehearsedSettings.Apart rehearsedFiles.tree []) := by
    refine List.pairwise_pair.mpr fun place hfirst hsecond => ?_
    cases hb.symm.trans (hfirst.place_eq rfl)
    cases hc.symm.trans (hsecond.place_eq rfl)
  let edit : Edit :=
    ⟨"x".toList, "/b.ts".toList, "const P = 1;\n".toList, ⟨0, 0⟩⟩
  have hlines : edit.lines? "P".toList =
      .ok ["const P = 1;\n".toList,
        "P = `x`; // Injected by patcher.py\n".toList] := rfl
  have hplans :
      rehearsedSettings.Plans [] rehearsedFiles.tree entryThroughLink edit :=
    ⟨rfl, by decide, by decide, by decide, by decide, rfl, by cbv, by cbv, rfl⟩
  have hreplace : (rehearsedFiles.tree.replace 7 [] "/b.ts".toList
      (Utf8.encode (List.flatten ["const P = 1;\n".toList,
        "P = `x`; // Injected by patcher.py\n".toList]))).1 = .ok () := by cbv
  obtain ⟨dry, real, after, after', hdry, hreal, htree, _, hforetells⟩ :=
    dryRun_foretells rehearsedRun rehearsedPrompts .off rehearsedFiles
      rehearsedManifest
  have hskipped (t : FileTree) :
      rehearsedSettings.step 7 [] t entryWithoutValue =
    .ok (.untouched entryWithoutValue (.skipped .noValue) none, t) := rfl
  have hsteps :
      rehearsedSettings.steps rehearsedFiles.process rehearsedFiles.home
      rehearsedFiles.tree rehearsedManifest = .ok ([_, _], _) :=
    Settings.steps_cons
      (hplans.step_of_replaced hlines rfl (Prod.ext hreplace rfl))
      (Settings.steps_cons (hskipped _) rfl)
  cases hreal.symm.trans (Settings.perform_applyAll .off hsteps)
  have hwritten : ∀ report ∈ [edit.report entryThroughLink true,
      .untouched entryWithoutValue (.skipped .noValue) none],
        ¬ report.Refused := by
    simp [Report.Refused, Edit.report, Report.untouched]
  exact ⟨hprepared, hapart, dry, _, after, _, hdry, hreal, htree, rfl, hwritten,
    hforetells hprepared hapart hwritten⟩

end TextOverride
