import Mathlib
import TextOverride.Proofs.FileTree.Atomicity
import TextOverride.Proofs.Run.Course

namespace TextOverride

namespace Settings

variable [FileTree.Device] {s : Settings} {process : Nat} {home : Place}
  {t t' : FileTree}

/-- A step keeps the tree in order, also where it puts a file in the place of a
link. One that is not carried out leaves it alone. -/
theorem step_keeps (hbounded : s.locator.Bounded) (hwf : t.WellFormed)
    (hfree : t.TemporaryFree process) {entry : ManifestEntry} {report : Report}
    (h : s.step process home t entry = .ok (report, t')) :
    t'.WellFormed ∧ t'.TemporaryFree process ∧
      (report.outcome ≠ .applied → t' = t) := by
  rcases plans_or_stops hbounded process home t entry with
    ⟨edit, hplans⟩ | ⟨outcome, target, _, hstops⟩
  case inr =>
    cases (hstops s.dryRun home t
      (SameFor.refl s home entry t).alike).symm.trans h
    exact ⟨hwf, hfree, fun _ => rfl⟩
  obtain ⟨lines, hlines⟩ := hplans.exists_lines hbounded
  by_cases hdry : s.dryRun = true
  · cases (hplans.step_of_dry hlines hdry process).symm.trans h
    exact ⟨hwf, hfree, fun _ => rfl⟩
  have hreal := (Bool.not_eq_true _).mp hdry
  obtain ⟨place, _, _, hplace, _⟩ := hplans.exists_file
  rcases hwf.replace_keeps hfree edit.target
      (FileTree.place?_eq_some_iff.mp hplace) (Utf8.encode lines.flatten) with
    ⟨refusal, hreplace⟩ | ⟨after, hreplace, hwf', hfree'⟩
  · cases (hplans.step_of_refused hlines hreal hreplace).symm.trans h
    exact ⟨hwf, hfree, fun _ => rfl⟩
  · cases (hplans.step_of_replaced hlines hreal hreplace).symm.trans h
    exact ⟨hwf', hfree', fun happlied => absurd rfl happlied⟩

private theorem steps_keep (hbounded : s.locator.Bounded) (hwf : t.WellFormed)
    (hfree : t.TemporaryFree process) {manifest : Manifest} {summary : Summary}
    (h : s.steps process home t manifest = .ok (summary, t')) :
    t'.WellFormed ∧ t'.TemporaryFree process := by
  induction manifest generalizing t summary with
  | nil =>
      cases h
      exact ⟨hwf, hfree⟩
  | cons entry rest ih =>
      obtain ⟨report, middle, reports, rfl, hstep, hrest⟩ :=
        exists_of_steps_cons h
      obtain ⟨hwf', hfree', _⟩ := step_keeps hbounded hwf hfree hstep
      exact ih hwf' hfree' hrest

end Settings

/-- Where one entry of a run is not carried out, the run without that entry ends
in the same tree, with the same reports of all the others. -/
theorem applyAll_without_unapplied [FileTree.Device] [LineScan.Patterns]
    (config : Config) (prompts : Prompts) (logger : Log.Logger)
    (machine : Machine) (hwf : machine.tree.WellFormed)
    (hfree : machine.tree.TemporaryFree machine.process) (before : Manifest)
    (entry : ManifestEntry) (later : Manifest) :
    ∃ (early : Summary) (report : Report) (late : Summary) (after : Machine),
      machine.perform ((config.settings prompts).applyAll logger
          (before ++ entry :: later)) =
        (.ok (early ++ report :: late), after) ∧
      early.map Report.entry = before ∧ report.entry = entry ∧
      late.map Report.entry = later ∧
      (report.outcome ≠ .applied → ∃ after',
        machine.perform ((config.settings prompts).applyAll logger
            (before ++ later)) =
          (.ok (early ++ late), after') ∧
        after'.tree = after.tree) := by
  have hbounded : (config.settings prompts).locator.Bounded :=
    LineScan.locator_bounded
  obtain ⟨early, reached, hbefore, hearly⟩ :=
    Settings.steps_total hbounded machine.process machine.home
      machine.tree before
  obtain ⟨report, passed, hstep, hentry⟩ :=
    Settings.step_total hbounded machine.process machine.home reached entry
  obtain ⟨late, last, hlater, hlate⟩ :=
    Settings.steps_total hbounded machine.process machine.home passed later
  have hwhole :=
    Settings.steps_append hbefore (Settings.steps_cons hstep hlater)
  refine ⟨early, report, late, _,
    Settings.perform_applyAll logger hwhole, hearly, hentry, hlate,
    fun hunapplied => ?_⟩
  obtain ⟨hwf', hfree'⟩ := Settings.steps_keep hbounded hwf hfree hbefore
  have hpassed : passed = reached :=
    (Settings.step_keeps hbounded hwf' hfree' hstep).2.2 hunapplied
  rw [hpassed] at hlater
  refine ⟨_, Settings.perform_applyAll logger
    (Settings.steps_append hbefore hlater), ?_⟩
  rw [Machine.tree_logAll, Machine.tree_logAll]

section

/-- Has room for sixty bytes. -/
local instance crampedDevice : FileTree.Device :=
  { FileTree.Device.willing with
    write := fun _ content =>
      if 60 < content.length then some (60, .other "No space left".toList)
        else none }

def contestedFile : Machine :=
  .holding []
    [(["a.ts".toList],
        .file (Utf8.encode "const P = 1;\n".toList) FileTree.fileMode)]

def contestedSettings : Settings :=
  (Config.patching "/".toList ["P".toList]).settings
    (.ofList [("p".toList, "x".toList), ("q".toList, List.replicate 40 'x')])

def longEntry : ManifestEntry := ⟨"q".toList, "P".toList, "a.ts".toList⟩

def shortEntry : ManifestEntry := ⟨"p".toList, "P".toList, "a.ts".toList⟩

theorem applyAll_without_unapplied_cramped :
    contestedFile.tree.WellFormed ∧ contestedFile.tree.TemporaryFree 7 ∧
      ∃ (report : Report) (late : Summary) (after after' : Machine),
        contestedFile.perform (contestedSettings.applyAll .off
          ([] ++ longEntry :: [shortEntry])) = (.ok (report :: late), after) ∧
        report.outcome ≠ .applied ∧ late.map Report.outcome = [.applied] ∧
        contestedFile.perform (contestedSettings.applyAll .off
          ([] ++ [shortEntry])) = (.ok late, after') ∧
        after'.tree = after.tree := by
  have hwf : contestedFile.tree.WellFormed := by decide
  have hfree : contestedFile.tree.TemporaryFree 7 :=
    FileTree.temporaryFree_of_nodes (by decide)
  have hpresent : contestedFile.tree.present [] "/a.ts".toList = true := by cbv
  have htext : contestedFile.tree.readText [] "/a.ts".toList =
    .ok "const P = 1;\n".toList := by cbv
  let long : Edit :=
    ⟨List.replicate 40 'x', "/a.ts".toList, "const P = 1;\n".toList, ⟨0, 0⟩⟩
  let short : Edit :=
    ⟨"x".toList, "/a.ts".toList, "const P = 1;\n".toList, ⟨0, 0⟩⟩
  have hlong : contestedSettings.Plans [] contestedFile.tree longEntry long :=
    ⟨by rfl, by decide, by decide, by decide, by decide, rfl, hpresent,
      htext, by rfl⟩
  have hshort :
      contestedSettings.Plans [] contestedFile.tree shortEntry short :=
    ⟨by rfl, by decide, by decide, by decide, by decide, rfl, hpresent,
      htext, by rfl⟩
  have hfull : contestedFile.tree.replace 7 [] "/a.ts".toList
      (Utf8.encode (List.flatten ["const P = 1;\n".toList,
        "P = `xxxxxxxxxxxxxxxxxxxxxxxxxxxxxxxxxxxxxxxx`; ".toList ++
          "// Injected by patcher.py\n".toList])) =
      (.error ⟨"/.a.ts.7.tmp".toList, .other "No space left".toList⟩,
        contestedFile.tree) := by cbv
  have hfits : (contestedFile.tree.replace 7 [] "/a.ts".toList
      (Utf8.encode (List.flatten ["const P = 1;\n".toList,
        "P = `x`; // Injected by patcher.py\n".toList]))).1 = .ok () := by cbv
  have hfirst := hlong.step_of_refused
    (show long.lines? longEntry.variableName = .ok [_, _] from rfl) rfl hfull
  have hsecond := hshort.step_of_replaced
    (show short.lines? shortEntry.variableName = .ok [_, _] from rfl) rfl
    (Prod.ext hfits rfl)
  obtain ⟨early, report, late, after, hwhole, hearly, _, _, hwithout⟩ :=
    applyAll_without_unapplied (Config.patching "/".toList ["P".toList]) _ .off
      contestedFile hwf hfree [] longEntry [shortEntry]
  cases List.map_eq_nil_iff.mp hearly
  have hsteps : contestedSettings.steps contestedFile.process contestedFile.home
      contestedFile.tree [longEntry, shortEntry] = _ :=
    Settings.steps_cons hfirst (Settings.steps_cons hsecond rfl)
  cases hwhole.symm.trans (Settings.perform_applyAll .off hsteps)
  have hfailed (reason : Text) : Outcome.failed reason ≠ .applied := by
    intro heq
    cases heq
  obtain ⟨after', hperform, htree⟩ := hwithout (hfailed _)
  exact ⟨hwf, hfree, _, _, _, after', hwhole, hfailed _, rfl, hperform, htree⟩

end

end TextOverride
