import Mathlib
import TextOverride.Proofs.Injection.Placement
import TextOverride.Proofs.Run.Verdict
import TextOverride.Proofs.Statement.Scan

namespace TextOverride

/-- The new lines are those of the assignment, where the report says. -/
theorem Settings.Plans.lines_grow [LineScan.Patterns] {config : Config}
    {prompts : Prompts} {home : Place} {t : FileTree} {entry : ManifestEntry}
    {edit : Edit} {lines : List Text}
    (h : (config.settings prompts).Plans home t entry edit)
    (hlines : edit.lines? entry.variableName = .ok lines) :
    (Text.pieces lines.flatten).length =
        edit.content.pieces.length + (1 + edit.value.count '\n') ∧
      ∃ line, (Text.pieces lines.flatten)[edit.statement.last + 1]? =
        some line ∧
        entry.variableName ++ " = `".toList <+: line := by
  obtain ⟨hlt, rfl⟩ := Injection.insert?_eq_ok_iff.mp hlines
  exact Injection.pieces_insert_grows ⟨_, hlt⟩
    (LineScan.no_feed_of_locate h.statement) edit.value

/-- A real run carries an entry out exactly if its value, its name, its target,
the text there, the statement and the replacement of the file all allow it. The
report then points at the assignment in the new text, and no other file changes.
Otherwise nothing does. -/
theorem applyEntry_all_or_nothing [FileTree.Device] [LineScan.Patterns]
    (config : Config) (hreal : config.dryRun = false) (prompts : Prompts)
    (machine : Machine) (entry : ManifestEntry)
    (hready : (config.settings prompts).Ready machine.process machine.tree
      machine.home entry) :
    ∃ report after,
      machine.perform ((config.settings prompts).applyEntry entry) =
        (.ok report, after) ∧
      report.entry = entry ∧
      (report.outcome = .applied ↔
        ∃ edit, (config.settings prompts).Makes machine.process
        machine.home machine.tree entry edit) ∧
      (∀ edit, (config.settings prompts).Makes machine.process machine.home
        machine.tree entry edit →
        report.written = true ∧ report.insertedAt =
          some (edit.statement.last + 1) ∧
        ∃ lines place mode, edit.lines? entry.variableName = .ok lines ∧
          machine.tree.place? machine.home edit.target = some place ∧
          machine.tree.node? place =
            some (.file (Utf8.encode edit.content) mode) ∧
          after.tree.node? place =
            some (.file (Utf8.encode lines.flatten) mode) ∧
          (∀ other, other ≠ place →
            after.tree.node? other = machine.tree.node? other) ∧
          (Text.pieces lines.flatten).length =
            edit.content.pieces.length + (1 + edit.value.count '\n') ∧
          ∃ line, (Text.pieces lines.flatten)[edit.statement.last + 1]? =
            some line ∧
            entry.variableName ++ " = `".toList <+: line) ∧
      (report.outcome ≠ .applied →
        after = machine ∧ report.written = false ∧
        report.insertedAt = none) := by
  obtain ⟨report, change, hverdict, hsteps⟩ :=
    Settings.exists_verdict LineScan.locator_bounded hready
  have hstep := hsteps machine.tree (.refl _ machine.home entry machine.tree)
  refine ⟨report, { machine with tree := machine.tree.apply change }, ?_, ?_⟩
  · rw [Settings.perform_applyEntry, hstep]
  cases hverdict with
  | @stopped outcome target houtcome =>
      have hstopped : outcome ≠ .applied := by
        rintro rfl
        cases houtcome
      have hnone (edit : Edit) :
          ¬ (config.settings prompts).Makes machine.process machine.home
          machine.tree entry edit := by
        intro hmakes
        obtain ⟨lines, hlines⟩ := hmakes.exists_lines LineScan.locator_bounded
        obtain ⟨after, hmade⟩ := hmakes.exists_step hlines
        rw [hstep] at hmade
        cases hmade
      exact ⟨rfl, iff_of_false hstopped fun ⟨edit, hmakes⟩ => hnone edit hmakes,
        fun edit hmakes => absurd hmakes (hnone edit), fun _ => ⟨rfl, rfl, rfl⟩⟩
  | @made edit lines place mode hmakes hlines hplace hfile =>
      refine ⟨rfl, iff_of_true rfl ⟨edit, hmakes⟩, ?_, fun h => absurd rfl h⟩
      intro edit' hmakes'
      cases hmakes.toPlans.unique hmakes'.toPlans
      have hdry : (config.settings prompts).dryRun = false := hreal
      rw [hdry, if_neg Bool.false_ne_true]
      have hnode (other : Place) := FileTree.node?_set_file hfile
        (.file (Utf8.encode lines.flatten) mode) other
      exact ⟨rfl, rfl, lines, place, mode, hlines, hplace, hfile,
        (hnode place).trans (if_pos rfl), fun other hother =>
          (hnode other).trans (if_neg hother), hmakes.lines_grow hlines⟩

def unterminatedFile : Machine :=
  .holding []
    [(["a.ts".toList],
        .file (Utf8.encode "const P = 1;".toList) FileTree.fileMode),
      (["b.ts".toList], .link "a.ts".toList)]

def unterminatedSettings : Settings :=
  (Config.patching "/".toList ["P".toList]).settings
    (.ofList [("p".toList, "x\ny".toList)])

def linkedEntry : ManifestEntry := ⟨"p".toList, "P".toList, "b.ts".toList⟩

theorem applyEntry_all_or_nothing_unterminated :
    unterminatedSettings.Ready 7 unterminatedFile.tree [] linkedEntry ∧
      ∃ report after,
        unterminatedFile.perform (unterminatedSettings.applyEntry linkedEntry) =
          (.ok report, after) ∧
        report.outcome = .applied ∧ report.insertedAt = some 1 ∧
        after.tree.node? ["a.ts".toList] =
          some (.file (Utf8.encode
            "const P = 1;\nP = `x\ny`; // Injected by patcher.py".toList)
            FileTree.fileMode) ∧
        after.tree.node? ["b.ts".toList] = some (.link "a.ts".toList) := by
  have hwf : unterminatedFile.tree.WellFormed := by decide
  have hfree : unterminatedFile.tree.TemporaryFree 7 :=
    FileTree.temporaryFree_of_nodes (by decide)
  have hcanonical : unterminatedFile.tree.canonical? [] "/b.ts".toList =
    some "/a.ts".toList := by cbv
  have hfollows :
      unterminatedSettings.Follows unterminatedFile.tree [] linkedEntry :=
    Settings.follows_of_canonical rfl hcanonical
  have hready := hfollows.ready hwf hfree
  let edit : Edit :=
    ⟨"x\ny".toList, "/b.ts".toList, "const P = 1;".toList, ⟨0, 0⟩⟩
  have hlines : edit.lines? "P".toList =
      .ok ["const P = 1;\n".toList,
        "P = `x\ny`; // Injected by patcher.py".toList] := rfl
  have hmakes : unterminatedSettings.Makes 7 [] unterminatedFile.tree
      linkedEntry edit := by
    refine ⟨⟨by rfl, by decide, by decide, by decide, by decide, by rfl, by cbv,
      by cbv, by rfl⟩, ?_⟩
    intro _ lines h
    cases hlines.symm.trans h
    cbv
  obtain ⟨report, after, hperform, _, houtcome, hmade, _⟩ :=
    applyEntry_all_or_nothing (Config.patching "/".toList ["P".toList]) rfl _
      unterminatedFile linkedEntry hready
  obtain ⟨_, hinserted, lines, place, mode, hlines', hplace, hold, hnew,
      hother, _⟩ :=
    hmade edit hmakes
  have hlink : unterminatedFile.tree.place? [] "/b.ts".toList =
      some ["a.ts".toList] := by cbv
  cases hlines.symm.trans hlines'
  cases hlink.symm.trans hplace
  cases hold
  exact ⟨hready, report, after, hperform, houtcome.mpr ⟨edit, hmakes⟩,
    hinserted, hnew, hother ["b.ts".toList] (by decide)⟩

end TextOverride
