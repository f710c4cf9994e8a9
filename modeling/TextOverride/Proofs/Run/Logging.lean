import TextOverride.Proofs.Log.Framing
import TextOverride.Proofs.Manifest.Reading
import TextOverride.Proofs.Run.Outcome

namespace TextOverride

open Log

def countAt (level : Level) (records : List Record) : Nat :=
  records.countP (·.level = level)

private theorem length_eq_countAt (records : List Record) :
    records.length = countAt .info records + countAt .warn records +
      countAt .error records := by
  induction records with
  | nil => rfl
  | cons record rest ih =>
      obtain ⟨level, subsystem, action, message⟩ := record
      simp only [countAt, List.countP_cons, List.length_cons] at ih ⊢
      cases level <;> simp [ih] <;> omega

namespace Summary

theorem countP_eq_countAt {p : Outcome → Bool} {level : Level}
    (h : ∀ outcome : Outcome, p outcome = true ↔ outcome.level = level)
    (s : Summary) :
    s.countP (fun report => p report.outcome) =
      countAt level (s.map Report.record) := by
  rw [countAt, List.countP_map]
  exact List.countP_congr fun report _ =>
    (h report.outcome).trans decide_eq_true_iff.symm

theorem applied_eq (s : Summary) :
    s.applied = countAt .info (s.map Report.record) :=
  countP_eq_countAt
    (fun outcome =>
      by cases outcome <;> simp [Outcome.isApplied, Outcome.level]) s

theorem failed_eq (s : Summary) :
    s.failed = countAt .error (s.map Report.record) :=
  countP_eq_countAt
    (fun outcome => by cases outcome <;> simp [Outcome.isFailed, Outcome.level])
    s

/-- The subtraction that counts the skipped entries does not go below zero. -/
theorem counts_eq (s : Summary) :
    s.applied + s.failed ≤ s.length ∧
    s.skipped = countAt .warn (s.map Report.record) ∧
      s.applied + s.skipped + s.failed = s.length := by
  have hlength := length_eq_countAt (s.map Report.record)
  rw [List.length_map, ← applied_eq, ← failed_eq] at hlength
  rw [skipped]
  omega

end Summary

structure Log.Record.IsOf (record : Record)
    (subsystem action : String) : Prop where
  subsystem : record.subsystem = subsystem.toList
  action : record.action = action.toList

structure Report.ToldBy (report : Report) (record : Record) : Prop where
  subsystem : record.subsystem = "orchestrate".toList
  action : record.action = report.outcome.label
  info_iff : record.level = .info ↔ report.outcome = .applied
  error_iff : record.level = .error ↔ ∃ reason, report.outcome = .failed reason
  warn_iff : record.level = .warn ↔ ∃ why, report.outcome = .skipped why

private theorem Report.toldBy_record (report : Report) :
    report.ToldBy report.record := by
  obtain ⟨entry, outcome, target, insertedAt, written⟩ := report
  constructor
  · rfl
  · rfl
  all_goals cases outcome <;> simp [record, Outcome.level]

/-- There is a record for each report, and a last one that counts them. -/
structure Summary.ToldBy (summary : Summary) (told : List Record)
    (last : Record) : Prop where
  reports : List.Forall₂ Report.ToldBy summary told
  finished : last.IsOf "orchestrate" "finished"
  message : last.message =
    Text.ofNat summary.applied ++ " applied, ".toList ++
    Text.ofNat summary.skipped ++
      " skipped, ".toList ++ Text.ofNat summary.failed ++ " failed".toList
  applied : summary.applied = countAt .info told
  skipped : summary.skipped = countAt .warn told
  failed : summary.failed = countAt .error told
  sum : summary.applied + summary.skipped + summary.failed = summary.length
  applied_add_failed_le : summary.applied + summary.failed ≤ summary.length

private theorem Summary.toldBy_records (summary : Summary) :
    summary.ToldBy (summary.map Report.record)
      (Config.finishedRecord summary) := by
  obtain ⟨hle, hskipped, hsum⟩ := summary.counts_eq
  refine ⟨?_, ⟨rfl, rfl⟩, rfl, summary.applied_eq, hskipped, summary.failed_eq,
    hsum, hle⟩
  rw [List.forall₂_map_right_iff, List.forall₂_same]
  exact fun report _ => report.toldBy_record

/-! The loading. -/

def ErrorCode.area : ErrorCode → ErrorArea
  | .configNotFound | .configReadFailed => .config
  | .parseFailed => .parse
  | .manifestNotFound | .manifestReadFailed | .manifestInvalid => .manifest
  | .fileReadFailed | .fileWriteFailed => .file
  | .validationFailed => .validation

private theorem Error.area_report (e : Error) :
    e.report.area = e.code.area := by
  cases e with
  | badAllowList flaw => cases flaw <;> rfl
  | manifestUnreadable path flaw => cases flaw <;> rfl
  | fileUnreadable path flaw => cases flaw <;> rfl
  | _ => rfl

private theorem FirstUnmet.exists_code {code : ErrorCode}
    {demands : List Demand} (h : FirstUnmet code demands) :
    ∃ demand ∈ demands, demand.code = code := by
  induction h with
  | here _ hcode => exact ⟨_, List.mem_cons_self, hcode⟩
  | there _ _ ih =>
      obtain ⟨demand, hmem, hcode⟩ := ih
      exact ⟨demand, List.mem_cons_of_mem _ hmem, hcode⟩

private theorem Checked.area {α : Type} {demands : List Demand}
    {result : Except Error α} {e : Error} (h : Checked demands result)
    (he : result = .error e) {p : ErrorArea → Prop}
    (hall : ∀ demand ∈ demands, p demand.code.area) : p e.report.area := by
  subst he
  obtain ⟨demand, hmem, hcode⟩ := h.firstUnmet.exists_code
  rw [e.area_report, ← hcode]
  exact hall demand hmem

namespace Config

variable {config : Config} {t : FileTree} {home : Place}

private theorem openingRecords_of_ok {prompts : Prompts} {manifest : Manifest}
    (h : config.load t home = .ok (prompts, manifest)) :
    config.openingRecords t home =
      [config.parsedRecord prompts, config.loadedRecord manifest] := by
  obtain ⟨_, hcheck, hlater⟩ := exists_of_bind_eq_ok h
  obtain ⟨_, hprompts, hlast⟩ := exists_of_bind_eq_ok hlater
  obtain ⟨_, hmanifest, hpair⟩ := exists_of_bind_eq_ok hlast
  cases hpair
  simp only [openingRecords, hcheck, hprompts, hmanifest]

/-- Where the loading stops, the area of the error tells how far it got. -/
theorem openingRecords_of_error {e : Error}
    (h : config.load t home = .error e) :
    if e.report.area = .manifest then
      ∃ prompts, config.openingRecords t home = [config.parsedRecord prompts]
    else config.openingRecords t home = [] := by
  rw [load] at h
  cases hcheck : config.checkIn t home with
  | error stop =>
      rw [hcheck] at h
      cases h
      have harea : e.report.area ≠ .manifest :=
        (config.checked_checkIn t home).area (p := (· ≠ .manifest)) hcheck
          (by simp [checkDemands, ErrorCode.area])
      rw [if_neg harea]
      simp only [openingRecords, hcheck]
  | ok =>
      cases hprompts : t.loadPrompts home config.prompts with
      | error stop =>
          rw [hcheck, hprompts] at h
          cases h
          have harea : e.report.area ≠ .manifest :=
            (t.checked_loadPrompts home config.prompts).area
              (p := (· ≠ .manifest)) hprompts
              (by simp [FileTree.promptDemands, ErrorCode.area])
          rw [if_neg harea]
          simp only [openingRecords, hcheck, hprompts]
      | ok prompts =>
          cases hmanifest : t.loadManifest home config.manifestPath with
          | error stop =>
              rw [hcheck, hprompts, hmanifest] at h
              cases h
              have harea : e.report.area = .manifest :=
                (t.checked_loadManifest home config.manifestPath).area
                  (p := (· = .manifest))
                  hmanifest (by simp [FileTree.manifestDemands, ErrorCode.area])
              rw [if_pos harea]
              exact ⟨prompts, by
                simp only [openingRecords, hcheck, hprompts, hmanifest]⟩
          | ok manifest =>
              rw [hcheck, hprompts, hmanifest] at h
              cases h

end Config

private theorem Machine.text_logEach {logger : Logger}
    (h : logger.sink = .buffer) (machine : Machine) (records : List Record) :
    (machine.logEach logger records).text .buffer = machine.text .buffer ++
      Text.unlines (callLines logger.id (records.map (machine.clock, ·))) := by
  induction records generalizing machine with
  | nil => exact (List.append_nil _).symm
  | cons record rest ih =>
      rw [logEach_cons, ih, clock_log, text, lines_log h, Text.unlines_append,
        List.append_assoc, ← Text.unlines_append]
      rfl

/-- The log of a run is one line for each record, and goes with the result. -/
theorem run_logs_result [FileTree.Device] [LineScan.Patterns] (config : Config)
    (logger : Logger) (h : logger.sink = .buffer) (machine : Machine) :
    ∃ result after added records,
      machine.perform (config.run logger) = (.ok result, after) ∧
      after.text .buffer = machine.text .buffer ++ added ∧
      IsLog logger.id (records.map (machine.clock, ·)) added ∧
      match result with
      | .ok summary => ∃ parsed loaded told finished,
          records = parsed :: loaded :: told ++ [finished] ∧
          records.length = summary.length + 3 ∧ parsed.IsOf "blocks" "parsed" ∧
          loaded.IsOf "manifest" "loaded" ∧ summary.ToldBy told finished
      | .error e =>
          if e.report.area = .manifest then
            ∃ parsed, records = [parsed] ∧ parsed.IsOf "blocks" "parsed"
          else records = [] := by
  have hlogged {result : Except Error Summary} {tree : FileTree}
      (houtcome : config.outcome machine.process machine.home machine.tree =
        .ok (result, tree)) :=
    Config.perform_run_logged machine houtcome logger
  rcases config.outcome_cases machine.process machine.home machine.tree with
    ⟨e, hload, houtcome⟩
      | ⟨prompts, manifest, summary, after, hload, _, _, houtcome⟩
  · refine ⟨.error e, _, _, _, hlogged houtcome, Machine.text_logEach h _ _,
      isLog_callLines _ _, ?_⟩
    have hopened := Config.openingRecords_of_error hload
    rw [Config.closingRecords, List.append_nil]
    simp only
    split
    case isTrue harea =>
      rw [if_pos harea] at hopened
      obtain ⟨prompts, hopened⟩ := hopened
      exact ⟨_, hopened, rfl, rfl⟩
    case isFalse harea => rwa [if_neg harea] at hopened
  · refine ⟨.ok summary, _, _, _, hlogged houtcome, Machine.text_logEach h _ _,
      isLog_callLines _ _, ?_⟩
    rw [Config.openingRecords_of_ok hload, Config.closingRecords]
    refine ⟨_, _, _, _, rfl, ?_, ⟨rfl, rfl⟩, ⟨rfl, rfl⟩, summary.toldBy_records⟩
    simp

def keylessFiles (manifest : Utf8.Bytes) : Machine :=
  { Machine.holding [] [(["p".toList], .file [] FileTree.fileMode),
      (["m".toList], .file manifest FileTree.fileMode)] with
    clock := "noon".toList }

def keylessRun : Config where
  prompts := "/p".toList
  manifest := some "/m".toList
  base := "/".toList
  allow := .ofNames ["P".toList]
  dryRun := true

private theorem load_keylessFiles {text : Text} {manifest : Manifest}
    (h : Manifest.read text = .ok manifest) :
    keylessRun.load (keylessFiles (Utf8.encode text)).tree [] =
      .ok (Prompts.parse [], manifest) := by
  -- The evaluations are for any content of the manifest file, which they do not
  -- look into.
  generalize hbytes : Utf8.encode text = bytes
  have hcheck :
      keylessRun.checkIn (keylessFiles bytes).tree [] = .ok () := by cbv
  have hprompts : (keylessFiles bytes).tree.loadPrompts [] keylessRun.prompts =
      .ok (Prompts.parse []) := by cbv
  have hpresent : (keylessFiles bytes).tree.present [] keylessRun.manifestPath =
      true := by cbv
  have hread : (keylessFiles bytes).tree.read [] keylessRun.manifestPath =
      .ok bytes := by cbv
  exact Config.load_eq_ok hcheck hprompts hpresent (hbytes ▸ hread) h

def forgingManifest : Manifest :=
  [⟨"\n\x7b\"action\":\"finished\"\x7d\n".toList, "\\".toList, "\r".toList⟩]

theorem run_logs_result_forging :
    bufferLogger.sink = .buffer ∧
      ∃ (after : Machine) (records : List Record) (report : Report),
        (keylessFiles (Utf8.encode forgingManifest.document.write)).perform
          (keylessRun.run bufferLogger) = (.ok (.ok [report]), after) ∧
        IsLog 7 (records.map ("noon".toList, ·)) (after.text .buffer) ∧
        records.length = 4 := by
  have hread :
      Manifest.read forgingManifest.document.write = .ok forgingManifest :=
    Json.toOption_eq_some_iff.mp ((Manifest.read_write _).trans rfl)
  generalize hfiles : keylessFiles
    (Utf8.encode forgingManifest.document.write) = files
  have hload : keylessRun.load files.tree files.home =
      .ok (Prompts.parse [], forgingManifest) :=
    hfiles ▸ load_keylessFiles hread
  obtain ⟨result, after, added, records, hrun, htext, hlog, hresult⟩ :=
    run_logs_result keylessRun bufferLogger rfl files
  rcases keylessRun.outcome_cases files.process files.home files.tree with
    ⟨e, hstop, _⟩ | ⟨_, _, summary, tree, hpassed, _, hentries, houtcome⟩
  · cases hstop.symm.trans hload
  · cases hpassed.symm.trans hload
    cases hrun.symm.trans
      (Config.perform_run_logged files houtcome bufferLogger)
    obtain ⟨report, rfl⟩ := List.length_eq_one_iff.mp
      ((List.length_map Report.entry).symm.trans
        (congrArg List.length hentries))
    obtain ⟨_, _, _, _, _, hlength, _⟩ := hresult
    subst hfiles
    exact ⟨rfl, _, records, report, hrun, htext ▸ hlog, hlength⟩

end TextOverride
