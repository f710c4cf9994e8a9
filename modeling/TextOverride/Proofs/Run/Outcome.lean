import Mathlib
import TextOverride.CommandLine
import TextOverride.Proofs.Run.Loading

namespace TextOverride

namespace Machine

private theorem exists_say [FileTree.Device] (channel : Channel)
    (lines : List Text) (machine : Machine) :
    ∃ said, Id.run
        ((CommandLine.say channel lines : StateM Machine Unit).run machine) =
      ((), { machine with said }) := by
  induction lines generalizing machine with
  | nil => exact ⟨machine.said, rfl⟩
  | cons line lines ih => exact ih (machine.say channel line)

end Machine

namespace Config

def outcome [FileTree.Device] [LineScan.Patterns] (config : Config)
    (process : Nat) (home : Place) (t : FileTree) :
    Except Misuse (Except Error Summary × FileTree) :=
  match config.load t home with
  | .error e => .ok (.error e, t)
  | .ok (prompts, manifest) => do
      let (summary, after) ← (config.settings prompts).steps process home t
        manifest
      return (.ok summary, after)

variable {config : Config} {process : Nat} {home : Place} {t : FileTree}

/-- The loading of a run is refused, or every entry has its report. -/
theorem outcome_cases [FileTree.Device] [LineScan.Patterns] (config : Config)
    (process : Nat) (home : Place) (t : FileTree) :
    (∃ e, config.load t home = .error e ∧
      config.outcome process home t = .ok (.error e, t)) ∨
      ∃ prompts manifest summary after,
        config.load t home = .ok (prompts, manifest) ∧
        (config.settings prompts).steps process home t manifest =
          .ok (summary, after) ∧
        summary.map Report.entry = manifest ∧
        config.outcome process home t = .ok (.ok summary, after) := by
  rw [outcome]
  cases config.load t home with
  | error e => exact .inl ⟨e, rfl, rfl⟩
  | ok loaded =>
      obtain ⟨prompts, manifest⟩ := loaded
      have hbounded : (config.settings prompts).locator.Bounded :=
        LineScan.locator_bounded
      obtain ⟨summary, after, hsteps, hentries⟩ :=
        Settings.steps_total hbounded process home t manifest
      refine .inr ⟨prompts, manifest, summary, after, rfl, hsteps, hentries, ?_⟩
      simp only [hsteps]
      rfl

def openingRecords (config : Config) (t : FileTree) (home : Place) :
    List Log.Record :=
  match config.checkIn t home, t.loadPrompts home config.prompts,
    t.loadManifest home config.manifestPath with
  | .ok (), .ok prompts, .ok manifest =>
      [config.parsedRecord prompts, config.loadedRecord manifest]
  | .ok (), .ok prompts, .error _ => [config.parsedRecord prompts]
  | _, _, _ => []

def closingRecords : Except Error Summary → List Log.Record
  | .error _ => []
  | .ok summary => summary.map Report.record ++ [finishedRecord summary]

private theorem perform_run_eq [FileTree.Device] [LineScan.Patterns]
    (config : Config) (logger : Log.Logger) (machine : Machine) :
    let opened :=
  machine.logEach logger (config.openingRecords machine.tree machine.home)
    machine.perform (config.run logger) =
      match config.load machine.tree machine.home with
      | .error e => (.ok (.error e), opened)
      | .ok (prompts, manifest) =>
          opened.perform (do
            let summary ← (config.settings prompts).applyAll logger manifest
            (logger.write (finishedRecord summary) : StateM Machine Unit)
            return .ok summary) := by
  intro opened
  subst opened
  rw [run, Machine.perform_lift_bind (run_check config machine), load,
    openingRecords]
  cases config.checkIn machine.tree machine.home with
  | error e => rfl
  | ok =>
      simp only
      rw [Machine.perform_lift_bind (run_loadPrompts config.prompts machine)]
      cases machine.tree.loadPrompts machine.home config.prompts with
      | error e => rfl
      | ok prompts =>
          simp only
          rw [Machine.perform_lift_bind (Machine.run_write logger _ machine),
            Machine.perform_lift_bind (run_loadManifest config.manifestPath _),
            Machine.tree_log,
            Machine.home_log]
          cases machine.tree.loadManifest machine.home config.manifestPath with
          | error e => rfl
          | ok manifest =>
              simp only
              rw [Machine.perform_lift_bind (Machine.run_write logger _ _)]
              rfl

theorem perform_run_logged [FileTree.Device] [LineScan.Patterns]
    (machine : Machine) {result : Except Error Summary} {tree : FileTree}
    (h : config.outcome machine.process machine.home machine.tree =
      .ok (result, tree)) (logger : Log.Logger) :
    machine.perform (config.run logger) =
      (.ok result, { machine with tree }.logEach logger
        (config.openingRecords machine.tree machine.home ++
          closingRecords result)) := by
  have hrun := config.perform_run_eq logger machine
  rcases config.outcome_cases machine.process machine.home machine.tree with
    ⟨e, hload, houtcome⟩
      | ⟨prompts, manifest, summary, after, hload, hsteps, _, houtcome⟩
  · cases houtcome.symm.trans h
    rw [hload] at hrun
    rw [hrun, closingRecords, List.append_nil]
  · cases houtcome.symm.trans h
    obtain ⟨said, hopened⟩ := machine.exists_logEach logger
      (config.openingRecords machine.tree machine.home)
    have hafter :
        { machine with said, tree } = { machine with tree }.logEach logger
        (config.openingRecords machine.tree machine.home) := by
      rw [← machine.logEach_with_tree logger _ tree, hopened]
    have hentries :
        { machine with said }.perform
        ((config.settings prompts).applyAll logger manifest) =
          (.ok summary, { machine with said, tree }.logAll logger summary) :=
      Settings.perform_applyAll logger hsteps
    simp only [hload] at hrun
    rw [hrun, hopened, Machine.perform_bind, hentries]
    simp only
    rw [Machine.perform_lift_bind (Machine.run_write logger _ _), hafter,
      Machine.logAll_eq_logEach, closingRecords, Machine.logEach_append,
      Machine.logEach_append]
    rfl

theorem perform_run [FileTree.Device] [LineScan.Patterns] (machine : Machine)
    {result : Except Error Summary} {tree : FileTree}
    (h : config.outcome machine.process machine.home machine.tree =
      .ok (result, tree)) (logger : Log.Logger) :
    ∃ said, machine.perform (config.run logger) =
      (.ok result, { machine with tree, said }) := by
  obtain ⟨said, hsaid⟩ := { machine with tree }.exists_logEach logger
    (config.openingRecords machine.tree machine.home ++ closingRecords result)
  exact ⟨said, by rw [perform_run_logged machine h logger, hsaid]⟩

end Config

namespace CommandLine

theorem exists_runConfig [FileTree.Device] [LineScan.Patterns] {config : Config}
    {machine : Machine} {result : Except Error Summary} {tree : FileTree}
    (h : config.outcome machine.process machine.home machine.tree =
      .ok (result, tree))
    (logJson : Bool) :
    ∃ said,
      Id.run ((runConfig config logJson : StateM Machine Nat).run machine) =
      (if result.isOk then 0 else 1, { machine with tree, said }) := by
  obtain ⟨opened, hopened⟩ :=
    Machine.exists_say .out (openingLines config) machine
  rw [runConfig, Machine.run_bind (Machine.run_requestId machine),
    Machine.run_bind hopened]
  obtain ⟨ran, hran⟩ := Config.perform_run { machine with said := opened } h
    (if logJson then ⟨max 1 machine.request, .standard, by omega⟩ else .off)
  rw [Machine.run_bind hran]
  cases result with
  | error e =>
      obtain ⟨said, hsaid⟩ :=
        Machine.exists_say .err (abortLines e)
          { machine with tree, said := ran }
      rw [Machine.run_bind hsaid]
      exact ⟨said, rfl⟩
  | ok summary =>
      obtain ⟨said, hsaid⟩ :=
        Machine.exists_say .out (closingLines config.dryRun summary)
          { machine with tree, said := ran }
      rw [Machine.run_bind hsaid]
      exact ⟨said, rfl⟩

private theorem exists_execute [FileTree.Device] [LineScan.Patterns]
    {arguments : List Text} {config : Config} {logJson : Bool}
    {machine : Machine} {result : Except Error Summary} {tree : FileTree}
    (hparse : parse arguments = .ok (.run config logJson))
    (h : config.outcome machine.process machine.home machine.tree =
      .ok (result, tree)) :
    ∃ said, Id.run ((execute arguments : StateM Machine Nat).run machine) =
      (if result.isOk then 0 else 1, { machine with tree, said }) := by
  rw [execute, hparse]
  exact exists_runConfig h logJson

end CommandLine

/-- A run has an error exactly if something it asks for before the first entry
is missing. The error then has the code of the first such demand, and the tree
is as it was. Otherwise every entry of the manifest has one report, in order.
The exit code says which of the two it was. -/
theorem run_fails_at_first_unmet [FileTree.Device] [LineScan.Patterns]
    (config : Config) (machine : Machine) :
    ∃ result tree,
      (∀ logger, ∃ said,
        machine.perform (config.run logger) =
          (.ok result, { machine with tree, said })) ∧
      (∀ arguments logJson, CommandLine.parse arguments =
        .ok (.run config logJson) →
        ∃ said, Id.run
            ((CommandLine.execute arguments : StateM Machine Nat).run machine) =
          (if result.isOk then 0 else 1, { machine with tree, said })) ∧
      ((∃ e, result = .error e) ↔
        ∃ demand ∈ config.demands machine.tree machine.home, ¬ demand.holds) ∧
      (∀ e, result = .error e →
        FirstUnmet e.code (config.demands machine.tree machine.home) ∧
        tree = machine.tree) ∧
      ∀ summary, result = .ok summary → ∃ text manifest,
        machine.tree.read machine.home config.manifestPath =
          .ok (Utf8.encode text) ∧
          Manifest.read text = .ok manifest ∧
          summary.map Report.entry = manifest := by
  have hchecked := config.checked_load machine.tree machine.home
  rcases config.outcome_cases machine.process machine.home machine.tree with
    ⟨e, hload, houtcome⟩
      | ⟨prompts, manifest, summary, after, hload, _, hentries, houtcome⟩
  · rw [hload] at hchecked
    refine ⟨.error e, machine.tree, Config.perform_run machine houtcome,
      fun _ _ hparse => CommandLine.exists_execute hparse houtcome,
      iff_of_true ⟨e, rfl⟩ hchecked.firstUnmet.exists_unmet, ?_, nofun⟩
    rintro _ ⟨⟩
    exact ⟨hchecked.firstUnmet, rfl⟩
  · rw [hload] at hchecked
    refine ⟨.ok summary, after, Config.perform_run machine houtcome,
      fun _ _ hparse => CommandLine.exists_execute hparse houtcome,
      iff_of_false nofun ?_, nofun, ?_⟩
    · rintro ⟨demand, hmem, hunmet⟩
      exact hunmet (hchecked.holds demand hmem)
    · rintro _ ⟨⟩
      obtain ⟨text, hread, hmanifest⟩ :=
        FileTree.exists_of_loadManifest (Config.loadManifest_of_load hload)
      exact ⟨text, manifest, hread, hmanifest, hentries⟩

/-- There is no prompt file, and the manifest is no list. -/
def promptless : Machine :=
  .holding []
    [(["patch_config.json".toList],
      .file (Utf8.encode "\x7b not json".toList) FileTree.fileMode)]

def promptlessRun : Config where
  prompts := "p.txt".toList
  manifest := none
  base := ".".toList
  allow := .standard
  dryRun := false

theorem run_fails_at_first_unmet_promptless :
    CommandLine.parse ["p.txt".toList] = .ok (.run promptlessRun false) ∧
      (∃ e said, promptless.perform (promptlessRun.run .off) =
        (.ok (.error e), { promptless with said }) ∧ e.code = .configNotFound) ∧
      ∃ said, Id.run
          ((CommandLine.execute ["p.txt".toList] : StateM Machine Nat).run
            promptless) =
        (1, { promptless with said }) := by
  have hparse : CommandLine.parse ["p.txt".toList] =
      .ok (.run promptlessRun false) := by rfl
  have habsent : promptless.tree.present promptless.home promptlessRun.prompts =
      false := by cbv
  have hfirst : FirstUnmet .configNotFound
      (promptlessRun.demands promptless.tree promptless.home) :=
    .there (by decide) (.there (by cbv) (.there (by decide)
      (.here (ne_true_of_eq_false habsent) rfl)))
  obtain ⟨result, tree, hrun, hexecute, hfails, hcode, _⟩ :=
    run_fails_at_first_unmet promptlessRun promptless
  obtain ⟨e, rfl⟩ := hfails.mpr hfirst.exists_unmet
  obtain ⟨hunmet, rfl⟩ := hcode e rfl
  obtain ⟨said, hsaid⟩ := hrun .off
  exact ⟨hparse, ⟨e, said, hsaid, hunmet.unique hfirst⟩,
    hexecute _ false hparse⟩

end TextOverride
