import TextOverride.Proofs.Injection.Placement
import TextOverride.Proofs.Run.Outcome
import TextOverride.Proofs.Statement.Scan

namespace TextOverride

namespace LineScan

variable {content name : Text} {statement : Statement}

private theorem name_ne_nil_of_locate [LineScan.Patterns]
    (h : locate content.pieces name = .ok statement) : name ≠ [] := by
  obtain ⟨before, body, last, after, _, hfound, _⟩ := locate_eq_ok_iff.mp h
  exact hfound.name_ne_nil

private theorem exists_insert_of_locate [LineScan.Patterns]
    (h : locate content.pieces name = .ok statement) (value : Text) :
    ∃ lines line, Injection.insert? content.pieces statement.last name value =
      .ok lines ∧
      (Text.pieces lines.flatten)[statement.last + 1]? = some line ∧
      name ++ " = ".toList <+: line := by
  have hlt := locator_bounded.last_lt h
  obtain ⟨_, line, hline, hbegins⟩ :=
    Injection.pieces_insert_grows ⟨_, hlt⟩ (no_feed_of_locate h) value
  have hdelimiter : name ++ " = ".toList <+: name ++ " = `".toList :=
    (List.prefix_append_right_inj name).mpr ⟨['`'], rfl⟩
  exact ⟨_, line, Injection.insert?_eq_ok_iff.mpr ⟨hlt, rfl⟩, hline,
    hdelimiter.trans hbegins⟩

end LineScan

private theorem Settings.perform_applyAll_total [FileTree.Device] {s : Settings}
    (h : s.locator.Bounded) (logger : Log.Logger) (machine : Machine)
    (manifest : Manifest) :
    ∃ summary after, machine.perform (s.applyAll logger manifest) =
      (.ok summary, after) ∧
      summary.map Report.entry = manifest := by
  obtain ⟨summary, tree, hsteps, hentries⟩ :=
    Settings.steps_total h machine.process machine.home machine.tree manifest
  exact ⟨summary, _, Settings.perform_applyAll logger hsteps, hentries⟩

private theorem Config.perform_run_total [FileTree.Device] [LineScan.Patterns]
    (config : Config) (logger : Log.Logger) (machine : Machine) :
    ∃ result after, machine.perform (config.run logger) =
      (.ok result, after) := by
  rcases config.outcome_cases machine.process machine.home machine.tree with
    ⟨e, _, houtcome⟩ | ⟨_, _, summary, tree, _, _, _, houtcome⟩
  · obtain ⟨said, hrun⟩ := perform_run machine houtcome logger
    exact ⟨.error e, _, hrun⟩
  · obtain ⟨said, hrun⟩ := perform_run machine houtcome logger
    exact ⟨.ok summary, _, hrun⟩

/-- No run is refused, whatever the files, the prompts and the manifest are: not
with the scan of lines, and not with any other locator that ends statements
within the lines it is given. A name that the scan finds is not empty and stays
on one line, so every assignment begins with its name on a line of its own. -/
theorem applyAll_never_refused [FileTree.Device] [LineScan.Patterns] :
    (∀ (config : Config) (prompts : Prompts) (logger : Log.Logger)
      (machine : Machine)
        (manifest : Manifest), ∃ summary after,
      machine.perform ((config.settings prompts).applyAll logger manifest) =
        (.ok summary, after) ∧
        summary.map Report.entry = manifest) ∧
    (∀ (config : Config) (logger : Log.Logger) (machine : Machine),
      ∃ result after, machine.perform (config.run logger) =
        (.ok result, after)) ∧
    (∀ s : Settings,
      (∀ lines first last, s.locator.terminator? lines first = some last →
        last < lines.length) →
      ∀ (logger : Log.Logger) (machine : Machine) (manifest : Manifest),
        ∃ summary after,
        machine.perform (s.applyAll logger manifest) = (.ok summary, after) ∧
          summary.map Report.entry = manifest) ∧
    ∀ (content name : Text) (statement : Statement),
      LineScan.locate content.pieces name = .ok statement →
        name ≠ [] ∧ '\n' ∉ name ∧ ∀ value, ∃ lines line,
          Injection.insert? content.pieces statement.last name value =
            .ok lines ∧
            (Text.pieces lines.flatten)[statement.last + 1]? = some line ∧
            name ++ " = ".toList <+: line := by
  refine ⟨fun config prompts =>
    ?_, Config.perform_run_total, fun s hbounded => ?_,
    fun content name statement h => ?_⟩
  · exact Settings.perform_applyAll_total LineScan.locator_bounded
  · exact Settings.perform_applyAll_total fun {lines first last} =>
      hbounded lines first last
  · exact ⟨LineScan.name_ne_nil_of_locate h, LineScan.no_feed_of_locate h,
      LineScan.exists_insert_of_locate h⟩

/-- Takes all lines for one statement. -/
def wholeFile : Locator where
  declaration? lines _ := if lines = [] then none else some 0
  terminator? lines _ := if lines = [] then none else some (lines.length - 1)

def brokenFiles : Machine :=
  .holding []
    [(["a.ts".toList], .file [] FileTree.fileMode),
      (["b.ts".toList],
        .file (Utf8.encode "let P=`;".toList) FileTree.fileMode)]

def brokenSettings (locator : Locator) : Settings where
  prompts := .ofList [("p".toList, "\n".toList)]
  allow := .ofNames ["P".toList, "\n".toList]
  base := "/".toList
  dryRun := false
  locator := locator

def brokenManifest : Manifest :=
  [⟨"p".toList, "P".toList, "a.ts".toList⟩,
    ⟨"p".toList, "\n".toList, "b.ts".toList⟩]

theorem applyAll_never_refused_wholeFile :
    (∀ lines first last, wholeFile.terminator? lines first = some last →
      last < lines.length) ∧
      (∃ summary after, brokenFiles.perform
          ((brokenSettings wholeFile).applyAll .off brokenManifest) =
            (.ok summary, after) ∧
        summary.map Report.entry = brokenManifest) ∧
      LineScan.locate (Text.pieces "let P=`;".toList) "P".toList = .ok ⟨0, 0⟩ ∧
      ∃ lines line, Injection.insert? (Text.pieces "let P=`;".toList) 0
        "P".toList "\n".toList =
          .ok lines ∧ (Text.pieces lines.flatten)[1]? = some line ∧
          "P = ".toList <+: line := by
  have hbounded (lines : List Text) (first last : Nat)
      (h : wholeFile.terminator? lines first = some last) : last <
      lines.length := by
    simp only [wholeFile] at h
    split at h
    case isTrue => cases h
    case isFalse hne =>
      cases h
      exact Nat.sub_lt (List.length_pos_iff.mpr hne) Nat.one_pos
  have hlocate : LineScan.locate (Text.pieces "let P=`;".toList) "P".toList =
      .ok ⟨0, 0⟩ := rfl
  obtain ⟨_, _, hruns, hfound⟩ := applyAll_never_refused
  obtain ⟨_, _, hinsert⟩ := hfound "let P=`;".toList "P".toList ⟨0, 0⟩ hlocate
  exact ⟨hbounded, hruns (brokenSettings wholeFile) hbounded .off brokenFiles
    brokenManifest,
    hlocate, hinsert "\n".toList⟩

/-- A locator that points beyond the last line is found out. -/
example :
    (brokenFiles.perform ((brokenSettings (.fixed (some 0) (some 1))).applyAll
      .off
    brokenManifest)).1 = .error .anchorOutOfRange := by cbv

end TextOverride
