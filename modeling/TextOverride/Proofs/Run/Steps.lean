import TextOverride.Proofs.Run.Machine
import TextOverride.Proofs.Statement
import TextOverride.Proofs.Text.Utf8

namespace TextOverride

theorem exists_of_bind_eq_ok {ε α β : Type} {result : Except ε α}
    {next : α → Except ε β} {b : β} (h : result >>= next = .ok b) :
    ∃ a, result = .ok a ∧ next a = .ok b := by
  cases result with
  | error e => cases h
  | ok a => exact ⟨a, rfl, h⟩

def FileTree.readText (t : FileTree) (home : Place) (path : Path) :
    Except TextFlaw Text :=
  match t.read home path with
  | .error e => .error (.unreadable e)
  | .ok bytes =>
      match Utf8.decode bytes with
      | .error _ => .error .notUtf8
      | .ok text => .ok text

theorem run_readText [FileTree.Device] (path : Path) (machine : Machine) :
    Id.run ((readText path : StateM Machine _).run machine) =
      (machine.tree.readText machine.home path, machine) := by
  rw [readText, FileTree.readText]
  change Id.run (StateT.run (match machine.tree.read machine.home path with
    | .error e => _
    | .ok bytes => _) machine) = _
  cases machine.tree.read machine.home path with
  | error e => rfl
  | ok bytes =>
      simp only
      cases Utf8.decode bytes with
      | error fault => rfl
      | ok text => rfl

theorem FileTree.readText_eq_ok_iff {t : FileTree} {home : Place} {path : Path}
    {text : Text} :
    t.readText home path = .ok text ↔
      t.read home path = .ok (Utf8.encode text) := by
  rw [readText]
  constructor
  · intro h
    split at h
    case h_1 => cases h
    case h_2 bytes hread =>
      split at h
      case h_1 => cases h
      case h_2 decoded hdecode =>
        cases h
        rw [hread, Utf8.encode_of_decode hdecode]
  · intro h
    simp only [h, Utf8.decode_encode]

private theorem FileTree.exists_of_read {t : FileTree} {home : Place}
    {path : Path} {bytes : Utf8.Bytes} (h : t.read home path = .ok bytes) :
    ∃ place mode, t.place? home path = some place ∧
      t.node? place = some (.file bytes mode) := by
  rw [read] at h
  split at h
  case h_1 => cases h
  case h_2 => cases h
  case h_3 place hresolve =>
    split at h
    case h_1 => cases h
    case h_2 node hnode =>
      cases node with
      | file content mode =>
          rw [Node.content] at h
          split at h
          case isTrue =>
            cases h
            exact ⟨place, mode, place?_eq_some_iff.mpr hresolve, hnode⟩
          case isFalse => cases h
      | directory mode => cases h
      | link target => cases h

theorem FileTree.exists_of_readText {t : FileTree} {home : Place} {path : Path}
    {text : Text} (h : t.readText home path = .ok text) :
    ∃ name directory mode, t.place? home path = some (name :: directory) ∧
      t.node? (name :: directory) = some (.file (Utf8.encode text) mode) := by
  obtain ⟨place, mode, hplace, hnode⟩ :=
    exists_of_read (readText_eq_ok_iff.mp h)
  cases place with
  | nil => cases hnode
  | cons name directory => exact ⟨name, directory, mode, hplace, hnode⟩

namespace Settings

variable {s : Settings} {entry : ManifestEntry}

theorem screen_error {report : Report} (h : s.screen entry = .error report) :
    ∃ outcome : Outcome, report = .untouched entry outcome none ∧
      outcome.isApplied = false := by
  rw [screen] at h
  split at h
  case h_1 =>
    cases h
    exact ⟨_, rfl, rfl⟩
  case h_2 =>
    cases h
    exact ⟨_, rfl, rfl⟩
  case h_3 =>
    split at h
    case isTrue =>
      cases h
      exact ⟨_, rfl, rfl⟩
    case isFalse =>
      split at h
      case h_1 =>
        cases h
        exact ⟨_, rfl, rfl⟩
      case h_2 => cases h

theorem screen_eq_ok_iff {value : Text} {target : Path} :
    s.screen entry = .ok (value, target) ↔
      s.prompts.get? entry.promptKey = some value ∧ value ≠ [] ∧
        s.allow.contains entry.variableName = true ∧
        Path.confine? s.base entry.targetFile = some target := by
  rw [screen]
  constructor
  · intro h
    split at h
    case h_1 => cases h
    case h_2 => cases h
    case h_3 found hfound hget =>
      obtain ⟨hallowed, h⟩ := of_ite_error_eq_ok h
      split at h
      case h_1 => cases h
      case h_2 path hconfine =>
        cases h
        exact ⟨hget, hfound, (Bool.not_eq_false _).mp hallowed, hconfine⟩
  · rintro ⟨hget, hne, hallowed, hconfine⟩
    obtain ⟨c, rest, rfl⟩ := List.exists_cons_of_ne_nil hne
    simp only [hget, hallowed, hconfine, Bool.true_eq_false, if_false]

/-- A patch is an insertion behind the statement, if there is one. -/
theorem patch_cases (h : s.locator.Bounded) (content name value : Text) :
    (∃ reason, s.locator.locate content.pieces name = .error reason ∧
        s.patch content name value = .ok (.error reason)) ∨
      ∃ statement, s.locator.locate content.pieces name = .ok statement ∧
        ∃ hlt : statement.last < content.pieces.length,
          s.patch content name value = .ok (.ok ⟨statement.last,
            (Injection.insert content.pieces ⟨statement.last, hlt⟩ name
              value).flatten⟩) := by
  rw [patch]
  cases hlocate : s.locator.locate content.pieces name with
  | error reason => exact .inl ⟨reason, rfl, rfl⟩
  | ok statement =>
      have hlt := h.last_lt hlocate
      refine .inr ⟨statement, rfl, hlt, ?_⟩
      simp only [Injection.insert?, dif_pos hlt]
      rfl

/-! Entries as steps. -/

def step [FileTree.Device] (s : Settings) (process : Nat) (home : Place)
    (t : FileTree) (entry : ManifestEntry) :
    Except Misuse (Report × FileTree) :=
  match s.screen entry with
  | .error report => .ok (report, t)
  | .ok (value, target) =>
      let stop (outcome : Outcome) : Report :=
        .untouched entry outcome (some target)
      if t.present home target = false then
        .ok (stop (.skipped .fileNotFound), t)
      else
        match t.readText home target with
        | .error flaw =>
            .ok (stop (.failed (Error.fileUnreadable target flaw).display), t)
        | .ok content =>
            match s.patch content entry.variableName value with
            | .error misuse => .error misuse
            | .ok (.error reason) => .ok (stop (.skipped reason.skip), t)
            | .ok (.ok patch) =>
                let done : Report :=
                  ⟨entry, .applied, some target, some (patch.last + 1),
                    !s.dryRun⟩
                if s.dryRun then .ok (done, t)
                else
                  match t.replace process home target
                    (Utf8.encode patch.text) with
                  | (.error refusal, after) =>
                      .ok (stop
                        (.failed (Error.fileNotWritten refusal).display),
                        after)
                  | (.ok (), after) => .ok (done, after)

theorem perform_applyEntry [FileTree.Device] (s : Settings)
    (entry : ManifestEntry) (machine : Machine) :
    machine.perform (s.applyEntry entry) =
      match s.step machine.process machine.home machine.tree entry with
      | .ok (report, tree) => (.ok report, { machine with tree })
      | .error misuse => (.error misuse, machine) := by
  rw [applyEntry, step]
  cases s.screen entry with
  | error report => rfl
  | ok pair =>
      obtain ⟨value, target⟩ := pair
      simp only
      rw [Machine.perform_lift_bind (Machine.run_present target machine)]
      cases machine.tree.present machine.home target with
      | false => rfl
      | true =>
          simp only [Bool.not_true, Bool.false_eq_true, Bool.true_eq_false,
            if_false]
          rw [Machine.perform_lift_bind (run_readText target machine)]
          cases machine.tree.readText machine.home target with
          | error flaw => rfl
          | ok content =>
              simp only [Machine.perform_except_bind]
              cases s.patch content entry.variableName value with
              | error misuse => rfl
              | ok found =>
                  cases found with
                  | error reason => rfl
                  | ok patch =>
                      simp only
                      by_cases hdry : s.dryRun = true
                      · rw [if_pos hdry, if_pos hdry]
                        rfl
                      · cases hreplace : machine.tree.replace machine.process
                          machine.home
                          target (Utf8.encode patch.text) with
                        | mk result after =>
                            rw [if_neg hdry, if_neg hdry,
                              Machine.perform_lift_bind
                              (Machine.run_writeText hreplace)]
                            cases result with
                            | error refusal => rfl
                            | ok => rfl

def steps [FileTree.Device] (s : Settings) (process : Nat) (home : Place) :
    FileTree → Manifest → Except Misuse (Summary × FileTree)
  | t, [] => .ok ([], t)
  | t, entry :: rest => do
      let (report, t) ← s.step process home t entry
      let (summary, t) ← steps s process home t rest
      return (report :: summary, t)

theorem steps_cons [FileTree.Device] {s : Settings} {process : Nat}
    {home : Place} {t t' t'' : FileTree} {entry : ManifestEntry}
    {rest : Manifest} {report : Report} {summary : Summary}
    (hstep : s.step process home t entry = .ok (report, t'))
    (hrest : s.steps process home t' rest = .ok (summary, t'')) :
    s.steps process home t (entry :: rest) = .ok (report :: summary, t'') := by
  rw [steps, hstep]
  simp only [bind, Except.bind, hrest]
  rfl

theorem exists_of_steps_cons [FileTree.Device] {s : Settings} {process : Nat}
    {home : Place} {t t'' : FileTree} {entry : ManifestEntry} {rest : Manifest}
    {reports : Summary}
    (h : s.steps process home t (entry :: rest) = .ok (reports, t'')) :
    ∃ report t' summary, reports = report :: summary ∧
      s.step process home t entry = .ok (report, t') ∧
      s.steps process home t' rest = .ok (summary, t'') := by
  rw [steps] at h
  obtain ⟨⟨report, t'⟩, hstep, hlater⟩ := exists_of_bind_eq_ok h
  obtain ⟨⟨summary, last⟩, hrest, hreports⟩ := exists_of_bind_eq_ok hlater
  cases hreports
  exact ⟨report, t', summary, rfl, hstep, hrest⟩

/-- Between two entries only a line is logged, which no step looks at. -/
theorem perform_applyAll [FileTree.Device] {s : Settings} {machine : Machine}
    {manifest : Manifest} {summary : Summary} {tree : FileTree}
    (logger : Log.Logger)
    (h : s.steps machine.process machine.home machine.tree manifest =
      .ok (summary, tree)) :
    machine.perform (s.applyAll logger manifest) =
      (.ok summary, { machine with tree }.logAll logger summary) := by
  induction manifest generalizing machine summary with
  | nil =>
      cases h
      rfl
  | cons entry rest ih =>
      obtain ⟨report, t', later, rfl, hstep, hrest⟩ := exists_of_steps_cons h
      have hentry := perform_applyEntry s entry machine
      rw [hstep] at hentry
      rw [applyAll, Machine.perform_bind, hentry]
      simp only
      rw [Machine.perform_lift_bind (Machine.run_write logger report.record _),
        Machine.perform_bind]
      have hlater :=
        @ih ({ machine with tree := t' }.log logger report.record) later
        (by simpa using hrest)
      rw [hlater, Machine.log_with_tree]
      rfl

end Settings

end TextOverride
