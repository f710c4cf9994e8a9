import TextOverride.Proofs.FileTree.Replacement
import TextOverride.Run

namespace TextOverride

def Config.patching (base : Path) (names : List Text) : Config :=
  ⟨"prompts.txt".toList, none, base, .ofNames names, false⟩

namespace Machine

variable {ε α β : Type}

def holding (home : Place) (nodes : List (Place × Node)) : Machine :=
  ⟨⟨nodes⟩, home, 7, [], 1, []⟩

/-- Runs an action from a machine, and answers the machine after it. -/
def perform (action : ExceptT ε (StateM Machine) α) (machine : Machine) :
    Except ε α × Machine :=
  Id.run (action.run.run machine)

theorem perform_bind (action : ExceptT ε (StateM Machine) α)
    (next : α → ExceptT ε (StateM Machine) β) (machine : Machine) :
    perform (action >>= next) machine =
      match perform action machine with
      | (.ok a, after) => perform (next a) after
      | (.error e, after) => (.error e, after) := by
  change (match Id.run (action.run.run machine) with
    | (result, after) =>
        perform (ExceptT.mk (ExceptT.bindCont next result)) after) = _
  rw [perform]
  cases Id.run (action.run.run machine) with
  | mk result after =>
      cases result with
      | ok a => rfl
      | error e => rfl

theorem perform_lift_bind {action : StateM Machine α} {machine after : Machine}
    {a : α} (h : Id.run (action.run machine) = (a, after))
    (next : α → ExceptT ε (StateM Machine) β) :
    perform (liftM action >>= next) machine = perform (next a) after := by
  change perform (next (Id.run (action.run machine)).1)
    (Id.run (action.run machine)).2 = _
  rw [h]

theorem perform_except_bind (result : Except ε α)
    (next : α → ExceptT ε (StateM Machine) β) (machine : Machine) :
    perform (liftM result >>= next) machine =
      match result with
      | .ok a => perform (next a) machine
      | .error e => (.error e, machine) := by
  cases result with
  | ok a => rfl
  | error e => rfl

theorem perform_blame (path : Path) (step : StateM Machine (Except OsError α))
    (machine : Machine) :
    perform (blame path step) machine =
      ((Id.run (step.run machine)).1.mapError (FileTree.Refusal.mk path),
        (Id.run (step.run machine)).2) :=
  rfl

private theorem perform_blame_bind (path : Path)
    (step : StateM Machine (Except OsError α))
    (next : α → ExceptT FileTree.Refusal (StateM Machine) β)
    (machine : Machine) :
    perform (blame path step >>= next) machine =
      match Id.run (step.run machine) with
      | (.ok a, after) => perform (next a) after
      | (.error e, after) => (.error ⟨path, e⟩, after) := by
  rw [perform_bind, perform_blame]
  cases Id.run (step.run machine) with
  | mk result after =>
      cases result with
      | ok a => rfl
      | error e => rfl

theorem run_bind {action : StateM Machine α} {machine after : Machine} {a : α}
    (h : Id.run (action.run machine) = (a, after))
    (next : α → StateM Machine β) :
    Id.run ((action >>= next).run machine) = Id.run ((next a).run after) := by
  change Id.run
    ((next (Id.run (action.run machine)).1).run
      (Id.run (action.run machine)).2) = _
  rw [h]

theorem run_present [FileTree.Device] (path : Path) (machine : Machine) :
    Id.run ((Host.present path : StateM Machine Bool).run machine) =
      (machine.tree.present machine.home path, machine) :=
  rfl

theorem run_isDirectory [FileTree.Device] (path : Path) (machine : Machine) :
    Id.run ((Host.isDirectory path : StateM Machine Bool).run machine) =
      (machine.tree.isDirectory machine.home path, machine) :=
  rfl

theorem run_read [FileTree.Device] (path : Path) (machine : Machine) :
    Id.run ((Host.read path : StateM Machine _).run machine) =
      (machine.tree.read machine.home path, machine) :=
  rfl

theorem run_requestId [FileTree.Device] (machine : Machine) :
    Id.run ((Host.requestId : StateM Machine Nat).run machine) =
      (machine.request, machine) :=
  rfl

/-! A replacement. -/

section

variable [FileTree.Device] {temporary path : Path} {content : Utf8.Bytes}
  {machine : Machine} {tree : FileTree} {result : Except FileTree.Refusal Unit}

private theorem run_create (path : Path) (machine : Machine) :
    Id.run ((Host.create path : StateM Machine _).run machine) =
      machine.step (machine.tree.create machine.home path) :=
  rfl

private theorem run_fill (place : Place) (content : Utf8.Bytes)
    (machine : Machine) :
    Id.run ((Host.write (m := StateM Machine) place content).run machine) =
      ((machine.tree.write place content).1,
        { machine with tree := (machine.tree.write place content).2 }) :=
  rfl

private theorem run_sync (place : Place) (machine : Machine) :
    Id.run ((Host.sync (m := StateM Machine) place).run machine) =
      (FileTree.allow (FileTree.Device.sync place) (), machine) :=
  rfl

private theorem run_mode? (path : Path) (machine : Machine) :
    Id.run ((Host.mode? path : StateM Machine _).run machine) =
      (machine.tree.mode? machine.home path, machine) :=
  rfl

private theorem run_setMode (path : Path) (mode : Nat) (machine : Machine) :
    Id.run ((Host.setMode path mode : StateM Machine _).run machine) =
      machine.step
        ((machine.tree.setMode machine.home path mode).map (((), ·))) :=
  rfl

private theorem run_rename (source destination : Path) (machine : Machine) :
    Id.run ((Host.rename source destination : StateM Machine _).run machine) =
      machine.step
        ((machine.tree.rename machine.home source destination).map (((), ·))) :=
  rfl

theorem perform_rename
    (h : (match machine.tree.rename machine.home temporary path with
      | .error e => (.error ⟨path, e⟩, machine.tree)
      | .ok renamed => (.ok (), renamed)) = (result, tree)) :
    perform (blame path (Host.rename temporary path)) machine =
      (result, { machine with tree }) := by
  rw [perform_blame, run_rename]
  cases hrename : machine.tree.rename machine.home temporary path with
  | error e =>
      rw [hrename] at h
      cases h
      rfl
  | ok renamed =>
      rw [hrename] at h
      cases h
      rfl

private theorem perform_install
    (h : machine.tree.install machine.home temporary path content =
      (result, tree)) :
    perform (install temporary path content) machine =
      (result, { machine with tree }) := by
  -- Both go through the same steps, and the first that is refused ends both.
  rw [FileTree.install] at h
  rw [install, perform_blame_bind, run_create]
  cases hcreate : machine.tree.create machine.home temporary with
  | error e =>
      rw [hcreate] at h
      cases h
      rfl
  | ok created =>
  obtain ⟨file, created⟩ := created
  simp only [hcreate, step] at h ⊢
  rw [perform_blame_bind, run_fill]
  rcases hwrite : created.write file content with ⟨e | _, written⟩
  · simp only [hwrite] at h ⊢
    cases h
    rfl
  simp only [hwrite] at h ⊢
  rw [perform_blame_bind, run_sync]
  cases hsync : FileTree.allow (FileTree.Device.sync file) () with
  | error e =>
      rw [hsync] at h
      cases h
      rfl
  | ok =>
  simp only [hsync] at h ⊢
  rw [perform_lift_bind (run_mode? path _)]
  rw [FileTree.copyMode] at h
  cases hmode : written.mode? machine.home path with
  | none =>
      simp only [hmode] at h ⊢
      exact perform_rename h
  | some mode =>
      simp only [hmode] at h ⊢
      rw [perform_blame_bind, run_setMode]
      cases hset : written.setMode machine.home temporary mode with
      | error e =>
          simp only [hset] at h ⊢
          cases h
          rfl
      | ok ready =>
          simp only [hset] at h ⊢
          exact perform_rename h

private theorem run_replace
    (h : machine.tree.replace machine.process machine.home path content =
      (result, tree)) :
    Id.run ((replace path content : StateM Machine _).run machine) =
      (result, { machine with tree }) := by
  have hcanonical : Id.run ((Host.canonical? path : StateM Machine _).run
      machine) = (machine.tree.canonical? machine.home path, machine) := rfl
  have hprocess : Id.run ((Host.process : StateM Machine Nat).run machine) =
      (machine.process, machine) := rfl
  rw [FileTree.replace] at h
  rw [replace, run_bind hcanonical, run_bind hprocess]
  rcases hinstall : machine.tree.install machine.home
      (FileTree.temporaryPath machine.process
        (machine.tree.working machine.home path))
      (machine.tree.working machine.home path) content with
    ⟨refusal | _, left⟩
  · rw [hinstall] at h
    cases h
    exact run_bind (perform_install hinstall) _
  · rw [hinstall] at h
    cases h
    exact run_bind (perform_install hinstall) _

theorem run_writeText {text : Text}
    (h : machine.tree.replace machine.process machine.home path
      (Utf8.encode text) = (result, tree)) :
    Id.run ((writeText path text : StateM Machine _).run machine) =
      (result.mapError .fileNotWritten, { machine with tree }) := by
  rw [writeText, run_bind (run_replace h)]
  rfl

end

def log (machine : Machine) (logger : Log.Logger) (record : Log.Record) :
    Machine :=
  match logger.sink with
  | .off => machine
  | .standard =>
      machine.say record.level.channel (record.line logger.id machine.clock)
  | .buffer => machine.say .buffer (record.line logger.id machine.clock)

theorem run_write [FileTree.Device] (logger : Log.Logger) (record : Log.Record)
    (machine : Machine) :
    Id.run ((logger.write record : StateM Machine Unit).run machine) =
      ((), machine.log logger record) := by
  rw [Log.Logger.write, log]
  cases logger.sink with
  | off => rfl
  | standard => rfl
  | buffer => rfl

@[simp] theorem tree_log (machine : Machine) (logger : Log.Logger)
    (record : Log.Record) :
    (machine.log logger record).tree = machine.tree := by
  rw [log]
  cases logger.sink <;> rfl

@[simp] theorem home_log (machine : Machine) (logger : Log.Logger)
    (record : Log.Record) :
    (machine.log logger record).home = machine.home := by
  rw [log]
  cases logger.sink <;> rfl

@[simp] theorem process_log (machine : Machine) (logger : Log.Logger)
    (record : Log.Record) :
    (machine.log logger record).process = machine.process := by
  rw [log]
  cases logger.sink <;> rfl

@[simp] theorem clock_log (machine : Machine) (logger : Log.Logger)
    (record : Log.Record) :
    (machine.log logger record).clock = machine.clock := by
  rw [log]
  cases logger.sink <;> rfl

theorem log_with_tree (machine : Machine) (logger : Log.Logger)
    (record : Log.Record) (tree : FileTree) :
    { machine.log logger record with tree } =
      { machine with tree }.log logger record := by
  rw [log, log]
  cases logger.sink <;> rfl

def logAll (machine : Machine) (logger : Log.Logger) (summary : Summary) :
    Machine :=
  summary.foldl (fun machine report => machine.log logger report.record) machine

@[simp] theorem logAll_cons (machine : Machine) (logger : Log.Logger)
    (report : Report) (summary : Summary) :
    machine.logAll logger (report :: summary) =
      (machine.log logger report.record).logAll logger summary :=
  rfl

@[simp] theorem tree_logAll (machine : Machine) (logger : Log.Logger)
    (summary : Summary) :
    (machine.logAll logger summary).tree = machine.tree := by
  induction summary generalizing machine with
  | nil => rfl
  | cons report summary ih => rw [logAll_cons, ih, tree_log]

@[simp] theorem home_logAll (machine : Machine) (logger : Log.Logger)
    (summary : Summary) :
    (machine.logAll logger summary).home = machine.home := by
  induction summary generalizing machine with
  | nil => rfl
  | cons report summary ih => rw [logAll_cons, ih, home_log]

@[simp] theorem process_logAll (machine : Machine) (logger : Log.Logger)
    (summary : Summary) :
    (machine.logAll logger summary).process = machine.process := by
  induction summary generalizing machine with
  | nil => rfl
  | cons report summary ih => rw [logAll_cons, ih, process_log]

def logEach (machine : Machine) (logger : Log.Logger)
    (records : List Log.Record) : Machine :=
  records.foldl (fun machine record => machine.log logger record) machine

theorem logEach_cons (machine : Machine) (logger : Log.Logger)
    (record : Log.Record) (rest : List Log.Record) :
    machine.logEach logger (record :: rest) =
      (machine.log logger record).logEach logger rest :=
  rfl

theorem logEach_append (machine : Machine) (logger : Log.Logger)
    (first later : List Log.Record) :
    machine.logEach logger (first ++ later) =
      (machine.logEach logger first).logEach logger later :=
  List.foldl_append

theorem logAll_eq_logEach (machine : Machine) (logger : Log.Logger)
    (summary : Summary) :
    machine.logAll logger summary =
      machine.logEach logger (summary.map Report.record) :=
  List.foldl_map.symm

theorem exists_log (machine : Machine) (logger : Log.Logger)
    (record : Log.Record) :
    ∃ said, machine.log logger record = { machine with said } := by
  rw [log]
  cases logger.sink with
  | off => exact ⟨machine.said, rfl⟩
  | standard => exact ⟨_, rfl⟩
  | buffer => exact ⟨_, rfl⟩

theorem exists_logEach (machine : Machine) (logger : Log.Logger)
    (records : List Log.Record) :
    ∃ said, machine.logEach logger records = { machine with said } := by
  induction records generalizing machine with
  | nil => exact ⟨machine.said, rfl⟩
  | cons record rest ih =>
      obtain ⟨first, hfirst⟩ := machine.exists_log logger record
      obtain ⟨said, hsaid⟩ := ih { machine with said := first }
      refine ⟨said, Eq.trans ?_ hsaid⟩
      rw [logEach_cons, hfirst]

theorem logEach_with_tree (machine : Machine) (logger : Log.Logger)
    (records : List Log.Record) (tree : FileTree) :
    { machine.logEach logger records with tree } =
      { machine with tree }.logEach logger records := by
  induction records generalizing machine with
  | nil => rfl
  | cons record rest ih => rw [logEach_cons, logEach_cons, ih, log_with_tree]

end Machine

end TextOverride
