import TextOverride.Proofs.AllowList
import TextOverride.Proofs.Run.Course

namespace TextOverride

/-- Something that has to hold, and the code of the error where it does not. -/
structure Demand where
  holds : Prop
  code : ErrorCode

inductive FirstUnmet (code : ErrorCode) : List Demand → Prop
  | here {demand : Demand} {later : List Demand} (h : ¬ demand.holds)
      (hcode : demand.code = code) : FirstUnmet code (demand :: later)
  | there {demand : Demand} {later : List Demand} (h : demand.holds)
      (hlater : FirstUnmet code later) : FirstUnmet code (demand :: later)

namespace FirstUnmet

variable {code code' : ErrorCode} {demands : List Demand}

theorem exists_unmet (h : FirstUnmet code demands) :
    ∃ demand ∈ demands, ¬ demand.holds := by
  induction h with
  | here h => exact ⟨_, List.mem_cons_self, h⟩
  | there _ _ ih =>
      obtain ⟨demand, hmem, hunmet⟩ := ih
      exact ⟨demand, List.mem_cons_of_mem _ hmem, hunmet⟩

theorem unique (h : FirstUnmet code demands) (h' : FirstUnmet code' demands) :
    code = code' := by
  induction h with
  | here hunmet hcode =>
      cases h' with
      | here _ hcode' => exact hcode.symm.trans hcode'
      | there hholds _ => exact absurd hholds hunmet
  | there hholds _ ih =>
      cases h' with
      | here hunmet _ => exact absurd hholds hunmet
      | there _ hlater => exact ih hlater

end FirstUnmet

inductive Checked {α : Type} : List Demand → Except Error α → Prop
  | passed (a : α) : Checked [] (.ok a)
  | met {demand : Demand} {later : List Demand} {result : Except Error α}
      (h : demand.holds)
      (hlater : Checked later result) : Checked (demand :: later) result
  | unmet {demand : Demand} {later : List Demand} {e : Error}
      (h : ¬ demand.holds)
      (hcode : demand.code = e.code) : Checked (demand :: later) (.error e)

namespace Checked

variable {α β : Type} {demands later : List Demand}

theorem holds {a : α} (h : Checked demands (.ok a)) :
    ∀ demand ∈ demands, demand.holds := by
  generalize hresult : Except.ok a = result at h
  induction h with
  | passed => exact nofun
  | met h _ ih => exact List.forall_mem_cons.mpr ⟨h, ih hresult⟩
  | unmet => cases hresult

theorem firstUnmet {e : Error}
    (h : Checked demands (.error e : Except Error α)) :
    FirstUnmet e.code demands := by
  generalize hresult : Except.error e = result at h
  induction h with
  | passed => cases hresult
  | met h _ ih => exact .there h (ih hresult)
  | unmet h hcode =>
      cases hresult
      exact .here h hcode

private theorem bind {result : Except Error α} {next : α → Except Error β}
    (h : Checked demands result)
    (hnext : ∀ a, result = .ok a → Checked later (next a)) :
    Checked (demands ++ later) (result >>= next) := by
  induction h with
  | passed a => exact hnext a rfl
  | met h _ ih => exact .met h (ih hnext)
  | unmet h hcode => exact .unmet h hcode

end Checked

/-! The parts of the loading, as functions of the tree. -/

namespace FileTree

def loadPrompts (t : FileTree) (home : Place) (path : Path) :
    Except Error Prompts :=
  if t.present home path = false then .error (.promptFileMissing path)
  else
    match t.read home path with
    | .error e => .error (.promptFileUnreadable path e)
    | .ok bytes => (Prompts.parseBytes bytes).mapError .promptFileNotUtf8

def loadManifest (t : FileTree) (home : Place) (path : Path) :
    Except Error Manifest :=
  if t.present home path = false then .error (.manifestMissing path)
  else
    match t.readText home path with
    | .error flaw => .error (.manifestUnreadable path flaw)
    | .ok text => (Manifest.read text).mapError (.manifestInvalid path text)

end FileTree

def Config.checkIn (config : Config) (t : FileTree) (home : Place) :
    Except Error Unit :=
  if config.prompts = [] then .error .promptPathEmpty
  else if t.isDirectory home config.base = false then
    .error (.baseNotDirectory config.base)
  else
    match config.allow.flaw? with
    | some flaw => .error (.badAllowList flaw)
    | none => .ok ()

def Config.load (config : Config) (t : FileTree) (home : Place) :
    Except Error (Prompts × Manifest) := do
  config.checkIn t home
  let prompts ← t.loadPrompts home config.prompts
  let manifest ← t.loadManifest home config.manifestPath
  return (prompts, manifest)

theorem run_check [FileTree.Device] (config : Config) (machine : Machine) :
    Id.run ((config.check : StateM Machine _).run machine) =
      (config.checkIn machine.tree machine.home, machine) := by
  rw [Config.check, Config.checkIn]
  split
  · rfl
  · rw [Machine.run_bind (Machine.run_isDirectory config.base machine)]
    cases machine.tree.isDirectory machine.home config.base with
    | false => rfl
    | true =>
        simp only [Bool.not_true, Bool.false_eq_true, Bool.true_eq_false,
          if_false]
        cases config.allow.flaw? with
        | some flaw => rfl
        | none => rfl

theorem run_loadPrompts [FileTree.Device] (path : Path) (machine : Machine) :
    Id.run ((loadPrompts path : StateM Machine _).run machine) =
      (machine.tree.loadPrompts machine.home path, machine) := by
  rw [loadPrompts, FileTree.loadPrompts,
    Machine.run_bind (Machine.run_present path machine)]
  cases machine.tree.present machine.home path with
  | false => rfl
  | true =>
      simp only [Bool.not_true, Bool.false_eq_true, Bool.true_eq_false,
        if_false]
      rw [Machine.run_bind (Machine.run_read path machine)]
      cases machine.tree.read machine.home path with
      | error e => rfl
      | ok bytes => rfl

theorem run_loadManifest [FileTree.Device] (path : Path) (machine : Machine) :
    Id.run ((loadManifest path : StateM Machine _).run machine) =
      (machine.tree.loadManifest machine.home path, machine) := by
  rw [loadManifest, FileTree.loadManifest,
    Machine.run_bind (Machine.run_present path machine)]
  cases machine.tree.present machine.home path with
  | false => rfl
  | true =>
      simp only [Bool.not_true, Bool.false_eq_true, Bool.true_eq_false,
        if_false]
      rw [Machine.run_bind (run_readText path machine)]
      cases machine.tree.readText machine.home path with
      | error flaw => rfl
      | ok text => rfl

/-! What the parts demand. -/

private theorem AllowListFlaw.code_report (flaw : AllowListFlaw) :
    flaw.report.code = .validationFailed := by
  cases flaw with
  | empty => rfl
  | notIdentifier name => rfl

namespace FileTree

variable (t : FileTree) (home : Place) (path : Path)

def promptDemands : List Demand :=
  [⟨t.present home path = true, .configNotFound⟩,
    ⟨∃ bytes, t.read home path = .ok bytes, .configReadFailed⟩,
    ⟨∃ text, t.read home path = .ok (Utf8.encode text), .parseFailed⟩]

def manifestDemands : List Demand :=
  [⟨t.present home path = true, .manifestNotFound⟩,
    ⟨∃ text, t.read home path = .ok (Utf8.encode text), .manifestReadFailed⟩,
    ⟨∃ text manifest, t.read home path = .ok (Utf8.encode text) ∧
      Manifest.read text = .ok manifest, .manifestInvalid⟩]

theorem checked_loadPrompts :
    Checked (t.promptDemands home path) (t.loadPrompts home path) := by
  rw [promptDemands, loadPrompts]
  cases t.present home path with
  | false => exact .unmet Bool.false_ne_true rfl
  | true =>
      refine .met rfl ?_
      simp only [Bool.true_eq_false, if_false]
      cases t.read home path with
      | error e => exact .unmet nofun rfl
      | ok bytes =>
          refine .met ⟨bytes, rfl⟩ ?_
          simp only [Prompts.parseBytes]
          cases hdecode : Utf8.decode bytes with
          | error fault =>
              refine .unmet ?_ rfl
              rintro ⟨text, htext⟩
              cases htext
              cases (Utf8.decode_encode text).symm.trans hdecode
          | ok text =>
              exact .met ⟨text, by rw [Utf8.encode_of_decode hdecode]⟩
                (.passed _)

theorem checked_loadManifest :
    Checked (t.manifestDemands home path) (t.loadManifest home path) := by
  simp only [manifestDemands, ← readText_eq_ok_iff, loadManifest]
  cases t.present home path with
  | false => exact .unmet Bool.false_ne_true rfl
  | true =>
      refine .met rfl ?_
      simp only [Bool.true_eq_false, if_false]
      cases t.readText home path with
      | error flaw =>
          refine .unmet nofun ?_
          cases flaw with
          | unreadable e => rfl
          | notUtf8 => rfl
      | ok text =>
          refine .met ⟨text, rfl⟩ ?_
          simp only
          cases hread : Manifest.read text with
          | error fault =>
              refine .unmet ?_ rfl
              rintro ⟨other, manifest, htext, hmanifest⟩
              cases htext
              cases hread.symm.trans hmanifest
          | ok manifest =>
              exact .met ⟨text, manifest, rfl, hread⟩ (.passed manifest)

variable {t home path}

theorem exists_of_loadManifest {manifest : Manifest}
    (h : t.loadManifest home path = .ok manifest) :
    ∃ text, t.read home path = .ok (Utf8.encode text) ∧
      Manifest.read text = .ok manifest := by
  rw [loadManifest] at h
  obtain ⟨_, h⟩ := of_ite_error_eq_ok h
  split at h
  case h_1 => cases h
  case h_2 text htext =>
    refine ⟨text, readText_eq_ok_iff.mp htext, ?_⟩
    cases hread : Manifest.read text with
    | error fault =>
        rw [hread] at h
        cases h
    | ok found =>
        rw [hread] at h
        cases h
        rfl

end FileTree

namespace Config

def checkDemands (config : Config) (t : FileTree) (home : Place) :
    List Demand :=
  [⟨config.prompts ≠ [], .validationFailed⟩,
    ⟨t.isDirectory home config.base = true, .validationFailed⟩,
    ⟨config.allow.keys ≠ [] ∧ ∀ name ∈ config.allow.keys,
      AllowList.isIdentifier name = true, .validationFailed⟩]

/-- All that a run asks for before its first entry, in order. -/
def demands (config : Config) (t : FileTree) (home : Place) : List Demand :=
  config.checkDemands t home ++ t.promptDemands home config.prompts ++
    t.manifestDemands home config.manifestPath

theorem checked_checkIn (config : Config) (t : FileTree) (home : Place) :
    Checked (config.checkDemands t home) (config.checkIn t home) := by
  rw [checkDemands, checkIn]
  by_cases hprompts : config.prompts = []
  · rw [if_pos hprompts]
    exact .unmet (not_not_intro hprompts) rfl
  · rw [if_neg hprompts]
    refine .met hprompts ?_
    cases t.isDirectory home config.base with
    | false => exact .unmet Bool.false_ne_true rfl
    | true =>
        refine .met rfl ?_
        simp only [Bool.true_eq_false, if_false, ← AllowList.flaw?_eq_none_iff]
        cases config.allow.flaw? with
        | some flaw => exact .unmet nofun flaw.code_report.symm
        | none => exact .met rfl (.passed ())

theorem checked_load (config : Config) (t : FileTree) (home : Place) :
    Checked (config.demands t home) (config.load t home) := by
  rw [demands, List.append_assoc]
  refine (config.checked_checkIn t home).bind fun _ _ => ?_
  refine (t.checked_loadPrompts home config.prompts).bind fun prompts _ => ?_
  exact (t.checked_loadManifest home config.manifestPath).bind fun manifest _ =>
    Checked.passed (prompts, manifest)

theorem load_eq_ok {config : Config} {t : FileTree} {home : Place}
    {prompts : Prompts} {text : Text} {manifest : Manifest}
    (hcheck : config.checkIn t home = .ok ())
    (hprompts : t.loadPrompts home config.prompts = .ok prompts)
    (hpresent : t.present home config.manifestPath = true)
    (hread : t.read home config.manifestPath = .ok (Utf8.encode text))
    (hmanifest : Manifest.read text = .ok manifest) :
    config.load t home = .ok (prompts, manifest) := by
  rw [load, hcheck, hprompts, FileTree.loadManifest, hpresent,
    FileTree.readText_eq_ok_iff.mpr hread]
  simp only [hmanifest]
  rfl

theorem loadManifest_of_load {config : Config} {t : FileTree} {home : Place}
    {prompts : Prompts} {manifest : Manifest}
    (h : config.load t home = .ok (prompts, manifest)) :
    t.loadManifest home config.manifestPath = .ok manifest := by
  rw [load] at h
  obtain ⟨_, _, hlater⟩ := exists_of_bind_eq_ok h
  obtain ⟨_, _, hlast⟩ := exists_of_bind_eq_ok hlater
  obtain ⟨found, hmanifest, hpair⟩ := exists_of_bind_eq_ok hlast
  cases hpair
  exact hmanifest

end Config

end TextOverride
