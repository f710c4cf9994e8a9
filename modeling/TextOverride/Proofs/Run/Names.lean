import Mathlib
import TextOverride.Proofs.Manifest.Reading
import TextOverride.Proofs.Run.Outcome

namespace TextOverride

/-- From tree to tree along the reports. An entry changes the tree only by
asking for its target to be replaced by the text that is read there with one
assignment more; the name that is assigned to is that of the entry, and it is
admitted. -/
inductive Injects [FileTree.Device] (admits : Text → Prop) (process : Nat)
    (home : Place) :
    FileTree → Summary → FileTree → Prop
  | nil (t : FileTree) : Injects admits process home t [] t
  | idle {t t' : FileTree} {report : Report} {summary : Summary}
      (happlied : report.outcome = .applied → admits report.entry.variableName)
      (hlater : Injects admits process home t summary t') :
      Injects admits process home t (report :: summary) t'
  | replaces {t middle t' : FileTree} {report : Report} {summary : Summary}
      {target : Path}
      {content value : Text} {result : Except FileTree.Refusal Unit}
      (anchor : Fin content.pieces.length)
      (hname : admits report.entry.variableName)
      (hcontent : t.readText home target = .ok content)
      (hreplace : t.replace process home target (Utf8.encode
        (Injection.insert content.pieces anchor report.entry.variableName
          value).flatten) =
          (result, middle))
      (hlater : Injects admits process home middle summary t') :
      Injects admits process home t (report :: summary) t'

namespace Injects

variable {admits admits' : Text → Prop} {process : Nat} {home : Place}
    {t t' t'' : FileTree}
  {summary later : Summary}

private theorem append [FileTree.Device]
    (h : Injects admits process home t summary t')
    (hlater : Injects admits process home t' later t'') :
    Injects admits process home t (summary ++ later) t'' := by
  induction h with
  | nil => exact hlater
  | idle happlied _ ih => exact .idle happlied (ih hlater)
  | replaces anchor hname hcontent hreplace _ ih =>
      exact .replaces anchor hname hcontent hreplace (ih hlater)

private theorem mono [FileTree.Device]
    (h : Injects admits process home t summary t')
    (hadmits : ∀ name, admits name → admits' name) : Injects admits' process
    home t summary t' := by
  induction h with
  | nil t => exact .nil t
  | idle happlied _ ih => exact .idle (fun h => hadmits _ (happlied h)) ih
  | replaces anchor hname hcontent hreplace _ ih =>
      exact .replaces anchor (hadmits _ hname) hcontent hreplace ih

private theorem admits_of_applied [FileTree.Device]
    (h : Injects admits process home t summary t') :
    ∀ report ∈ summary, report.outcome = .applied →
      admits report.entry.variableName := by
  induction h with
  | nil => exact nofun
  | idle happlied _ ih => exact List.forall_mem_cons.mpr ⟨happlied, ih⟩
  | replaces _ hname _ _ _ ih =>
      exact List.forall_mem_cons.mpr ⟨fun _ => hname, ih⟩

end Injects

namespace Settings

variable {s : Settings} {process : Nat} {home : Place} {t t' : FileTree}
    {entry : ManifestEntry}
  {report : Report}

private theorem Plans.injects [FileTree.Device] {edit : Edit}
    (h : s.Plans home t entry edit) (hbounded : s.locator.Bounded)
    (hstep : s.step process home t entry = .ok (report, t')) :
    Injects (s.allow.contains · = true) process home t [report] t' := by
  obtain ⟨lines, hlines⟩ := h.exists_lines hbounded
  by_cases hdry : s.dryRun = true
  · cases (h.step_of_dry hlines hdry process).symm.trans hstep
    exact .idle (fun _ => h.allowed) (.nil t)
  · have hreal := (Bool.not_eq_true _).mp hdry
    obtain ⟨hlt, rfl⟩ := Injection.insert?_eq_ok_iff.mp hlines
    cases hreplace : t.replace process home edit.target (Utf8.encode
        (Injection.insert edit.content.pieces ⟨_, hlt⟩ entry.variableName
          edit.value).flatten) with
    | mk result after =>
        cases result with
        | error refusal =>
            cases (h.step_of_refused hlines hreal hreplace).symm.trans hstep
            exact .replaces ⟨_, hlt⟩ h.allowed h.content hreplace (.nil t')
        | ok =>
            cases (h.step_of_replaced hlines hreal hreplace).symm.trans hstep
            exact .replaces ⟨_, hlt⟩ h.allowed h.content hreplace (.nil t')

private theorem step_injects [FileTree.Device] (hbounded : s.locator.Bounded)
    (hstep : s.step process home t entry = .ok (report, t')) :
    Injects (s.allow.contains · = true) process home t [report] t' := by
  rcases plans_or_stops hbounded process home t entry with
    ⟨edit, hplans⟩ | ⟨outcome, target, houtcome, hstops⟩
  · exact hplans.injects hbounded hstep
  · cases (hstops s.dryRun home t
      (SameFor.refl s home entry t).alike).symm.trans hstep
    refine .idle (fun happlied => ?_) (.nil t)
    cases happlied
    cases houtcome

private theorem steps_injects [FileTree.Device] (hbounded : s.locator.Bounded)
    {manifest : Manifest} {summary : Summary}
    (h : s.steps process home t manifest = .ok (summary, t')) :
    Injects (s.allow.contains · = true) process home t summary t' := by
  induction manifest generalizing t summary with
  | nil =>
      cases h
      exact .nil _
  | cons entry rest ih =>
      obtain ⟨report, middle, reports, rfl, hstep, hrest⟩ :=
        exists_of_steps_cons h
      exact (step_injects hbounded hstep).append (ih hrest)

end Settings

namespace Config

variable {config : Config}

private theorem flaw?_of_load {t : FileTree} {home : Place}
    {loaded : Prompts × Manifest} (h : config.load t home = .ok loaded) :
    config.allow.flaw? = none := by
  have hchecked := config.checked_load t home
  rw [h] at hchecked
  refine AllowList.flaw?_eq_none_iff.mpr
    (hchecked.holds ⟨_, .validationFailed⟩ ?_)
  rw [demands, checkDemands]
  simp

private theorem identifier_of_flaw? (h : config.allow.flaw? = none)
    {name : Text} (hallowed : config.allow.contains name = true) :
    Identifier name := by
  obtain ⟨_, hnames⟩ := AllowList.flaw?_eq_none_iff.mp h
  exact AllowList.isIdentifier_iff.mp
    (hnames name (AllowList.contains_iff.mp hallowed))

/-- A run that is not refused assigns to identifiers only. -/
theorem exists_run_injects [FileTree.Device] [LineScan.Patterns]
    (config : Config) (logger : Log.Logger) (machine : Machine) :
    ∃ result after, machine.perform (config.run logger) = (.ok result, after) ∧
      ∀ summary, result = .ok summary →
        Injects Identifier machine.process machine.home machine.tree summary
          after.tree := by
  rcases config.outcome_cases machine.process machine.home machine.tree with
    ⟨e, _, houtcome⟩
      | ⟨prompts, manifest, summary, tree, hload, hsteps, _, houtcome⟩
  · obtain ⟨said, hrun⟩ := perform_run machine houtcome logger
    exact ⟨.error e, _, hrun, nofun⟩
  · obtain ⟨said, hrun⟩ := perform_run machine houtcome logger
    refine ⟨.ok summary, _, hrun, ?_⟩
    rintro _ ⟨⟩
    exact (Settings.steps_injects LineScan.locator_bounded hsteps).mono
      fun _ => identifier_of_flaw? (flaw?_of_load hload)

end Config

/-- An allow-list passes exactly if it has a name and all its names are
identifiers; otherwise its least faulty name is reported, or that it is empty.
Only the set of its names counts. No run that is not refused assigns to, or
reports as applied, anything but identifiers. -/
theorem allowed_names_are_identifiers [FileTree.Device] [LineScan.Patterns] :
    (∀ names : List Text,
      ((AllowList.ofNames names).flaw? = none ↔
        names ≠ [] ∧ ∀ name ∈ names, Identifier name) ∧
      (∀ flaw, (AllowList.ofNames names).flaw? = some flaw →
        (Error.badAllowList flaw).code = .validationFailed ∧
          (names = [] ∧ (Error.badAllowList flaw).report.detail =
            "allow_list".toList ∨
            ∃ name ∈ names, (Error.badAllowList flaw).report.detail = name ∧
              ¬ Identifier name ∧
              ∀ other ∈ names, ¬ Identifier other →
                Utf8.encode name ≤ Utf8.encode other)) ∧
      (∀ name, (AllowList.ofNames names).contains name = true ↔ name ∈ names) ∧
      (AllowList.ofNames names).size = names.dedup.length ∧
      ∀ others : List Text, (∀ name, name ∈ names ↔ name ∈ others) →
        (AllowList.ofNames names).size = (AllowList.ofNames others).size ∧
          (∀ name, (AllowList.ofNames names).contains name =
            (AllowList.ofNames others).contains name) ∧
          (AllowList.ofNames names).flaw? = (AllowList.ofNames others).flaw?) ∧
    ∀ (config : Config) (logger : Log.Logger) (machine : Machine),
      ∃ result after,
      machine.perform (config.run logger) = (.ok result, after) ∧
        ∀ summary, result = .ok summary →
          Injects Identifier machine.process machine.home machine.tree summary
            after.tree ∧
            ∀ report ∈ summary, report.outcome = .applied →
              Identifier report.entry.variableName := by
  refine ⟨fun names =>
    ⟨AllowList.flaw?_ofNames_eq_none_iff, fun flaw hflaw => ?_, fun name => ?_,
    ?_, fun others hsame => ?_⟩, fun config logger machine => ?_⟩
  · obtain ⟨hcode, hempty | hleast⟩ := AllowList.report_of_flaw?_ofNames hflaw
    · exact ⟨hcode, .inl hempty⟩
    · exact ⟨hcode, .inr ⟨_, hleast.mem, rfl, hleast.flawed, hleast.le⟩⟩
  · rw [AllowList.contains_iff, AllowList.mem_keys_ofNames_iff]
  · exact TextMap.size_eq fun _ => AllowList.mem_keys_ofNames_iff
  · rw [AllowList.ofNames_congr hsame]
    exact ⟨rfl, fun _ => rfl, rfl⟩
  · obtain ⟨result, after, hrun, hinjects⟩ :=
      config.exists_run_injects logger machine
    exact ⟨result, after, hrun, fun summary hresult =>
      ⟨hinjects summary hresult, (hinjects summary hresult).admits_of_applied⟩⟩

/-- Two of them are no identifiers, and one of these is behind all of ASCII. -/
def mixedNames : List Text := ["é".toList, "b\n".toList, "A".toList]

def dollarFiles (manifest : Utf8.Bytes) : Machine :=
  .holding []
    [(["p".toList], .file (Utf8.encode "k:\n  v\n".toList) FileTree.fileMode),
      (["m".toList], .file manifest FileTree.fileMode),
      (["a.ts".toList],
        .file (Utf8.encode "let $P = 1;\n".toList) FileTree.fileMode)]

def dollarRun : Config where
  prompts := "/p".toList
  manifest := some "/m".toList
  base := "/".toList
  allow := .ofNames ["$P".toList, "_".toList]
  dryRun := false

def dollarPrompts : Prompts := .ofList [("k".toList, "v".toList)]

def dollarEntry : ManifestEntry := ⟨"k".toList, "$P".toList, "a.ts".toList⟩

def dollarEdit : Edit :=
  ⟨"v".toList, "/a.ts".toList, "let $P = 1;\n".toList, ⟨0, 0⟩⟩

private theorem load_dollarFiles {text : Text} {manifest : Manifest}
    (h : Manifest.read text = .ok manifest) :
    dollarRun.load (dollarFiles (Utf8.encode text)).tree [] =
      .ok (dollarPrompts, manifest) := by
  generalize hbytes : Utf8.encode text = bytes
  have hcheck : dollarRun.checkIn (dollarFiles bytes).tree [] = .ok () := by cbv
  have hprompts : (dollarFiles bytes).tree.loadPrompts [] dollarRun.prompts =
      .ok dollarPrompts := by cbv
  have hpresent : (dollarFiles bytes).tree.present [] dollarRun.manifestPath =
      true := by cbv
  have hread : (dollarFiles bytes).tree.read [] dollarRun.manifestPath =
      .ok bytes := by cbv
  exact Config.load_eq_ok hcheck hprompts hpresent (hbytes ▸ hread) h

private theorem exists_step_dollarFiles (manifest : Utf8.Bytes) :
    ∃ after, (dollarRun.settings dollarPrompts).step 7 []
      (dollarFiles manifest).tree dollarEntry =
      .ok (dollarEdit.report dollarEntry true, after) := by
  have hlines : dollarEdit.lines? "$P".toList =
      .ok ["let $P = 1;\n".toList,
        "$P = `v`; // Injected by patcher.py\n".toList] := rfl
  have hplans : (dollarRun.settings dollarPrompts).Plans []
      (dollarFiles manifest).tree dollarEntry
      dollarEdit :=
    ⟨rfl, by decide, by decide, by decide, by decide, rfl, by cbv, by cbv, rfl⟩
  have hreplace :
      ((dollarFiles manifest).tree.replace 7 [] dollarEdit.target
        (Utf8.encode (List.flatten ["let $P = 1;\n".toList,
          "$P = `v`; // Injected by patcher.py\n".toList]))).1 =
        .ok () := by cbv
  refine Settings.Makes.exists_step ⟨hplans, fun _ lines h => ?_⟩ hlines
  cases hlines.symm.trans h
  exact hreplace

theorem allowed_names_are_identifiers_dollar :
    (AllowList.ofNames mixedNames).flaw? = some (.notIdentifier "b\n".toList) ∧
      (∀ other ∈ mixedNames, ¬ Identifier other →
        Utf8.encode "b\n".toList ≤ Utf8.encode other) ∧
      (∀ name, name ∈ mixedNames ↔ name ∈ mixedNames ++ mixedNames.reverse) ∧
      (AllowList.ofNames mixedNames).size =
        (AllowList.ofNames (mixedNames ++ mixedNames.reverse)).size ∧
      ∃ manifest report after,
        (dollarFiles manifest).perform (dollarRun.run .off) =
          (.ok (.ok [report]), after) ∧
        report.outcome = .applied ∧ Identifier report.entry.variableName ∧
        Injects Identifier 7 [] (dollarFiles manifest).tree [report]
          after.tree := by
  obtain ⟨hnames, hruns⟩ := allowed_names_are_identifiers
  obtain ⟨_, hflaws, _, _, hsame⟩ := hnames mixedNames
  have hflaw : (AllowList.ofNames mixedNames).flaw? =
      some (.notIdentifier "b\n".toList) := rfl
  have hmem (name : Text) : name ∈ mixedNames ↔
      name ∈ mixedNames ++ mixedNames.reverse := by simp
  obtain ⟨_, ⟨hempty, _⟩ | ⟨name, _, hdetail, _, hleast⟩⟩ := hflaws _ hflaw
  · cases hempty
  have hname : name = "b\n".toList := hdetail.symm
  subst hname
  have hmanifest : Manifest.read (Manifest.document [dollarEntry]).write =
      .ok [dollarEntry] :=
    Json.toOption_eq_some_iff.mp ((Manifest.read_write _).trans rfl)
  have hload := load_dollarFiles hmanifest
  generalize Utf8.encode (Manifest.document [dollarEntry]).write =
    manifest at hload
  obtain ⟨tree, hstep⟩ := exists_step_dollarFiles manifest
  have hsteps :
      (dollarRun.settings dollarPrompts).steps 7 [] (dollarFiles manifest).tree
      [dollarEntry] = .ok ([dollarEdit.report dollarEntry true], tree) :=
    Settings.steps_cons hstep rfl
  have houtcome : dollarRun.outcome 7 [] (dollarFiles manifest).tree =
      .ok (.ok [dollarEdit.report dollarEntry true], tree) := by
    rw [Config.outcome, hload]
    simp only [hsteps]
    rfl
  obtain ⟨said, hrun⟩ := Config.perform_run (dollarFiles manifest) houtcome .off
  obtain ⟨result, after, hperformed, hinjects⟩ :=
    hruns dollarRun .off (dollarFiles manifest)
  cases hperformed.symm.trans hrun
  obtain ⟨hinjected, happlied⟩ := hinjects _ rfl
  exact ⟨hflaw, hleast, hmem, (hsame _ hmem).1, manifest, _, _, hrun, rfl,
    happlied _ List.mem_cons_self rfl, hinjected⟩

end TextOverride
