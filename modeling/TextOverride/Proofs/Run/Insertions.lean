import Mathlib
import TextOverride.Proofs.Injection.Insertion
import TextOverride.Proofs.Run.Course

namespace TextOverride

/-- An assignment has come into a text, with a line ending on one side of it. -/
inductive Inserted (name value : Text) : Utf8.Bytes → Utf8.Bytes → Prop
  | ended (before after : Text) (ending : LineEnding) :
      Inserted name value (Utf8.encode (before ++ after))
        (Utf8.encode
          (before ++ (Injection.assignment name value ++ ending.text) ++ after))
  | led (before after : Text) (ending : LineEnding) :
      Inserted name value (Utf8.encode (before ++ after))
        (Utf8.encode
          (before ++ (ending.text ++ Injection.assignment name value) ++ after))

private theorem inserted_insert (content : Text)
    (anchor : Fin content.pieces.length) (name value : Text) :
    Inserted name value (Utf8.encode content)
      (Utf8.encode
        (Injection.insert content.pieces anchor name value).flatten) := by
  have hcontent : Injection.upTo content.pieces anchor ++
      Injection.beyond content.pieces anchor = content := by
    rw [Injection.upTo_append_beyond, Text.flatten_pieces]
  cases h : LineEnding.of? (content.pieces.get anchor) with
  | some ending =>
      have hinserted : Inserted name value _ _ :=
        .ended (Injection.upTo content.pieces anchor)
        (Injection.beyond content.pieces anchor) ending
      rwa [hcontent, ← Injection.flatten_insert_of_terminated h] at hinserted
  | none =>
      have hinserted : Inserted name value _ _ :=
        .led (Injection.upTo content.pieces anchor)
        (Injection.beyond content.pieces anchor)
          (LineEnding.dominant content.pieces)
      rwa [hcontent, ← Injection.flatten_insert_of_unterminated h] at hinserted

private theorem Inserted.text {name value : Text} {old new : Utf8.Bytes}
    (h : Inserted name value old new) {text : Text}
    (hold : old = Utf8.encode text) :
    ∃ text', new = Utf8.encode text' ∧ text.Sublist text' := by
  have insertion (before inserted after : Text) :
      (before ++ after).Sublist (before ++ inserted ++ after) :=
    (List.sublist_append_left before inserted).append (List.Sublist.refl after)
  cases h with
  | ended before after ending =>
      rw [← Utf8.encode_injective hold]
      exact ⟨_, rfl, insertion before _ after⟩
  | led before after ending =>
      rw [← Utf8.encode_injective hold]
      exact ⟨_, rfl, insertion before _ after⟩

abbrev History := List (Prompts × Report)

/-- Every report of the history stands for one insertion, the first one first.
The value is the one that the prompts of its run have for it. -/
inductive Insertions : History → Utf8.Bytes → Utf8.Bytes → Prop
  | nil (content : Utf8.Bytes) : Insertions [] content content
  | cons {prompts : Prompts} {report : Report} {value : Text}
      {history : History}
      {old middle new : Utf8.Bytes}
      (hvalue : prompts.get? report.entry.promptKey = some value)
      (hfirst : Inserted report.entry.variableName value old middle)
      (hlater : Insertions history middle new) :
      Insertions ((prompts, report) :: history) old new

private theorem Insertions.append {history later : History}
    {old middle new : Utf8.Bytes} (h : Insertions history old middle)
    (hlater : Insertions later middle new) :
    Insertions (history ++ later) old new := by
  induction h with
  | nil => exact hlater
  | cons hvalue hfirst _ ih => exact .cons hvalue hfirst (ih hlater)

private theorem Insertions.text {history : History} {old new : Utf8.Bytes}
    (h : Insertions history old new) {text : Text}
    (hold : old = Utf8.encode text) :
    ∃ text', new = Utf8.encode text' ∧ text.Sublist text' := by
  induction h generalizing text with
  | nil => exact ⟨text, hold, List.Sublist.refl text⟩
  | cons _ hfirst _ ih =>
      obtain ⟨middle, hmiddle, hsub⟩ := hfirst.text hold
      obtain ⟨text', hnew, hsub'⟩ := ih hmiddle
      exact ⟨text', hnew, hsub.trans hsub'⟩

def History.into (history : History) (t : FileTree) (home place : Place) :
    History :=
  history.filter fun (_, report) =>
    report.outcome.isApplied && report.target.bind (t.place? home) == some place

private theorem History.into_append (history later : History) (t : FileTree)
    (home place : Place) :
    (history ++ later : History).into t home place =
      history.into t home place ++ later.into t home place :=
  List.filter_append history later

private theorem History.into_of_sameShape {t t' : FileTree}
    (h : FileTree.SameShape t t') (history : History) (home place : Place) :
    history.into t home place = history.into t' home place := by
  have hplace : t.place? home = t'.place? home := by
    funext path
    exact h.place? home path
  rw [into, into, hplace]

/-! Insertions into a tree. -/

/-- What one entry of a real run does to a tree: nothing, or one insertion. -/
inductive Settings.Works (s : Settings) (home : Place) (t : FileTree)
    (entry : ManifestEntry) :
    Report → FileTree → Prop
  | untouched {report : Report} (hentry : report.entry = entry)
      (houtcome : report.outcome.isApplied = false) : Works s home t entry
      report t
  | applied {content value name : Text} {target : Path} {directory : Place}
      {mode : Nat}
      (anchor : Fin content.pieces.length)
      (hvalue : s.prompts.get? entry.promptKey = some value)
      (hplace : t.place? home target = some (name :: directory))
      (hfile : t.node? (name :: directory) =
        some (.file (Utf8.encode content) mode)) :
      Works s home t
      entry ⟨entry, .applied, some target, some (anchor + 1), true⟩
        (t.set (name :: directory) (.file (Utf8.encode
          (Injection.insert content.pieces anchor entry.variableName
            value).flatten) mode))

private theorem Settings.Ready.exists_step [FileTree.Device] {s : Settings}
    {process : Nat} {t : FileTree} {home : Place} {entry : ManifestEntry}
    (h : s.Ready process t home entry) (hbounded : s.locator.Bounded)
    (hreal : s.dryRun = false) :
    ∃ report t', s.step process home t entry = .ok (report, t') ∧
      s.Works home t entry report t' := by
  obtain ⟨report, change, hverdict, hstep⟩ := Settings.exists_verdict hbounded h
  refine ⟨report, t.apply change, hstep t (.refl s home entry t), ?_⟩
  cases hverdict with
  | stopped houtcome => exact .untouched rfl houtcome
  | @made edit lines place mode hmakes hlines hplace hfile =>
      obtain ⟨hlt, rfl⟩ := Injection.insert?_eq_ok_iff.mp hlines
      cases place with
      | nil => cases hfile
      | cons name directory =>
          rw [hreal]
          exact .applied ⟨edit.statement.last, hlt⟩ hmakes.value hplace hfile

structure Inserts (history : History) (home : Place)
    (t t' : FileTree) : Prop where
  shape : FileTree.SameShape t t'
  files : ∀ {place content mode}, t.node? place = some (.file content mode) →
    ∃ content', t'.node? place = some (.file content' mode) ∧
      Insertions (history.into t home place) content content'

theorem Inserts.nil (home : Place) (t : FileTree) : Inserts [] home t t where
  shape := FileTree.SameShape.refl t
  files {_ content _} hfile := ⟨content, hfile, .nil content⟩

theorem Inserts.append {history later : History} {home : Place}
    {t t' t'' : FileTree} (h : Inserts history home t t')
    (hlater : Inserts later home t' t'') :
    Inserts (history ++ later) home t t'' where
  shape := h.shape.trans hlater.shape
  files {place _ _} hfile := by
    obtain ⟨middle, hmiddle, hfirst⟩ := h.files hfile
    obtain ⟨content', hfile', hrest⟩ := hlater.files hmiddle
    refine ⟨content', hfile', ?_⟩
    rw [History.into_append, History.into_of_sameShape h.shape later]
    exact hfirst.append hrest

private theorem History.into_of_not_applied {report : Report}
    (h : report.outcome.isApplied = false) (prompts : Prompts) (t : FileTree)
    (home place : Place) :
    History.into [(prompts, report)] t home place = [] := by
  rw [into, List.filter_cons_of_neg, List.filter_nil]
  simp only [h, Bool.false_and, Bool.false_eq_true, not_false_eq_true]

private theorem Settings.Works.inserts {s : Settings} {home : Place}
    {t t' : FileTree} {entry : ManifestEntry} {report : Report}
    (h : s.Works home t entry report t') :
    Inserts [(s.prompts, report)] home t t' := by
  cases h with
  | untouched hentry houtcome =>
      refine ⟨FileTree.SameShape.refl t, ?_⟩
      intro place content mode hfile
      rw [History.into_of_not_applied houtcome]
      exact ⟨content, hfile, .nil content⟩
  | @applied content value name target directory mode anchor hvalue hplace
      hfile =>
      refine ⟨FileTree.sameShape_set hfile _, ?_⟩
      intro place old bits hold
      rw [FileTree.node?_set, History.into]
      -- The report counts for a place exactly if the target leads there.
      by_cases heq : place = name :: directory
      · rw [heq, hfile] at hold
        cases hold
        rw [if_pos heq, List.filter_cons_of_pos]
        · exact ⟨_, rfl, .cons hvalue (inserted_insert content anchor _ value)
            (.nil _)⟩
        · rw [heq]
          exact beq_iff_eq.mpr hplace
      · rw [if_neg heq, List.filter_cons_of_neg]
        · exact ⟨old, hold, .nil old⟩
        · intro hinto
          have hsome : t.place? home target = some place := beq_iff_eq.mp hinto
          rw [hplace] at hsome
          exact heq (Option.some.inj hsome).symm

private theorem Settings.Prepared.exists_steps [FileTree.Device] {s : Settings}
    {process : Nat} {t : FileTree} {home : Place} {manifest : Manifest}
    (h : s.Prepared process t home manifest) (hbounded : s.locator.Bounded)
    (hreal : s.dryRun = false) :
    ∃ summary t', s.steps process home t manifest = .ok (summary, t') ∧
      Inserts (summary.map (s.prompts, ·)) home t t' := by
  -- The shape of the tree is all that the next step asks for, and no step
  -- changes it.
  induction manifest generalizing t with
  | nil => exact ⟨[], t, rfl, .nil home t⟩
  | cons entry rest ih =>
      obtain ⟨report, middle, hstep, hworks⟩ :=
        (h.ready List.mem_cons_self).exists_step hbounded hreal
      obtain ⟨summary, t', hsteps, hlater⟩ := ih (h.tail hbounded hstep)
      exact ⟨report :: summary, t', steps_cons hstep hsteps,
        hworks.inserts.append hlater⟩

/-! Any number of runs. -/

structure Job where
  prompts : Prompts
  allow : AllowList
  base : Path
  manifest : Manifest
  logger : Log.Logger

section

variable [LineScan.Patterns]

def Job.settings (job : Job) : Settings :=
  ⟨job.prompts, job.allow, job.base, false, LineScan.locator⟩

variable {m : Type → Type} [Monad m] [Host m]

def Job.run (job : Job) : ExceptT Misuse m Summary :=
  job.settings.applyAll job.logger job.manifest

def runAll : List Job → ExceptT Misuse m History
  | [] => return []
  | job :: rest => do
      let summary ← job.run
      return summary.map (job.prompts, ·) ++ (← runAll rest)

end

section

variable [FileTree.Device] [LineScan.Patterns]

private theorem exists_runAll {machine : Machine} {jobs : List Job}
    (h : ∀ job ∈ jobs, job.settings.Prepared machine.process machine.tree
      machine.home job.manifest) :
    ∃ history after, machine.perform (runAll jobs) = (.ok history, after) ∧
      Inserts history machine.home machine.tree after.tree := by
  induction jobs generalizing machine with
  | nil => exact ⟨[], machine, rfl, .nil machine.home machine.tree⟩
  | cons job jobs ih =>
      obtain ⟨hjob, hjobs⟩ := List.forall_mem_cons.mp h
      obtain ⟨summary, tree, hsteps, hfirst⟩ :=
        hjob.exists_steps LineScan.locator_bounded rfl
      have hrun : machine.perform job.run = _ :=
        Settings.perform_applyAll job.logger hsteps
      obtain ⟨later, after, hlater, hinserts⟩ :=
        @ih ({ machine with tree }.logAll job.logger summary)
          (fun other hother => by
            simpa using (hjobs other hother).of_sameShape hfirst.shape)
      refine ⟨summary.map (job.prompts, ·) ++ later, after, ?_, ?_⟩
      · rw [runAll, Machine.perform_bind, hrun]
        simp only
        rw [Machine.perform_bind, hlater]
        rfl
      · exact hfirst.append (by simpa using hinserts)

/-- Every file ends as it was, but for one insertion for each applied report
whose target leads to it, in the order of the reports. -/
theorem runs_only_insert (machine : Machine) (jobs : List Job)
    (hprepared : ∀ job ∈ jobs, job.settings.Prepared machine.process
      machine.tree
      machine.home job.manifest) :
    ∃ history after, machine.perform (runAll jobs) = (.ok history, after) ∧
      FileTree.SameShape machine.tree after.tree ∧
      ∀ place content mode, machine.tree.node? place =
        some (.file content mode) →
        ∃ content', after.tree.node? place = some (.file content' mode) ∧
          Insertions (history.into machine.tree machine.home place) content
            content' ∧
          ∀ text, content = Utf8.encode text →
            ∃ text', content' = Utf8.encode text' ∧ text.Sublist text' := by
  obtain ⟨history, after, hrun, hinserts⟩ := exists_runAll hprepared
  refine ⟨history, after, hrun, hinserts.shape, ?_⟩
  intro place content mode hfile
  obtain ⟨content', hfile', hinsertions⟩ := hinserts.files hfile
  exact ⟨content', hfile', hinsertions, fun text htext =>
    hinsertions.text htext⟩

end

def linkedFile : Machine :=
  .holding []
    [(["a.ts".toList],
        .file (Utf8.encode "const P = 1;\n".toList) FileTree.fileMode),
      (["b.ts".toList], .link "a.ts".toList)]

def linkedJobs : List Job :=
  ["b.ts".toList, "a.ts".toList].map fun target =>
    ⟨.ofList [("p".toList, "text".toList)], .ofNames ["P".toList], "/".toList,
      [⟨"p".toList, "P".toList, target⟩], .off⟩

theorem runs_only_insert_linked :
    (∀ job ∈ linkedJobs, job.settings.Prepared linkedFile.process
      linkedFile.tree
      linkedFile.home job.manifest) ∧
      ∃ history after,
        linkedFile.perform (runAll linkedJobs) = (.ok history, after) ∧
        FileTree.SameShape linkedFile.tree after.tree ∧
        ∃ content',
          after.tree.node? ["a.ts".toList] =
            some (.file content' FileTree.fileMode) ∧
          Insertions (history.into linkedFile.tree [] ["a.ts".toList])
            (Utf8.encode "const P = 1;\n".toList) content' := by
  have hwf : linkedFile.tree.WellFormed := by decide
  have hfree : linkedFile.tree.TemporaryFree linkedFile.process :=
    FileTree.temporaryFree_of_nodes (by decide)
  have hlink : linkedFile.tree.canonical? [] "/b.ts".toList =
    some "/a.ts".toList := by cbv
  have hfile : linkedFile.tree.canonical? [] "/a.ts".toList =
    some "/a.ts".toList := by cbv
  have hprepared : ∀ job ∈ linkedJobs, job.settings.Prepared linkedFile.process
      linkedFile.tree linkedFile.home job.manifest :=
    List.forall_mem_cons.mpr
      ⟨⟨hwf, hfree, List.forall_mem_singleton.mpr
          (Settings.follows_of_canonical rfl hlink)⟩,
        List.forall_mem_singleton.mpr ⟨hwf, hfree, List.forall_mem_singleton.mpr
          (Settings.follows_of_canonical rfl hfile)⟩⟩
  obtain ⟨history, after, hrun, hshape, hfiles⟩ :=
    runs_only_insert linkedFile linkedJobs hprepared
  obtain ⟨content', hfile, hinsertions, _⟩ := hfiles ["a.ts".toList] _ _ rfl
  exact ⟨hprepared, history, after, hrun, hshape, content', hfile, hinsertions⟩

end TextOverride
