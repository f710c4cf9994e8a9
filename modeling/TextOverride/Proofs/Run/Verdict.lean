import TextOverride.Proofs.Run.Steps

namespace TextOverride

namespace FileTree

variable {t t' : FileTree} {home : Place} {path : Path}

theorem SameShape.readText (h : SameShape t t')
    (hfile : ∀ place content mode, t.place? home path = some place →
      t.node? place = some (.file content mode) →
      t'.node? place = t.node? place) :
    t'.readText home path = t.readText home path := by
  have hread : t'.read home path = t.read home path := by
    rw [read, read, ← h.resolve]
    cases hresolve : t.resolve home true path with
    | error e => rfl
    | ok found =>
        cases found with
        | vacant directory name => rfl
        | present place =>
            have hnode : t'.node? place = t.node? place := by
              cases hnode : t.node? place with
              | none => exact h.node?_eq_none_iff.mp hnode
              | some node =>
                  cases node with
                  | file content mode =>
                      rw [hfile place content mode
                        (place?_eq_some_iff.mpr hresolve) hnode, hnode]
                  | directory mode => exact h.directory hnode
                  | link target => exact h.link hnode
            simp only [hnode]
  rw [FileTree.readText, FileTree.readText, hread]

def apply (t : FileTree) : Option (Place × Node) → FileTree
  | none => t
  | some (place, node) => t.set place node

end FileTree

namespace Injection

theorem insert?_eq_ok_iff {lines : List Text} {anchor : Nat} {name value : Text}
    {patched : List Text} :
    insert? lines anchor name value = .ok patched ↔
      ∃ hlt : anchor < lines.length,
        patched = insert lines ⟨anchor, hlt⟩ name value := by
  rw [insert?]
  by_cases hlt : anchor < lines.length
  · rw [dif_pos hlt, Except.ok.injEq]
    constructor
    · intro h
      exact ⟨hlt, h.symm⟩
    · rintro ⟨_, h⟩
      exact h.symm
  · rw [dif_neg hlt]
    constructor
    · intro h
      cases h
    · rintro ⟨h, _⟩
      exact absurd h hlt

end Injection

/-! Entries that are carried out. -/

/-- A change that an entry asks for: the value, the target and its text, and the
statement that the assignment follows. -/
structure Edit where
  value : Text
  target : Path
  content : Text
  statement : Statement

namespace Edit

def lines? (edit : Edit) (name : Text) : Except Misuse (List Text) :=
  Injection.insert? edit.content.pieces edit.statement.last name edit.value

def report (edit : Edit) (entry : ManifestEntry) (written : Bool) : Report :=
  ⟨entry, .applied, some edit.target, some (edit.statement.last + 1), written⟩

end Edit

namespace Settings

variable {s : Settings} {process : Nat} {home : Place} {t t' : FileTree}
    {entry : ManifestEntry}
  {edit : Edit} {lines : List Text} {place : Place}

def Reaches (s : Settings) (t : FileTree) (home : Place) (entry : ManifestEntry)
    (place : Place) :
    Prop :=
  ∃ target content mode, Path.confine? s.base entry.targetFile = some target ∧
    t.place? home target = some place ∧
    t.node? place = some (.file content mode)

theorem Reaches.of_sameShape (h : s.Reaches t home entry place)
    (hshape : FileTree.SameShape t t') : s.Reaches t' home entry place := by
  obtain ⟨target, content, mode, hconfine, hplace, hfile⟩ := h
  obtain ⟨content', hfile'⟩ := hshape.file hfile
  exact ⟨target, content', mode, hconfine,
    (hshape.place? home target).symm.trans hplace, hfile'⟩

theorem Reaches.place_eq (h : s.Reaches t home entry place) {target : Path}
    (hconfine : Path.confine? s.base entry.targetFile = some target) :
    t.place? home target = some place := by
  obtain ⟨found, _, _, hfound, hplace, _⟩ := h
  rwa [Option.some.inj (hconfine.symm.trans hfound)]

/-- Where the target of the entry leads to a node, it can be followed there. -/
def Follows (s : Settings) (t : FileTree) (home : Place)
    (entry : ManifestEntry) :
    Prop :=
  ∀ target, Path.confine? s.base entry.targetFile = some target →
    t.Followable home target

theorem Follows.of_sameShape (h : s.Follows t home entry)
    (hshape : FileTree.SameShape t t') : s.Follows t' home entry :=
  fun target hconfine => (h target hconfine).of_sameShape hshape

theorem follows_of_canonical {target real : Path}
    (hconfine : Path.confine? s.base entry.targetFile = some target)
    (h : t.canonical? home target = some real) : s.Follows t home entry := by
  intro path hpath
  cases hconfine.symm.trans hpath
  exact FileTree.followable_of_canonical h

/-- The target can be replaced, as far as the names in the tree go. -/
structure Ready (s : Settings) (process : Nat) (t : FileTree) (home : Place)
    (entry : ManifestEntry) : Prop where
  wellFormed : t.WellFormed
  unused : ∀ target, Path.confine? s.base entry.targetFile = some target →
    ∀ place, s.Reaches t home entry place →
    t.TemporaryUnused process home target
  follows : s.Follows t home entry

private theorem Ready.of_sameShape (h : s.Ready process t home entry)
    (hshape : FileTree.SameShape t t') : s.Ready process t' home entry where
  wellFormed := h.wellFormed.of_sameShape hshape
  unused target hconfine place hreaches :=
    (h.unused target hconfine place
      (hreaches.of_sameShape hshape.symm)).of_sameShape hshape
  follows := h.follows.of_sameShape hshape

theorem Follows.ready (h : s.Follows t home entry) (hwf : t.WellFormed)
    (hfree : t.TemporaryFree process) : s.Ready process t home entry where
  wellFormed := hwf
  unused target _ _ _ := hfree.temporaryUnused home target
  follows := h

/-- The trees have one shape, and one content where the entry is about. -/
structure SameFor (s : Settings) (home : Place) (entry : ManifestEntry)
    (t t' : FileTree) :
    Prop where
  shape : FileTree.SameShape t t'
  file : ∀ place, s.Reaches t home entry place → t'.node? place = t.node? place

theorem SameFor.refl (s : Settings) (home : Place) (entry : ManifestEntry)
    (t : FileTree) :
    s.SameFor home entry t t where
  shape := .refl t
  file _ _ := rfl

/-- What the entry looks at is the same, wherever the walks to it start. -/
structure Alike (s : Settings) (entry : ManifestEntry) (home : Place)
    (t : FileTree) (home' : Place) (t' : FileTree) : Prop where
  place : ∀ target, Path.confine? s.base entry.targetFile = some target →
    t'.place? home' target = t.place? home target
  readText : ∀ target, Path.confine? s.base entry.targetFile = some target →
    t'.readText home' target = t.readText home target
  working : ∀ target, Path.confine? s.base entry.targetFile = some target →
    ∀ place, s.Reaches t home entry place →
      t'.working home' target = t.working home target
  file : ∀ place, s.Reaches t home entry place → t'.node? place = t.node? place
  writable : ∀ place, s.Reaches t home entry place →
    t'.allowsAt Node.writable place.tail = t.allowsAt Node.writable place.tail

theorem Alike.present {home' : Place} (h : s.Alike entry home t home' t')
    {target : Path}
    (hconfine : Path.confine? s.base entry.targetFile = some target) :
    t'.present home' target = t.present home target := by
  rw [FileTree.present, FileTree.present, h.place target hconfine]

theorem SameFor.alike (h : s.SameFor home entry t t') :
    s.Alike entry home t home t' where
  place target _ := (h.shape.place? home target).symm
  readText target hconfine :=
    h.shape.readText fun place content mode hplace hfile =>
    h.file place ⟨target, content, mode, hconfine, hplace, hfile⟩
  working target _ _ _ := (h.shape.working home target).symm
  file := h.file
  writable place _ := (h.shape.allowsAt Node.writable place.tail).symm

/-! Entries that can be carried out. -/

/-- The entry asks for the change, and nothing before it is in its way. -/
structure Plans (s : Settings) (home : Place) (t : FileTree)
    (entry : ManifestEntry) (edit : Edit) : Prop where
  value : s.prompts.get? entry.promptKey = some edit.value
  value_ne_nil : edit.value ≠ []
  allowed : s.allow.contains entry.variableName = true
  relative : Path.isAbsolute entry.targetFile = false
  inside : Path.parent ∉ Path.names entry.targetFile
  target : edit.target = Path.join s.base entry.targetFile
  present : t.present home edit.target = true
  content : t.readText home edit.target = .ok edit.content
  statement : s.locator.locate edit.content.pieces entry.variableName =
    .ok edit.statement

namespace Plans

theorem confine (h : s.Plans home t entry edit) :
    Path.confine? s.base entry.targetFile = some edit.target :=
  Path.confine?_eq_some_iff.mpr ⟨h.relative, h.inside, h.target⟩

theorem screen (h : s.Plans home t entry edit) :
    s.screen entry = .ok (edit.value, edit.target) :=
  screen_eq_ok_iff.mpr ⟨h.value, h.value_ne_nil, h.allowed, h.confine⟩

theorem exists_lines (h : s.Plans home t entry edit)
    (hbounded : s.locator.Bounded) :
    ∃ lines, edit.lines? entry.variableName = .ok lines :=
  ⟨_, Injection.insert?_eq_ok_iff.mpr ⟨hbounded.last_lt h.statement, rfl⟩⟩

theorem patch (h : s.Plans home t entry edit)
    (hlines : edit.lines? entry.variableName = .ok lines) :
    s.patch edit.content entry.variableName edit.value =
      .ok (.ok ⟨edit.statement.last, lines.flatten⟩) := by
  rw [Edit.lines?] at hlines
  rw [Settings.patch]
  simp only [h.statement, hlines]
  rfl

theorem unique {edit' : Edit} (h : s.Plans home t entry edit)
    (h' : s.Plans home t entry edit') :
    edit = edit' := by
  have hvalue := Option.some.inj (h.value.symm.trans h'.value)
  have htarget := h.target.trans h'.target.symm
  have hcontent : edit.content = edit'.content :=
    Except.ok.inj (h.content.symm.trans (htarget ▸ h'.content))
  have hstatement : edit.statement = edit'.statement :=
    Except.ok.inj (h.statement.symm.trans (hcontent ▸ h'.statement))
  cases edit
  cases edit'
  cases hvalue
  cases htarget
  cases hcontent
  cases hstatement
  rfl

theorem congr {home' : Place} (h : s.Plans home t entry edit)
    (halike : s.Alike entry home t home' t') : s.Plans home' t' entry edit :=
  { h with
    present := (halike.present h.confine).trans h.present
    content := (halike.readText _ h.confine).trans h.content }

theorem step_of_dry [FileTree.Device] (h : s.Plans home t entry edit)
    (hlines : edit.lines? entry.variableName = .ok lines)
    (hdry : s.dryRun = true) (process : Nat) :
    s.step process home t entry = .ok (edit.report entry (!s.dryRun), t) := by
  simp only [Settings.step, h.screen, h.present, h.content,
    h.patch hlines, hdry, Bool.true_eq_false, if_false, if_true]
  rfl

theorem step_of_replaced [FileTree.Device] (h : s.Plans home t entry edit)
    (hlines : edit.lines? entry.variableName = .ok lines)
    (hreal : s.dryRun = false) {after : FileTree}
    (hreplace : t.replace process home edit.target (Utf8.encode lines.flatten) =
      (.ok (), after)) :
    s.step process home t entry =
      .ok (edit.report entry (!s.dryRun), after) := by
  simp only [Settings.step, h.screen, h.present, h.content, h.patch hlines,
    hreal, hreplace, Bool.true_eq_false, Bool.false_eq_true, if_false]
  rfl

theorem step_of_refused [FileTree.Device] (h : s.Plans home t entry edit)
    (hlines : edit.lines? entry.variableName = .ok lines)
    (hreal : s.dryRun = false) {refusal : FileTree.Refusal} {after : FileTree}
    (hreplace : t.replace process home edit.target (Utf8.encode lines.flatten) =
      (.error refusal, after)) :
    s.step process home t entry =
      .ok (.untouched entry (.failed (Error.fileNotWritten refusal).display)
        (some edit.target),
        after) := by
  simp only [Settings.step, h.screen, h.present, h.content, h.patch hlines,
    hreal, hreplace, Bool.true_eq_false, Bool.false_eq_true, if_false]

theorem exists_file (h : s.Plans home t entry edit) :
    ∃ place mode, s.Reaches t home entry place ∧
      t.place? home edit.target = some place ∧
      t.node? place = some (.file (Utf8.encode edit.content) mode) := by
  obtain ⟨name, directory, mode, hplace, hfile⟩ :=
    FileTree.exists_of_readText h.content
  exact ⟨_, mode, ⟨edit.target, _, mode, h.confine, hplace, hfile⟩,
    hplace, hfile⟩

end Plans

/-- An entry that asks for no change stops in the same way wherever it sees the
same, and in a dry run as in a real one. -/
theorem plans_or_stops [FileTree.Device] (hbounded : s.locator.Bounded)
    (process : Nat) (home : Place) (t : FileTree) (entry : ManifestEntry) :
    (∃ edit, s.Plans home t entry edit) ∨
      ∃ (outcome : Outcome) (target : Option Path), outcome.isApplied = false ∧
        ∀ dryRun home' t', s.Alike entry home t home' t' →
          { s with dryRun }.step process home' t' entry =
            .ok (.untouched entry outcome target, t') := by
  -- Up to the patch a step does not ask whether it is of a dry run.
  have hscreens (dryRun : Bool) :
      { s with dryRun }.screen entry = s.screen entry := rfl
  have hpatches (dryRun : Bool) : { s with dryRun }.patch = s.patch := rfl
  cases hscreen : s.screen entry with
  | error report =>
      obtain ⟨outcome, rfl, houtcome⟩ := screen_error hscreen
      refine .inr ⟨outcome, none, houtcome, fun dryRun home' t' _ => ?_⟩
      rw [step, hscreens, hscreen]
  | ok pair =>
      obtain ⟨value, target⟩ := pair
      obtain ⟨hvalue, hne, hallowed, hconfine⟩ := screen_eq_ok_iff.mp hscreen
      obtain ⟨hrelative, hinside, htarget⟩ :=
        Path.confine?_eq_some_iff.mp hconfine
      by_cases hpresent : t.present home target = true
      · cases htext : t.readText home target with
        | error flaw =>
            refine .inr ⟨.failed (Error.fileUnreadable target flaw).display,
              some target, rfl, fun dryRun home' t' h => ?_⟩
            simp only [step, hscreens, hscreen, h.present hconfine, hpresent,
              h.readText target hconfine, htext, Bool.true_eq_false, if_false]
        | ok content =>
            rcases patch_cases hbounded content entry.variableName value with
              ⟨reason, _, hpatch⟩ | ⟨statement, hlocate, _⟩
            · refine .inr ⟨.skipped reason.skip, some target, rfl,
                fun dryRun home' t' h => ?_⟩
              simp only [step, hscreens, hscreen, h.present hconfine, hpresent,
                h.readText target hconfine, htext, hpatches, hpatch,
                Bool.true_eq_false, if_false]
            · exact .inl ⟨⟨value, target, content, statement⟩, hvalue, hne,
                hallowed, hrelative, hinside, htarget, hpresent, htext, hlocate⟩
      · refine .inr ⟨.skipped .fileNotFound, some target, rfl,
          fun dryRun home' t' h => ?_⟩
        simp only [step, hscreens, hscreen, h.present hconfine,
          (Bool.not_eq_true _).mp hpresent, if_true]

/-! Verdicts. -/

/-- All that it takes for an entry to be carried out. A dry run does not ask
whether the file can be replaced. -/
structure Makes [FileTree.Device] (s : Settings) (process : Nat) (home : Place)
    (t : FileTree) (entry : ManifestEntry) (edit : Edit) : Prop
    extends s.Plans home t entry edit where
  written : s.dryRun = false →
    ∀ lines, edit.lines? entry.variableName = .ok lines →
    (t.replace process home edit.target (Utf8.encode lines.flatten)).1 = .ok ()

theorem Makes.exists_step [FileTree.Device]
    (h : s.Makes process home t entry edit)
    (hlines : edit.lines? entry.variableName = .ok lines) :
    ∃ after, s.step process home t entry =
      .ok (edit.report entry (!s.dryRun), after) := by
  by_cases hdry : s.dryRun = true
  · exact ⟨t, h.step_of_dry hlines hdry process⟩
  · have hreal := (Bool.not_eq_true _).mp hdry
    exact ⟨_, h.step_of_replaced hlines hreal
      (Prod.ext (h.written hreal lines hlines) rfl)⟩

/-- What an entry comes to: its report, and the node that it changes. -/
inductive Verdict [FileTree.Device] (s : Settings) (process : Nat)
    (home : Place) (t : FileTree) (entry : ManifestEntry) :
    Report → Option (Place × Node) → Prop
  | stopped {outcome : Outcome} {target : Option Path}
      (houtcome : outcome.isApplied = false) :
      Verdict s process home t entry (.untouched entry outcome target) none
  | made {edit : Edit} {lines : List Text} {place : Place} {mode : Nat}
      (hmakes : s.Makes process home t entry edit)
      (hlines : edit.lines? entry.variableName = .ok lines)
      (hplace : t.place? home edit.target = some place)
      (hfile : t.node? place = some (.file (Utf8.encode edit.content) mode)) :
      Verdict s process home t entry (edit.report entry (!s.dryRun))
        (if s.dryRun then none else
          some (place, .file (Utf8.encode lines.flatten) mode))

private theorem Ready.replace [FileTree.Device] {home' : Place}
    (h : s.Ready process t' home' entry)
    (halike : s.Alike entry home t home' t')
    (hplans : s.Plans home t entry edit)
    (hplace : t.place? home edit.target = some place)
    (hreaches : s.Reaches t home entry place) {old : Utf8.Bytes} {mode : Nat}
    (hfile : t.node? place = some (.file old mode)) (content : Utf8.Bytes) :
    t'.replace process home' edit.target content =
      match t.obstacle? process (t.working home edit.target) place content
        mode with
      | some refusal => (.error refusal, t')
      | none => (.ok (), t'.set place (.file content mode)) := by
  have hconfine := hplans.confine
  have hfile' := (halike.file place hreaches).trans hfile
  have hresolve := FileTree.place?_eq_some_iff.mp
    ((halike.place _ hconfine).trans hplace)
  rw [← FileTree.obstacle?_congr (halike.writable place hreaches),
    ← halike.working _ hconfine place hreaches]
  have hreaches' : s.Reaches t' home' entry place :=
    ⟨edit.target, old, mode, hconfine,
      FileTree.place?_eq_some_iff.mpr hresolve, hfile'⟩
  exact h.wellFormed.replace_file (h.unused _ hconfine place hreaches')
    (h.wellFormed.resolve_working (h.follows _ hconfine) hresolve
      (FileTree.isDirectoryAt_of_file hfile')) hfile' content

theorem exists_verdict_alike [FileTree.Device] (hbounded : s.locator.Bounded)
    (hready : s.Ready process t home entry) :
    ∃ report change, s.Verdict process home t entry report change ∧
      ∀ home' t', s.Alike entry home t home' t' →
        s.Ready process t' home' entry →
        s.step process home' t' entry = .ok (report, t'.apply change) := by
  rcases plans_or_stops hbounded process home t entry with
    ⟨edit, hplans⟩ | ⟨outcome, target, houtcome, hstops⟩
  case inr =>
    exact ⟨_, none, .stopped houtcome,
      fun home' t' h _ => hstops s.dryRun home' t' h⟩
  obtain ⟨lines, hlines⟩ := hplans.exists_lines hbounded
  obtain ⟨place, mode, hreaches, hplace, hfile⟩ := hplans.exists_file
  by_cases hdry : s.dryRun = true
  · have hmakes : s.Makes process home t entry edit :=
      ⟨hplans, fun hreal => absurd (hreal.symm.trans hdry) Bool.false_ne_true⟩
    refine ⟨_, _, .made hmakes hlines hplace hfile, fun home' t' h _ => ?_⟩
    rw [(hplans.congr h).step_of_dry hlines hdry process, if_pos hdry]
    rfl
  have hreal := (Bool.not_eq_true _).mp hdry
  have hreplace {home' : Place} {t' : FileTree}
      (h : s.Alike entry home t home' t')
      (hready' : s.Ready process t' home' entry) :=
    hready'.replace h hplans hplace hreaches hfile (Utf8.encode lines.flatten)
  -- The obstacle is told from one tree alone, so it is the same in all of them.
  cases hobstacle : t.obstacle? process (t.working home edit.target) place
      (Utf8.encode lines.flatten) mode with
  | some refusal =>
      simp only [hobstacle] at hreplace
      exact ⟨_, none, .stopped rfl, fun home' t' h hready' =>
        (hplans.congr h).step_of_refused hlines hreal (hreplace h hready')⟩
  | none =>
      simp only [hobstacle] at hreplace
      have hmakes : s.Makes process home t entry edit := by
        refine ⟨hplans, fun _ others hothers => ?_⟩
        cases hlines.symm.trans hothers
        rw [hreplace (SameFor.refl s home entry t).alike hready]
      refine ⟨_, _, .made hmakes hlines hplace hfile,
        fun home' t' h hready' => ?_⟩
      rw [(hplans.congr h).step_of_replaced hlines hreal (hreplace h hready'),
        if_neg hdry]
      rfl

theorem exists_verdict [FileTree.Device] (hbounded : s.locator.Bounded)
    (hready : s.Ready process t home entry) :
    ∃ report change, s.Verdict process home t entry report change ∧
      ∀ t', s.SameFor home entry t t' →
        s.step process home t' entry = .ok (report, t'.apply change) := by
  obtain ⟨report, change, hverdict, hsteps⟩ :=
    exists_verdict_alike hbounded hready
  exact ⟨report, change, hverdict,
    fun t' h => hsteps home t' h.alike (hready.of_sameShape h.shape)⟩

namespace Verdict

variable [FileTree.Device] {report : Report} {change : Option (Place × Node)}

/-- The one node that may change is the file that the entry is about. -/
theorem change_cases (h : s.Verdict process home t entry report change) :
    change = none ∨ ∃ place old mode new,
      change = some (place, .file new mode) ∧
      s.Reaches t home entry place ∧ t.node? place = some (.file old mode) := by
  cases h with
  | stopped => exact .inl rfl
  | @made edit lines place mode hmakes hlines hplace hfile =>
      by_cases hdry : s.dryRun = true
      · exact .inl (if_pos hdry)
      · exact .inr ⟨place, _, mode, _, if_neg hdry,
          ⟨edit.target, _, mode, hmakes.confine, hplace, hfile⟩, hfile⟩

theorem sameShape (h : s.Verdict process home t entry report change) :
    FileTree.SameShape t (t.apply change) := by
  rcases h.change_cases with rfl | ⟨place, old, mode, new, rfl, _, hfile⟩
  · exact .refl t
  · exact FileTree.sameShape_set hfile new

theorem node?_apply (h : s.Verdict process home t entry report change)
    (hplace : ¬ s.Reaches t home entry place) :
    (t.apply change).node? place = t.node? place := by
  rcases h.change_cases with
    rfl | ⟨changed, old, mode, new, rfl, hreaches, hfile⟩
  · rfl
  · refine (FileTree.node?_set_file hfile _ place).trans (if_neg ?_)
    rintro rfl
    exact hplace hreaches

end Verdict

end Settings

end TextOverride
