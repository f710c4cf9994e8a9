import Mathlib
import TextOverride.Proofs.FileTree.Atomicity
import TextOverride.Proofs.Run.Steps

namespace TextOverride

namespace FileTree

variable {t : FileTree} {home place : Place} {path : Path} {text : Text}
  {mode : Nat}

structure ChangedAt (t t' : FileTree) (place : Place) (node : Node) : Prop where
  changed : t'.node? place = some node
  others : ∀ other, other ≠ place → t'.node? other = t.node? other

private theorem changedAt_set (t : FileTree) (name : Text) (directory : Place)
    (node : Node) :
    t.ChangedAt (t.set (name :: directory) node) (name :: directory) node where
  changed := node?_set_self t name directory node
  others other hne := by rw [node?_set, if_neg hne]

private theorem readText_of_file
    (hplace : t.resolve home true path = .ok (.present place))
    (hfile : t.node? place = some (.file (Utf8.encode text) mode))
    (hreadable : Node.readable mode = true) :
    t.readText home path = .ok text := by
  rw [readText_eq_ok_iff, read, hplace]
  simp only [hfile, Node.content, hreadable, if_true]

end FileTree

/-- The path led to a file, which has got the text and kept its permission bits.
All paths lead where they led, and those that are opened as the file read as the
text, if it lets itself be read. -/
structure Overwrites [FileTree.Device] (machine : Machine) (path : Path)
    (text : Text) (tree : FileTree) (place : Place) (mode : Nat) : Prop where
  leads : machine.tree.Leads machine.home path place
  file : ∃ old, machine.tree.node? place = some (.file old mode)
  resolve : ∀ follow other,
    tree.resolve machine.home follow other =
      machine.tree.resolve machine.home follow other
  canonical : ∀ other,
    tree.canonical? machine.home other =
    machine.tree.canonical? machine.home other
  read : Node.readable mode = true → ∀ other,
    tree.resolve machine.home true other = .ok (.present place) →
      Id.run ((readText other : StateM Machine _).run { machine with tree }) =
        (.ok text, { machine with tree })

/-- The path led nowhere, and the name that it ends in has become a file. It
leads there, unless its links had been too many. -/
structure Creates [FileTree.Device] (machine : Machine) (path : Path)
    (text : Text) (tree : FileTree) (place : Place) (mode : Nat) : Prop where
  canonical : machine.tree.canonical? machine.home path = none
  missing : ∀ found,
    machine.tree.resolve machine.home true path ≠ .ok (.present found)
  mode : mode = FileTree.fileMode
  last : (machine.tree.resolve machine.home false path).map
    FileTree.Target.place =
    .ok place
  read : machine.tree.resolve machine.home true path ≠ .error .tooManyLinks →
    tree.resolve machine.home false path = .ok (.present place) ∧
      Id.run ((readText path : StateM Machine _).run { machine with tree }) =
        (.ok text, { machine with tree })

/-- A text is written as a whole, or its path is refused and the machine stays
as it is. Nothing but one file changes, and that is the file that the path leads
to, or the name that a path ends in which leads nowhere. -/
theorem writeText_all_or_nothing [FileTree.Device] (machine : Machine)
    (path : Path) (text : Text) (hwf : machine.tree.WellFormed)
    (hunused : machine.tree.TemporaryUnused machine.process machine.home path) :
    (∃ e, Id.run ((writeText path text : StateM Machine _).run machine) =
        (.error e, machine)) ∨
      ∃ tree place mode,
        Id.run ((writeText path text : StateM Machine _).run machine) =
            (.ok (), { machine with tree }) ∧
          machine.tree.ChangedAt tree place (.file (Utf8.encode text) mode) ∧
          (machine.tree.Followable machine.home path →
            Overwrites machine path text tree place mode ∨
              Creates machine path text tree place mode) := by
  rcases FileTree.replace_cases hunused (Utf8.encode text) with
    ⟨refusal, hreplace⟩
      | ⟨directory, name, mode, hends, hnot, hold, hnew, hreplace⟩
  · exact .inl ⟨_, Machine.run_writeText hreplace⟩
  have hchanged := FileTree.changedAt_set machine.tree name directory
    (.file (Utf8.encode text) mode)
  refine .inr ⟨_, name :: directory, mode, Machine.run_writeText hreplace,
    hchanged, fun hfollow => ?_⟩
  -- A path that leads nowhere has no canonical form, so its own last name
  -- becomes the file.
  by_cases hleads :
    (∃ real, machine.tree.canonical? machine.home path = some real) ∨
      ∃ found, machine.tree.resolve machine.home true path =
      .ok (.present found)
  · have hplace := hwf.leads_of_endsIn_working hfollow hends hleads
    obtain ⟨old, bits, hfile⟩ := FileTree.file_of_solid hplace.solid hnot
    cases hold old bits hfile
    have hshape := FileTree.sameShape_set hfile (Utf8.encode text)
    refine .inl ⟨hplace, ⟨old, hfile⟩,
      fun follow other => (hshape.resolve machine.home follow other).symm,
      fun other => (hshape.canonical? machine.home other).symm,
      fun hreadable other hother => ?_⟩
    rw [run_readText,
      FileTree.readText_of_file hother hchanged.changed hreadable]
  · obtain ⟨hcanonical, hmissing⟩ := not_or.mp hleads
    have hcanonical : machine.tree.canonical? machine.home path = none :=
      Option.eq_none_iff_forall_ne_some.mpr (not_exists.mp hcanonical)
    have hmissing := not_exists.mp hmissing
    rw [FileTree.working, hcanonical, Option.getD_none] at hends hnew
    cases hnew hmissing
    refine .inr ⟨hcanonical, hmissing, rfl, ?_, fun hlinks => ?_⟩
    · rw [hends.resolve_last]
      split
      case isTrue => rfl
      case isFalse => rfl
    · have hresolve := hends.resolve_set hnot hmissing hlinks (Utf8.encode text)
        FileTree.fileMode
      rw [run_readText, FileTree.readText_of_file (hresolve true)
        hchanged.changed
        (by decide)]
      exact ⟨hresolve false, rfl⟩

def linkedFiles : Machine :=
  .holding [] [(["d".toList], .directory FileTree.directoryMode),
    (["f".toList, "d".toList], .file (Utf8.encode "old".toList) 0o640),
    (["l".toList], .link "m".toList), (["m".toList], .link "d/f".toList),
    (["n".toList], .link "gone".toList)]

theorem writeText_all_or_nothing_linked :
    linkedFiles.tree.WellFormed ∧
      linkedFiles.tree.TemporaryUnused 7 [] "l".toList ∧
      linkedFiles.tree.TemporaryUnused 7 [] "n".toList ∧
      linkedFiles.tree.Followable [] "l".toList ∧
      linkedFiles.tree.Followable [] "n".toList ∧
      (∃ tree, Id.run ((writeText "l".toList "new".toList :
            StateM Machine _).run linkedFiles) =
              (.ok (), { linkedFiles with tree }) ∧
        tree.node? ["f".toList, "d".toList] =
          some (.file (Utf8.encode "new".toList) 0o640) ∧
        tree.node? ["l".toList] = some (.link "m".toList)) ∧
      ∃ tree, Id.run ((writeText "n".toList "new".toList :
            StateM Machine _).run linkedFiles) =
              (.ok (), { linkedFiles with tree }) ∧
        Id.run ((readText "n".toList : StateM Machine _).run
          { linkedFiles with tree }) =
            (.ok "new".toList, { linkedFiles with tree }) := by
  have hwf : linkedFiles.tree.WellFormed := by decide
  have hvacant : linkedFiles.tree.resolve [] false (FileTree.temporaryPath 7
      (linkedFiles.tree.working [] "l".toList)) =
        .ok (.vacant ["d".toList] ".f.7.tmp".toList) := by cbv
  have hlinked := FileTree.temporaryUnused_of_vacant hvacant
  have hvacant' : linkedFiles.tree.resolve [] false (FileTree.temporaryPath 7
      (linkedFiles.tree.working [] "n".toList)) =
        .ok (.vacant [] ".n.7.tmp".toList) := by cbv
  have hdangling := FileTree.temporaryUnused_of_vacant hvacant'
  have hreal :
      linkedFiles.tree.canonical? [] "l".toList = some "/d/f".toList := by cbv
  have hplace : linkedFiles.tree.resolve [] true "l".toList =
    .ok (.present ["f".toList, "d".toList]) := by cbv
  have hnowhere : linkedFiles.tree.resolve [] true "n".toList =
    .ok (.vacant [] "gone".toList) := by cbv
  have hfollow := FileTree.followable_of_canonical hreal
  have hfollow' : linkedFiles.tree.Followable [] "n".toList := by
    intro place hplace
    cases hnowhere.symm.trans hplace
  refine ⟨hwf, hlinked, hdangling, hfollow, hfollow', ?_, ?_⟩
  · have hdone : (Id.run ((writeText "l".toList "new".toList :
      StateM Machine _).run linkedFiles)).1 = .ok () := by cbv
    rcases writeText_all_or_nothing linkedFiles "l".toList "new".toList hwf
        hlinked with
      ⟨e, hrefused⟩ | ⟨tree, place, mode, hrun, hchanged, hcases⟩
    · rw [hrefused] at hdone
      cases hdone
    rcases hcases hfollow with hover | hnew
    · cases hover.leads.unique _ hplace
      obtain ⟨_, hold⟩ := hover.file
      cases hold
      exact ⟨tree, hrun, hchanged.changed, hchanged.others _ (by decide)⟩
    · exact absurd hplace (hnew.missing _)
  · have hdone : (Id.run ((writeText "n".toList "new".toList :
      StateM Machine _).run linkedFiles)).1 = .ok () := by cbv
    have hnone : linkedFiles.tree.canonical? [] "n".toList = none := by cbv
    rcases writeText_all_or_nothing linkedFiles "n".toList "new".toList hwf
      hdangling with ⟨e, hrefused⟩ | ⟨tree, place, mode, hrun, _, hcases⟩
    · rw [hrefused] at hdone
      cases hdone
    rcases hcases hfollow' with hover | hnew
    · rcases hover.leads.leads with hreal | hplace
      · cases hnone.symm.trans hreal
      · cases hnowhere.symm.trans hplace
    · have hlinks : linkedFiles.tree.resolve [] true "n".toList ≠
          .error .tooManyLinks := by
        intro hlinks
        cases hnowhere.symm.trans hlinks
      exact ⟨tree, hrun, (hnew.read hlinks).2⟩

/-! Paths that a text is written to and not read from. -/

def Path.dotted : Nat → Path → Path
  | 0, path => path
  | count + 1, path => '.' :: separator :: dotted count path

namespace FileTree

variable {t : FileTree} {home : Place} {path : Path}

/-- Names that lead nowhere else make no difference to a canonical form. -/
theorem canonical?_dotted (t : FileTree) (home : Place)
    (hrelative : Path.isAbsolute path = false) (hne : path ≠ []) (count : Nat) :
    t.canonical? home (Path.dotted count path) = t.canonical? home path := by
  induction count with
  | zero => rfl
  | succ count ih =>
      have hdotted : Path.isAbsolute (Path.dotted count path) = false ∧
          Path.dotted count path ≠ [] := by
        cases count with
        | zero => exact ⟨hrelative, hne⟩
        | succ count => exact ⟨rfl, List.cons_ne_nil _ _⟩
      rw [← ih, Path.dotted]
      generalize Path.dotted count path = path at hdotted
      obtain ⟨hrelative, hne⟩ := hdotted
      have hnames : Path.names ('.' :: Path.separator :: path) =
        ['.'] :: Path.names path := rfl
      have horigin : origin home ('.' :: Path.separator :: path) =
          origin home path := by
        rw [origin, origin, hrelative]
        rfl
      have hmem : '\x00' ∈ '.' :: Path.separator :: path ↔ '\x00' ∈ path := by
        rw [List.mem_cons, List.mem_cons, or_iff_right (by decide),
          or_iff_right (by decide)]
      rw [canonical?, canonical?, hnames, horigin,
        real?_trivial (by decide : Path.isTrivial ['.'] = true)]
      simp only [hmem, List.cons_ne_nil, hne, if_false]

private theorem byteSize_dotted (count : Nat) (path : Path) :
    (Path.dotted count path).byteSize = 2 * count + path.byteSize := by
  induction count with
  | zero => exact (Nat.zero_add _).symm
  | succ count ih =>
      have hdot : ('.' : Char).utf8Size = 1 := rfl
      have hseparator : Path.separator.utf8Size = 1 := rfl
      rw [Path.dotted, Text.byteSize_cons, Text.byteSize_cons, ih, hdot,
        hseparator]
      omega

/-- The canonical form of a path can be found where the path is too long. -/
theorem resolve_tooLong {real : Path} (h : t.canonical? home path = some real)
    (hlong : pathLimit ≤ path.byteSize) (follow : Bool) :
    t.resolve home follow path = .error .nameTooLong := by
  obtain ⟨hnul, hne, _⟩ := exists_real?_of_canonical? h
  rw [resolve, if_neg hnul, if_neg hne, if_pos hlong]

private theorem readText_of_error {e : OsError}
    (h : t.resolve home true path = .error e) :
    t.readText home path = .error (.unreadable e) := by
  rw [readText, read, h]

end FileTree

/-- The text is written under a path that cannot be read afterwards. -/
structure Strands [FileTree.Device] (machine : Machine) (path : Path)
    (text : Text) (tree : FileTree) (error : OsError) : Prop where
  unused : machine.tree.TemporaryUnused machine.process machine.home path
  written : Id.run ((writeText path text : StateM Machine _).run machine) =
    (.ok (), { machine with tree })
  unread :
    Id.run ((readText path : StateM Machine _).run { machine with tree }) =
    (.error (.unreadable error), { machine with tree })

def strandedFiles : Machine :=
  .holding [] [(["d".toList], .directory FileTree.directoryMode),
    (["f".toList], .file (Utf8.encode "old".toList) FileTree.fileMode),
    (["g".toList], .file (Utf8.encode "old".toList) 0o200),
    (["l".toList], .link "f".toList), (["x".toList], .link "d".toList)]

def overwritten (name : Text) (mode : Nat) : FileTree :=
  strandedFiles.tree.set [name] (.file (Utf8.encode "new".toList) mode)

def dottedPath : Path := .dotted 2048 "l".toList

/-- Goes through one link more than a path may. -/
def knottedPath : Path :=
  (List.replicate 40 "x/../".toList).flatten ++ "x".toList

theorem strands_of [FileTree.Device] {machine : Machine} {path : Path}
    {text : Text} {tree : FileTree} {error : OsError} {directory : Place}
    {name : Text}
    (hvacant : machine.tree.resolve machine.home false
      (FileTree.temporaryPath machine.process
        (machine.tree.working machine.home path)) =
          .ok (.vacant directory name))
    (hreplace : machine.tree.replace machine.process machine.home path
      (Utf8.encode text) = (.ok (), tree))
    (hread : tree.readText machine.home path = .error (.unreadable error)) :
    Strands machine path text tree error where
  unused := FileTree.temporaryUnused_of_vacant hvacant
  written := Machine.run_writeText hreplace
  unread := by rw [run_readText, hread]

theorem canonical?_dottedPath (t : FileTree) :
    t.canonical? [] dottedPath = t.canonical? [] "l".toList :=
  FileTree.canonical?_dotted t [] rfl (List.cons_ne_nil _ _) 2048

theorem canonical?_overwritten :
    (overwritten "f".toList FileTree.fileMode).canonical? [] dottedPath =
      some "/f".toList := by
  rw [canonical?_dottedPath]
  cbv

/-- The path of a file can be too long for the file to be opened. -/
theorem strands_dotted :
    Strands strandedFiles dottedPath "new".toList
      (overwritten "f".toList FileTree.fileMode) .nameTooLong := by
  have hworking : strandedFiles.tree.working [] dottedPath =
      strandedFiles.tree.working [] "l".toList := by
    have hreal :
        strandedFiles.tree.canonical? [] "l".toList = some "/f".toList := by
      cbv
    rw [FileTree.working, FileTree.working, canonical?_dottedPath, hreal]
    rfl
  have hvacant : strandedFiles.tree.resolve [] false (FileTree.temporaryPath 7
      (strandedFiles.tree.working [] dottedPath)) =
        .ok (.vacant [] ".f.7.tmp".toList) := by
    rw [hworking]
    cbv
  have hreplace : strandedFiles.tree.replace 7 [] dottedPath
      (Utf8.encode "new".toList) =
      (.ok (), overwritten "f".toList FileTree.fileMode) := by
    rw [FileTree.replace, hworking]
    cbv
  have hlong : FileTree.pathLimit ≤ dottedPath.byteSize := by
    have hsize := FileTree.byteSize_dotted 2048 "l".toList
    exact hsize ▸ by decide
  exact strands_of hvacant hreplace
    (FileTree.readText_of_error
      (FileTree.resolve_tooLong canonical?_overwritten hlong true))

/-- A file that can be replaced need not be one that can be read. -/
theorem strands_unreadable :
    Strands strandedFiles "g".toList "new".toList (overwritten "g".toList 0o200)
      .permissionDenied := by
  have hvacant : strandedFiles.tree.resolve [] false (FileTree.temporaryPath 7
      (strandedFiles.tree.working [] "g".toList)) =
        .ok (.vacant [] ".g.7.tmp".toList) := by cbv
  exact strands_of hvacant (by cbv) (by cbv)

set_option maxRecDepth 20000 in
/-- A path can go through the very link that its last name is. -/
theorem strands_knotted :
    Strands strandedFiles knottedPath "new".toList
      (overwritten "x".toList FileTree.fileMode) .notDirectory := by
  have hvacant : strandedFiles.tree.resolve [] false (FileTree.temporaryPath 7
      (strandedFiles.tree.working [] knottedPath)) =
        .ok (.vacant [] ".x.7.tmp".toList) := by cbv
  exact strands_of hvacant (by cbv) (by cbv)

set_option maxRecDepth 20000 in
/-- What has been written is not always read back: the path may be too long to
be opened, the file may refuse to be read, and the path may lead through the
name that it ends in. -/
theorem writeText_strands :
    strandedFiles.tree.WellFormed ∧
      (strandedFiles.tree.canonical? [] dottedPath = some "/f".toList ∧
        strandedFiles.tree.resolve [] true "/f".toList =
          .ok (.present ["f".toList]) ∧
        (overwritten "f".toList FileTree.fileMode).canonical? [] dottedPath =
          some "/f".toList ∧
        (overwritten "f".toList FileTree.fileMode).node? ["l".toList] =
          some (.link "f".toList) ∧
        Strands strandedFiles dottedPath "new".toList
          (overwritten "f".toList FileTree.fileMode) .nameTooLong) ∧
      (strandedFiles.tree.canonical? [] "g".toList = some "/g".toList ∧
        strandedFiles.tree.resolve [] true "g".toList =
          .ok (.present ["g".toList]) ∧
        Strands strandedFiles "g".toList "new".toList
          (overwritten "g".toList 0o200)
          .permissionDenied) ∧
      strandedFiles.tree.canonical? [] knottedPath = none ∧
        strandedFiles.tree.resolve [] true knottedPath = .error .tooManyLinks ∧
        Strands strandedFiles knottedPath "new".toList
          (overwritten "x".toList FileTree.fileMode) .notDirectory := by
  refine ⟨by decide,
    ⟨?_, by cbv, canonical?_overwritten, by decide, strands_dotted⟩,
    ⟨by cbv, by cbv, strands_unreadable⟩, by cbv, by cbv, strands_knotted⟩
  rw [canonical?_dottedPath]
  cbv

end TextOverride
