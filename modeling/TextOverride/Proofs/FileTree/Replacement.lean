import TextOverride.Proofs.FileTree.Canonical
import TextOverride.Proofs.FileTree.Vacancy

namespace TextOverride

namespace FileTree

variable {t t' : FileTree} {process : Nat} {home place directory : Place}
  {path temporary : Path} {name : Text} {content old : Utf8.Bytes} {mode : Nat}

def copyMode [Device] (t : FileTree) (home : Place) (temporary path : Path) :
    Except OsError FileTree :=
  match t.mode? home path with
  | none => .ok t
  | some mode => t.setMode home temporary mode

def install [Device] (t : FileTree) (home : Place) (temporary path : Path)
    (content : Utf8.Bytes) : Except Refusal Unit × FileTree :=
  match t.create home temporary with
  | .error e => (.error ⟨temporary, e⟩, t)
  | .ok (file, created) =>
  match created.write file content with
  | (.error e, written) => (.error ⟨temporary, e⟩, written)
  | (.ok (), written) =>
  match allow (Device.sync file) () with
  | .error e => (.error ⟨temporary, e⟩, written)
  | .ok () =>
  match written.copyMode home temporary path with
  | .error e => (.error ⟨temporary, e⟩, written)
  | .ok ready =>
  match ready.rename home temporary path with
  | .error e => (.error ⟨path, e⟩, ready)
  | .ok renamed => (.ok (), renamed)

def replace [Device] (t : FileTree) (process : Nat) (home : Place) (path : Path)
    (content : Utf8.Bytes) : Except Refusal Unit × FileTree :=
  let path := t.working home path
  let temporary := temporaryPath process path
  match t.install home temporary path content with
  | (.error refusal, left) => (.error refusal, left.removeFile home temporary)
  | (.ok (), replaced) => (.ok (), replaced)

/-! A new file beside what is replaced. -/

/-- Why a new file under a vacant name does not get ready. -/
def refusal? [Device] (t : FileTree) (place : Place) (content : Utf8.Bytes)
    (mode? : Option Nat) : Option OsError :=
  if t.allowsAt Node.writable place.tail = false then some .permissionDenied
  else
    (Device.create place).or <|
      ((Device.write place content).map Prod.snd).or <|
        (Device.sync place).or (mode?.bind (Device.setMode place))

theorem writable_of_refusal? [Device] {bits : Option Nat}
    (h : t.refusal? (name :: directory) content bits = none) :
    t.allowsAt Node.writable directory = true := by
  rw [refusal?] at h
  split at h
  case isTrue => cases h
  case isFalse hwritable => exact (Bool.not_eq_false _).mp hwritable

def LeadsToVacant (t : FileTree) (home : Place) (path : Path)
    (directory : Place) (name : Text) : Prop :=
  ∀ follow, t.resolve home follow path = .ok (.vacant directory name)

namespace LeadsToVacant

theorem node?_eq_none (h : t.LeadsToVacant home path directory name) :
    t.node? (name :: directory) = none :=
  node?_of_resolve_vacant (h true)

theorem resolve_set (h : t.LeadsToVacant home path directory name)
    (content : Utf8.Bytes) (mode : Nat) (follow : Bool) :
    (t.set (name :: directory) (.file content mode)).resolve home follow path =
      .ok (.present (name :: directory)) := by
  have htaken := resolve_taken h.node?_eq_none content mode home follow path
  rw [h follow] at htaken
  exact htaken.of_vacant

theorem allowsAt_set (h : t.LeadsToVacant home path directory name)
    (allows : Nat → Bool) (content : Utf8.Bytes) (mode : Nat) :
    (t.set (name :: directory) (.file content mode)).allowsAt allows directory =
      t.allowsAt allows directory :=
  allowsAt_set_file (isDirectoryAt_of_vacant h.node?_eq_none) content mode
    (open_of_resolve_vacant (h true)).directory allows

theorem removeFile_set (h : t.LeadsToVacant home path directory name)
    (hwritable : t.allowsAt Node.writable directory = true)
    (content : Utf8.Bytes) (mode : Nat) :
    (t.set (name :: directory) (.file content mode)).removeFile home
      path = t := by
  have hnode := node?_set_self t name directory (.file content mode)
  rw [removeFile, h.resolve_set]
  simp only [isDirectoryAt_of_file hnode, List.tail_cons, h.allowsAt_set,
    hwritable, Bool.false_eq_true, Bool.true_eq_false, or_self, if_false,
    erase_set_of_vacant h.node?_eq_none]

private theorem removeFile_self (h : t.LeadsToVacant home path directory name) :
    t.removeFile home path = t := by
  rw [removeFile, h false]

variable [Device]

theorem create (h : t.LeadsToVacant home path directory name) :
    t.create home path =
      if t.allowsAt Node.writable directory = false then
        .error .permissionDenied
      else
        allow (Device.create (name :: directory))
          (name :: directory, t.set (name :: directory)
            (.file [] fileMode)) := by
  rw [FileTree.create, h true]

theorem write (t : FileTree) (name : Text) (directory : Place)
    (content : Utf8.Bytes) (mode : Nat) :
    (t.set (name :: directory) (.file [] mode)).write (name :: directory)
      content =
      match Device.write (name :: directory) content with
      | none => (.ok (), t.set (name :: directory) (.file content mode))
      | some (count, e) =>
          (.error e, t.set (name :: directory)
            (.file (content.take count) mode)) := by
  have hfill (content : Utf8.Bytes) :
      (t.set (name :: directory) (.file [] mode)).fill (name :: directory)
      content =
        t.set (name :: directory) (.file content mode) := by
    rw [fill, node?_set_self]
    exact set_set t (name :: directory) _ _
  rw [FileTree.write]
  rcases Device.write (name :: directory) content with _ | ⟨count, e⟩
  · exact congrArg _ (hfill content)
  · exact congrArg _ (hfill (content.take count))

theorem copyMode (h : t.LeadsToVacant home temporary directory name)
    (path : Path) (content : Utf8.Bytes) :
    (t.set (name :: directory) (.file content fileMode)).copyMode home temporary
        path =
      match (t.set (name :: directory) (.file content fileMode)).mode? home
        path with
      | none => .ok (t.set (name :: directory) (.file content fileMode))
      | some mode =>
          allow (Device.setMode (name :: directory) mode)
            (t.set (name :: directory) (.file content mode)) := by
  rw [FileTree.copyMode]
  split
  case h_1 => rfl
  case h_2 mode _ =>
    rw [setMode, h.resolve_set]
    simp only [node?_set_self, withMode, set_set]

/-- What is left of a file that did not get ready can be removed. -/
theorem install_refused (h : t.LeadsToVacant home temporary directory name)
    (path : Path) {e : OsError}
    (hrefusal : t.refusal? (name :: directory) content
      ((t.set (name :: directory) (.file content fileMode)).mode? home path) =
        some e) :
    ∃ left, t.install home temporary path content =
        (.error ⟨temporary, e⟩, left) ∧
      left.removeFile home temporary = t := by
  rw [refusal?] at hrefusal
  rw [install, h.create]
  by_cases hwritable : t.allowsAt Node.writable directory = false
  · rw [List.tail_cons, if_pos hwritable] at hrefusal
    cases hrefusal
    rw [if_pos hwritable]
    exact ⟨t, rfl, h.removeFile_self⟩
  rw [List.tail_cons, if_neg hwritable] at hrefusal
  rw [if_neg hwritable]
  have hremoved := h.removeFile_set ((Bool.not_eq_false _).mp hwritable)
  cases hcreate : Device.create (name :: directory) with
  | some refused =>
      rw [hcreate, Option.some_or] at hrefusal
      cases hrefusal
      exact ⟨t, rfl, h.removeFile_self⟩
  | none =>
  rw [hcreate, Option.none_or] at hrefusal
  simp only [allow, write]
  rcases hwrite : Device.write (name :: directory) content with
    _ | ⟨count, refused⟩
  case some =>
    rw [hwrite, Option.map_some, Option.some_or] at hrefusal
    cases hrefusal
    exact ⟨_, rfl, hremoved _ fileMode⟩
  rw [hwrite, Option.map_none, Option.none_or] at hrefusal
  simp only
  cases hsync : Device.sync (name :: directory) with
  | some refused =>
      rw [hsync, Option.some_or] at hrefusal
      cases hrefusal
      exact ⟨_, rfl, hremoved _ fileMode⟩
  | none =>
  rw [hsync, Option.none_or] at hrefusal
  obtain ⟨mode, hmode, hset⟩ := Option.bind_eq_some_iff.mp hrefusal
  simp only [h.copyMode, hmode, hset, allow]
  exact ⟨_, rfl, hremoved _ fileMode⟩

theorem install_ready (h : t.LeadsToVacant home temporary directory name)
    (path : Path) {bits : Option Nat}
    (hbits : (t.set (name :: directory) (.file content fileMode)).mode?
      home path =
      bits)
    (hrefusal : t.refusal? (name :: directory) content bits = none) :
    t.install home temporary path content =
      match (t.set (name :: directory)
        (.file content (bits.getD fileMode))).rename home temporary path with
      | .error e => (.error ⟨path, e⟩,
          t.set (name :: directory) (.file content (bits.getD fileMode)))
      | .ok renamed => (.ok (), renamed) := by
  rw [refusal?] at hrefusal
  split at hrefusal
  case isTrue => cases hrefusal
  case isFalse hwritable =>
  obtain ⟨hcreate, hwrite, hsync, hset⟩ := by
    simpa only [Option.or_eq_none_iff, Option.map_eq_none_iff] using hrefusal
  rw [List.tail_cons] at hwritable
  rw [install, h.create, if_neg hwritable]
  simp only [allow, hcreate, write, hwrite, hsync, h.copyMode, hbits]
  cases bits with
  | none => rfl
  | some mode =>
      rw [Option.bind_some] at hset
      simp only [hset]
      rfl

theorem rename (h : t.LeadsToVacant home temporary directory name)
    (content : Utf8.Bytes) (mode : Nat) (path : Path) :
    (t.set (name :: directory) (.file content mode)).rename home
      temporary path =
      match (t.set (name :: directory) (.file content mode)).slot home path with
      | .error e => .error e
      | .ok slot =>
          if slot.closed then .error .notDirectory
          else if t.allowsAt Node.writable directory = false ∨
              (t.set (name :: directory) (.file content mode)).allowsAt
                Node.writable slot.place.tail = false then
            .error .permissionDenied
          else if (t.set (name :: directory) (.file content mode)).isDirectoryAt
              slot.place then
            .error .isDirectory
          else
            allow (Device.rename (name :: directory) slot.place)
              (t.set slot.place (.file content mode)) := by
  rw [FileTree.rename, h.resolve_set]
  simp only [node?_set_self, List.tail_cons, h.allowsAt_set,
    erase_set_of_vacant h.node?_eq_none]
  cases (t.set (name :: directory) (.file content mode)).slot home path with
  | error e => rfl
  | ok slot => rfl

private theorem rename_cases (h : t.LeadsToVacant home temporary directory name)
    (content : Utf8.Bytes) (mode : Nat) (path : Path) :
    (∃ e, (t.set (name :: directory) (.file content mode)).rename home temporary
        path = .error e) ∨
      ∃ place,
        (t.set (name :: directory) (.file content mode)).slot home path =
            .ok ⟨place, false⟩ ∧
          t.isDirectoryAt place = false ∧
          (t.set (name :: directory) (.file content mode)).rename home temporary
            path = .ok (t.set place (.file content mode)) := by
  rw [h.rename]
  rcases (t.set (name :: directory) (.file content mode)).slot home path with
    e | ⟨place, closed⟩
  · exact .inl ⟨e, rfl⟩
  simp only
  split
  case isTrue => exact .inl ⟨_, rfl⟩
  case isFalse hclosed =>
  split
  case isTrue => exact .inl ⟨_, rfl⟩
  case isFalse =>
  split
  case isTrue => exact .inl ⟨_, rfl⟩
  case isFalse hplace =>
  rw [isDirectoryAt_set_file (isDirectoryAt_of_vacant h.node?_eq_none),
    Bool.not_eq_true] at hplace
  rw [Bool.not_eq_true] at hclosed
  cases Device.rename (name :: directory) place with
  | some e => exact .inl ⟨e, rfl⟩
  | none =>
      exact .inr ⟨place, congrArg (Except.ok ∘ Slot.mk place) hclosed,
        hplace, rfl⟩

theorem rename_beside {other : Text}
    (h : t.LeadsToVacant home temporary directory other)
    (hends : t.EndsIn home path directory name)
    (hnot : t.isDirectoryAt (name :: directory) = false)
    (hwritable : t.allowsAt Node.writable directory = true)
    (content : Utf8.Bytes) (mode : Nat) :
    (t.set (other :: directory) (.file content mode)).rename home
      temporary path =
      allow (Device.rename (other :: directory) (name :: directory))
        (t.set (name :: directory) (.file content mode)) := by
  have hdirectories := isDirectoryAt_set_file
    (isDirectoryAt_of_vacant h.node?_eq_none) content mode
  rw [h.rename, (hends.set_vacant h.node?_eq_none content mode).slot_eq]
  simp only [List.tail_cons, h.allowsAt_set, hwritable, hdirectories, hnot,
    Bool.true_eq_false, Bool.false_eq_true, or_self, if_false]

end LeadsToVacant

/-! The whole replacement. -/

/-- Nothing is found under the name of the temporary file. -/
def TemporaryUnused (t : FileTree) (process : Nat) (home : Place)
    (path : Path) :
    Prop :=
  ∀ place, t.resolve home false (temporaryPath process (t.working home path)) ≠
    .ok (.present place)

theorem TemporaryFree.temporaryUnused (h : t.TemporaryFree process)
    (home : Place) (path : Path) : t.TemporaryUnused process home path :=
  h.unused home (t.working home path)

theorem TemporaryUnused.of_sameShape (h : t.TemporaryUnused process home path)
    (hshape : SameShape t t') : t'.TemporaryUnused process home path := by
  intro place
  rw [← hshape.working, ← hshape.resolve]
  exact h place

theorem temporaryUnused_of_vacant
    (h : t.resolve home false (temporaryPath process (t.working home path)) =
      .ok (.vacant directory name)) : t.TemporaryUnused process home path := by
  intro place hplace
  cases h.symm.trans hplace

theorem EndsIn.temporaryUnused
    (h : t.EndsIn home (t.working home path) directory name)
    (hvacant :
      t.node? (temporaryName process (t.working home path) :: directory) =
      none) : t.TemporaryUnused process home path := by
  have htemporary := h.temporary process
  intro place hplace
  split at htemporary
  case isTrue => cases (htemporary false).symm.trans hplace
  case isFalse => exact (htemporary.present_of_resolve hplace).2 hvacant

private theorem replace_steps [Device]
    (hunused : t.TemporaryUnused process home path) (content : Utf8.Bytes) :
    (∃ refusal, t.replace process home path content = (.error refusal, t)) ∨
      ∃ directory name place bits,
        t.node? (name :: directory) = none ∧
          (t.set (name :: directory) (.file content fileMode)).mode? home
            (t.working home path) = bits ∧
          (t.set (name :: directory) (.file content (bits.getD fileMode))).slot
            home
            (t.working home path) = .ok ⟨place, false⟩ ∧
          t.isDirectoryAt place = false ∧
          t.replace process home path content =
            (.ok (), t.set place (.file content (bits.getD fileMode))) := by
  have hfollow := resolve_follow hunused
  rw [TemporaryUnused] at hunused
  rw [replace]
  -- What follows is about the working path alone.
  generalize t.working home path = path at hunused hfollow ⊢
  cases hresolve : t.resolve home true (temporaryPath process path) with
  | error e =>
      rw [hresolve] at hfollow
      left
      simp only [install, create, hresolve, removeFile, ← hfollow]
      exact ⟨_, rfl⟩
  | ok found =>
  rw [hresolve] at hfollow
  cases found with
  | present place => exact absurd hfollow.symm (hunused place)
  | vacant directory name =>
  have hvacant :
      t.LeadsToVacant home (temporaryPath process path) directory name := by
    rintro (_ | _)
    · exact hfollow.symm
    · exact hresolve
  obtain ⟨bits, hbits⟩ : ∃ bits,
      (t.set (name :: directory) (.file content fileMode)).mode? home path =
        bits := ⟨_, rfl⟩
  cases hrefusal : t.refusal? (name :: directory) content bits with
  | some e =>
      obtain ⟨left, hinstall, hremoved⟩ :=
        hvacant.install_refused path (hbits ▸ hrefusal)
      left
      simp only [hinstall, hremoved]
      exact ⟨_, rfl⟩
  | none =>
  simp only [hvacant.install_ready path hbits hrefusal]
  -- Only the rename can still be refused, and then the new file is removed.
  rcases hvacant.rename_cases content (bits.getD fileMode) path with
    ⟨e, hrename⟩ | ⟨place, hslot, hplace, hrename⟩
  · left
    simp only [hrename,
      hvacant.removeFile_set (writable_of_refusal? hrefusal)]
    exact ⟨_, rfl⟩
  · right
    simp only [hrename]
    exact ⟨directory, name, place, bits, hvacant.node?_eq_none, hbits, hslot,
      hplace, rfl⟩

theorem EndsIn.mode?_set (h : t.EndsIn home path directory name)
    (hfile : t.node? (name :: directory) = some (.file old mode))
    {new : Text} {within : Place} (hvacant : t.node? (new :: within) = none)
    (content : Utf8.Bytes) (bits : Nat) :
    (t.set (new :: within) (.file content bits)).mode? home path =
      some mode := by
  have hne : name :: directory ≠ new :: within := by
    intro heq
    rw [heq, hvacant] at hfile
    cases hfile
  have hkept := (node?_set_of_ne hne (.file content bits)).trans hfile
  have hresolve := (h.set_vacant hvacant content bits).resolve_file hkept true
  rw [mode?, place?_eq_some_iff.mpr hresolve]
  simp only [Option.bind_eq_bind, Option.bind_some, hkept]
  rfl

/-- The permission bits of a new file are those that it had, if the path leads
to no other file. -/
private theorem mode?_of_missing
    (hmissing : ∀ found, t.resolve home true path ≠ .ok (.present found))
    (hvacant : t.node? (name :: directory) = none) (content : Utf8.Bytes) :
    ((t.set (name :: directory) (.file content fileMode)).mode? home path).getD
      fileMode = fileMode := by
  rw [mode?]
  cases hplace : (t.set (name :: directory) (.file content fileMode)).place?
    home
      path with
  | none => rfl
  | some place =>
      have htaken := resolve_taken hvacant content fileMode home true path
      rw [place?_eq_some_iff.mp hplace] at htaken
      rcases htaken.of_present with hresolve | rfl
      · exact absurd hresolve (hmissing place)
      · simp only [Option.bind_eq_bind, Option.bind_some, node?_set_self]
        rfl

/-- A replacement that is refused leaves the tree as it was. One that is not
gives a file to the name that the path ends in. -/
theorem replace_cases [Device] (hunused : t.TemporaryUnused process home path)
    (content : Utf8.Bytes) :
    (∃ refusal, t.replace process home path content = (.error refusal, t)) ∨
      ∃ directory name mode,
        t.EndsIn home (t.working home path) directory name ∧
          t.isDirectoryAt (name :: directory) = false ∧
          (∀ old bits, t.node? (name :: directory) = some (.file old bits) →
            mode = bits) ∧
          ((∀ found, t.resolve home true (t.working home path) ≠
            .ok (.present found)) → mode = fileMode) ∧
          t.replace process home path content =
            (.ok (), t.set (name :: directory) (.file content mode)) := by
  rcases replace_steps hunused content with
    hrefused
      | ⟨within, free, place, bits, hvacant, hbits, hslot, hnot, hreplace⟩
  · exact .inl hrefused
  obtain ⟨directory, name, hends, rfl⟩ := exists_of_slot hslot
  have hends := EndsIn.of_set_vacant hvacant hends
  refine .inr ⟨directory, name, _, hends, hnot, ?_, ?_, hreplace⟩
  · intro old mode hfile
    rw [← hbits, hends.mode?_set hfile hvacant content fileMode,
      Option.getD_some]
  · intro hmissing
    rw [← hbits, mode?_of_missing hmissing hvacant content]

/-- What is in the way of the replacement of a file, the first thing first. -/
def obstacle? [Device] (t : FileTree) (process : Nat) (path : Path)
    (place : Place) (content : Utf8.Bytes) (mode : Nat) : Option Refusal :=
  let temporary := temporaryPath process path
  let beside := temporaryName process path :: place.tail
  if pathLimit ≤ temporary.byteSize ∨
      nameLimit < (temporaryName process path).byteSize then
    some ⟨temporary, .nameTooLong⟩
  else
    ((t.refusal? beside content (some mode)).map (Refusal.mk temporary)).or
      ((Device.rename beside place).map (Refusal.mk path))

theorem obstacle?_congr [Device]
    (h : t'.allowsAt Node.writable place.tail =
      t.allowsAt Node.writable place.tail)
    (process : Nat) (path : Path) (content : Utf8.Bytes) (mode : Nat) :
    t'.obstacle? process path place content mode =
      t.obstacle? process path place content mode := by
  rw [obstacle?, obstacle?, refusal?, refusal?, List.tail_cons, h]

/-- A file is replaced as a whole, unless there is something in the way. -/
theorem WellFormed.replace_file [Device] (hwf : t.WellFormed)
    (hunused : t.TemporaryUnused process home path)
    (hplace : t.resolve home false (t.working home path) = .ok (.present place))
    (hfile : t.node? place = some (.file old mode)) (content : Utf8.Bytes) :
    t.replace process home path content =
      match t.obstacle? process (t.working home path) place content mode with
      | some refusal => (.error refusal, t)
      | none => (.ok (), t.set place (.file content mode)) := by
  have hnot := isDirectoryAt_of_file hfile
  rw [TemporaryUnused] at hunused
  rw [replace, obstacle?]
  generalize t.working home path = path at hunused hplace ⊢
  obtain ⟨directory, name, rfl, hends⟩ := hwf.endsIn_of_file hplace hnot
  have htemporary := hends.temporary process
  split at htemporary
  case isTrue hlong =>
    rw [if_pos hlong]
    simp only [install, create, htemporary, removeFile]
  case isFalse hshort =>
  rw [if_neg hshort, List.tail_cons]
  have hvacant : t.node? (temporaryName process path :: directory) = none := by
    refine Decidable.byContradiction fun htaken => ?_
    apply hunused (temporaryName process path :: directory)
    rw [htemporary.resolve_last, if_neg htaken]
  have hleads : t.LeadsToVacant home (temporaryPath process path) directory
      (temporaryName process path) := htemporary.resolve_vacant hvacant
  have hbits := hends.mode?_set hfile hvacant content fileMode
  cases hrefusal : t.refusal? (temporaryName process path :: directory) content
      (some mode) with
  | some e =>
      obtain ⟨left, hinstall, hremoved⟩ :=
        hleads.install_refused path (hbits ▸ hrefusal)
      simp only [hinstall, hremoved, Option.map_some, Option.some_or]
  | none =>
  have hwritable := writable_of_refusal? hrefusal
  simp only [hleads.install_ready path hbits hrefusal, Option.getD_some,
    hleads.rename_beside hends hnot hwritable, Option.map_none, Option.none_or]
  cases Device.rename (temporaryName process path :: directory)
      (name :: directory) with
  | some e =>
      simp only [allow, Option.map_some, hleads.removeFile_set hwritable]
  | none => rfl

end FileTree

end TextOverride
