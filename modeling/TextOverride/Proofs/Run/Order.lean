import Mathlib
import TextOverride.Proofs.Run.Course

namespace TextOverride

namespace Settings

variable {s : Settings} {process : Nat} {home : Place} {t t' : FileTree}

/-- No file is what both entries are about. -/
def Apart (s : Settings) (t : FileTree) (home : Place)
    (entry other : ManifestEntry) : Prop :=
  ∀ place, s.Reaches t home entry place → ¬ s.Reaches t home other place

section

variable {entry other : ManifestEntry} {report report' : Report}
  {change change' : Option (Place × Node)}

private theorem Apart.symm (h : s.Apart t home entry other) :
    s.Apart t home other entry :=
  fun place hother hentry => h place hentry hother

theorem Apart.of_sameShape (h : s.Apart t home entry other)
    (hshape : FileTree.SameShape t t') : s.Apart t' home entry other :=
  fun place hentry hother =>
    h place (hentry.of_sameShape hshape.symm) (hother.of_sameShape hshape.symm)

private theorem Verdict.sameFor [FileTree.Device]
    (h : s.Verdict process home t entry report change)
    (hapart : s.Apart t home entry other) :
    s.SameFor home other t (t.apply change) where
  shape := h.sameShape
  file place hother := h.node?_apply fun hentry => hapart place hentry hother

private theorem Verdict.apply_comm [FileTree.Device]
    (h : s.Verdict process home t entry report change)
    (h' : s.Verdict process home t other report' change')
    (hapart : s.Apart t home entry other) :
    (t.apply change).apply change' = (t.apply change').apply change := by
  rcases h.change_cases with rfl | ⟨place, _, _, _, rfl, hreaches, hfile⟩
  · rfl
  rcases h'.change_cases with rfl | ⟨place', _, _, _, rfl, hreaches', _⟩
  · rfl
  · have hne : place ≠ place' := by
      rintro rfl
      exact hapart place hreaches hreaches'
    exact FileTree.set_comm hne hfile _ _

private theorem Prepared.steps_swap [FileTree.Device] {rest : Manifest}
    {summary : Summary}
    (hprepared : s.Prepared process t home (entry :: other :: rest))
    (hbounded : s.locator.Bounded) (hapart : s.Apart t home entry other)
    (h : s.steps process home t (entry :: other :: rest) =
      .ok (report :: report' :: summary, t')) :
    s.steps process home t (other :: entry :: rest) =
      .ok (report' :: report :: summary, t') := by
  have hready := hprepared.ready List.mem_cons_self
  have hready' :=
    hprepared.ready (List.mem_cons_of_mem entry List.mem_cons_self)
  obtain ⟨r, change, hverdict, hsteps⟩ := exists_verdict hbounded hready
  obtain ⟨r', change', hverdict', hsteps'⟩ := exists_verdict hbounded hready'
  obtain ⟨_, _, _, hreports, hfirst, hlater⟩ := exists_of_steps_cons h
  obtain ⟨_, _, _, hreports', hsecond, hrest⟩ := exists_of_steps_cons hlater
  cases hreports
  cases hreports'
  cases (hsteps t (.refl s home entry t)).symm.trans hfirst
  cases (hsteps' _ (hverdict.sameFor hapart)).symm.trans hsecond
  rw [hverdict.apply_comm hverdict' hapart] at hrest
  exact steps_cons (hsteps' t (.refl s home other t))
    (steps_cons (hsteps _ (hverdict'.sameFor hapart.symm)) hrest)

end

/-! Many entries, each with a key. -/

section

variable {κ : Type} {entry : κ → ManifestEntry} {report : κ → Report}

/-- An entry can wait for entries that it has nothing to do with. -/
theorem Prepared.steps_wait [FileTree.Device] {i : κ} {start rest : List κ}
    (hprepared : s.Prepared process t home ((i :: (start ++ rest)).map entry))
    (hbounded : s.locator.Bounded)
    (hapart : ∀ j ∈ start, s.Apart t home (entry i) (entry j))
    (h : s.steps process home t ((i :: (start ++ rest)).map entry) =
      .ok ((i :: (start ++ rest)).map report, t')) :
    s.steps process home t ((start ++ i :: rest).map entry) =
      .ok ((start ++ i :: rest).map report, t') := by
  induction start generalizing t with
  | nil => exact h
  | cons j start ih =>
      obtain ⟨hj, hstart⟩ := List.forall_mem_cons.mp hapart
      have hswap := hprepared.steps_swap hbounded hj h
      have hswapped : s.Prepared process t home
          ((j :: i :: (start ++ rest)).map entry) :=
        hprepared.subset ((List.Perm.swap i j (start ++ rest)).map entry).subset
      obtain ⟨_, middle, _, hreports, hfirst, hlater⟩ :=
        exists_of_steps_cons hswap
      cases hreports
      have hshape := hswapped.step_sameShape hbounded hfirst
      exact steps_cons hfirst (ih (hswapped.tail hbounded hfirst)
        (fun k hk => (hstart k hk).of_sameShape hshape) hlater)

/-- Two orders of the same entries come to the same, if both keep to a relation
that two entries can only have in both directions when they are apart. -/
theorem Prepared.steps_perm [FileTree.Device] {kept : κ → κ → Prop}
    {keys order : List κ}
    (hprepared : s.Prepared process t home (keys.map entry))
    (hbounded : s.locator.Bounded)
    (hkept : ∀ i j, kept i j → kept j i → s.Apart t home (entry i) (entry j))
    (hperm : order.Perm keys) (hkeys : keys.Pairwise kept)
    (horder : order.Pairwise kept)
    (h : s.steps process home t (keys.map entry) = .ok (keys.map report, t')) :
    s.steps process home t (order.map entry) = .ok (order.map report, t') := by
  -- The first of the keys goes to its place in the order, past entries that it
  -- is apart from: they come after it in the one list and before it in the
  -- other.
  induction keys generalizing t order with
  | nil =>
      rw [hperm.eq_nil]
      exact h
  | cons i keys ih =>
      obtain ⟨start, rest, rfl⟩ :=
        List.append_of_mem (hperm.mem_iff.mpr List.mem_cons_self)
      have hperm' : (start ++ rest).Perm keys :=
        (List.perm_middle.symm.trans hperm).cons_inv
      obtain ⟨hi, hkeys'⟩ := List.pairwise_cons.mp hkeys
      obtain ⟨hstart, hrest, hbetween⟩ := List.pairwise_append.mp horder
      have horder' : (start ++ rest).Pairwise kept :=
        List.pairwise_append.mpr ⟨hstart, (List.pairwise_cons.mp hrest).2,
          fun j hj k hk => hbetween j hj k (List.mem_cons_of_mem i hk)⟩
      have hapart : ∀ j ∈ start, s.Apart t home (entry i) (entry j) :=
        fun j hj =>
        hkept i j (hi j (hperm'.subset (List.mem_append_left rest hj)))
          (hbetween j hj i List.mem_cons_self)
      obtain ⟨_, middle, _, hreports, hfirst, hlater⟩ := exists_of_steps_cons h
      cases hreports
      have hshape := hprepared.step_sameShape hbounded hfirst
      have hmoved := ih (hprepared.tail hbounded hfirst)
        (fun j k hj hk => (hkept j k hj hk).of_sameShape hshape) hperm' hkeys'
        horder' hlater
      have hmovable :
          s.Prepared process t home ((i :: (start ++ rest)).map entry) :=
        hprepared.subset ((hperm'.cons i).map entry).subset
      exact hmovable.steps_wait hbounded hapart (steps_cons hfirst hmoved)

end

end Settings

/-- A summary has the report of each entry under the number of the entry. -/
theorem exists_reports {manifest : Manifest} {summary : Summary}
    (h : summary.map Report.entry = manifest) :
    ∃ report : Fin manifest.length → Report,
      (List.finRange manifest.length).map report = summary ∧
        ∀ i, (report i).entry = manifest.get i := by
  obtain rfl := h
  refine ⟨fun i => summary.get (i.cast (List.length_map _)), ?_, fun i => ?_⟩
  · apply List.ext_getElem
    · rw [List.length_map, List.length_finRange, List.length_map]
    · intro i _ _
      rw [List.getElem_map, List.getElem_finRange]
      rfl
  · rw [List.get_eq_getElem, List.getElem_map]
    rfl

/-- Any order of the entries that keeps those about one file as they are to one
another ends in the same tree, and every entry gets the same report. -/
theorem applyAll_reorder [FileTree.Device] [LineScan.Patterns] (config : Config)
    (prompts : Prompts) (logger : Log.Logger) (machine : Machine)
    (manifest : Manifest)
    (hprepared : (config.settings prompts).Prepared machine.process machine.tree
      machine.home manifest)
    (order : List (Fin manifest.length))
    (hperm : order.Perm (List.finRange manifest.length))
    (hkept : order.Pairwise fun i j =>
      (∃ place,
        (config.settings prompts).Reaches machine.tree machine.home
          (manifest.get i) place ∧
        (config.settings prompts).Reaches machine.tree machine.home
          (manifest.get j) place) →
      i < j) :
    ∃ (report : Fin manifest.length → Report) (after after' : Machine),
      machine.perform ((config.settings prompts).applyAll logger manifest) =
        (.ok ((List.finRange manifest.length).map report), after) ∧
      machine.perform ((config.settings prompts).applyAll logger
          (order.map manifest.get)) =
        (.ok (order.map report), after') ∧
      (∀ i, (report i).entry = manifest.get i) ∧ after'.tree = after.tree := by
  have hbounded : (config.settings prompts).locator.Bounded :=
    LineScan.locator_bounded
  obtain ⟨summary, tree, hsteps, hentries⟩ :=
    Settings.steps_total hbounded machine.process machine.home machine.tree
      manifest
  obtain ⟨report, rfl, hentry⟩ := exists_reports hentries
  have hmap : (List.finRange manifest.length).map manifest.get = manifest :=
    List.map_get_finRange manifest
  have hreordered : (config.settings prompts).steps machine.process machine.home
      machine.tree (order.map manifest.get) = .ok (order.map report, tree) := by
    refine Settings.Prepared.steps_perm (hmap.symm ▸ hprepared) hbounded ?_
      hperm ?_
      hkept (by rw [hmap, hsteps])
    · intro i j hij hji place hi hj
      exact Nat.lt_asymm (hij ⟨place, hi, hj⟩) (hji ⟨place, hj, hi⟩)
    · refine (List.pairwise_lt_finRange _).imp ?_
      intro i j hlt _
      exact hlt
  refine ⟨report, _, _, Settings.perform_applyAll logger hsteps,
    Settings.perform_applyAll logger hreordered, hentry, ?_⟩
  rw [Machine.tree_logAll, Machine.tree_logAll]

def sharedFiles : Machine :=
  .holding []
    [(["a.ts".toList],
        .file (Utf8.encode "const P = 1;\n".toList) FileTree.fileMode),
      (["b.ts".toList],
        .file (Utf8.encode "let Q = 2;\n".toList) FileTree.fileMode),
      (["c.ts".toList], .link "a.ts".toList)]

def sharedSettings : Settings :=
  (Config.patching "/".toList ["P".toList, "Q".toList]).settings
    (.ofList [("p".toList, "x".toList)])

/-- The first and the last entry are about one file, once through a link. -/
def sharedManifest : Manifest :=
  [⟨"p".toList, "P".toList, "c.ts".toList⟩,
    ⟨"p".toList, "Q".toList, "b.ts".toList⟩,
    ⟨"p".toList, "P".toList, "a.ts".toList⟩]

def sharedOrder : List (Fin sharedManifest.length) :=
  [⟨1, by decide⟩, ⟨0, by decide⟩, ⟨2, by decide⟩]

theorem applyAll_reorder_shared :
    sharedSettings.Prepared 7 sharedFiles.tree [] sharedManifest ∧
      sharedOrder.Perm (List.finRange sharedManifest.length) ∧
      (sharedOrder.Pairwise fun i j =>
        (∃ place,
          sharedSettings.Reaches sharedFiles.tree []
          (sharedManifest.get i) place ∧
          sharedSettings.Reaches sharedFiles.tree [] (sharedManifest.get j)
          place) →
        i < j) ∧
      ∃ (report : Fin sharedManifest.length → Report) (after after' : Machine),
        sharedFiles.perform (sharedSettings.applyAll .off sharedManifest) =
          (.ok ((List.finRange sharedManifest.length).map report), after) ∧
        sharedFiles.perform (sharedSettings.applyAll .off
            (sharedOrder.map sharedManifest.get)) =
          (.ok (sharedOrder.map report), after') ∧
        (∀ i, (report i).entry = sharedManifest.get i) ∧
        after'.tree = after.tree := by
  have hwf : sharedFiles.tree.WellFormed := by decide
  have hfree : sharedFiles.tree.TemporaryFree 7 :=
    FileTree.temporaryFree_of_nodes (by decide)
  have ha :
      sharedFiles.tree.canonical? [] "/a.ts".toList = some "/a.ts".toList := by
    cbv
  have hb :
      sharedFiles.tree.canonical? [] "/b.ts".toList = some "/b.ts".toList := by
    cbv
  have hc :
      sharedFiles.tree.canonical? [] "/c.ts".toList = some "/a.ts".toList := by
    cbv
  have hprepared :
      sharedSettings.Prepared 7 sharedFiles.tree [] sharedManifest :=
    ⟨hwf, hfree, List.forall_mem_cons.mpr ⟨Settings.follows_of_canonical rfl hc,
      List.forall_mem_cons.mpr ⟨Settings.follows_of_canonical rfl hb,
        List.forall_mem_singleton.mpr (Settings.follows_of_canonical rfl ha)⟩⟩⟩
  have hperm :
      sharedOrder.Perm (List.finRange sharedManifest.length) := by decide
  have hkept : sharedOrder.Pairwise fun i j =>
      (∃ place,
        sharedSettings.Reaches sharedFiles.tree []
        (sharedManifest.get i) place ∧
        sharedSettings.Reaches sharedFiles.tree [] (sharedManifest.get j)
        place) →
      i < j := by
    have hplaceB : sharedFiles.tree.place? [] "/b.ts".toList =
      some ["b.ts".toList] := by cbv
    have hplaceC : sharedFiles.tree.place? [] "/c.ts".toList =
      some ["a.ts".toList] := by cbv
    refine .cons
      (List.forall_mem_cons.mpr ⟨?_, List.forall_mem_singleton.mpr ?_⟩)
      (.cons (List.forall_mem_singleton.mpr ?_) (List.pairwise_singleton _ _))
    · rintro ⟨place, hfirst, hsecond⟩
      cases hplaceB.symm.trans (hfirst.place_eq rfl)
      cases hplaceC.symm.trans (hsecond.place_eq rfl)
    · exact fun _ => by decide
    · exact fun _ => by decide
  exact ⟨hprepared, hperm, hkept,
    applyAll_reorder (Config.patching "/".toList ["P".toList, "Q".toList])
    _ .off
      sharedFiles sharedManifest hprepared sharedOrder hperm hkept⟩

end TextOverride
