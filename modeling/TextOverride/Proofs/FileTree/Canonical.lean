import Mathlib.Data.List.TakeWhile
import TextOverride.Proofs.FileTree.Ending

namespace TextOverride

namespace Path

variable {names rest : List Text}

/-- The names start with one that is looked up, trivial ones aside. -/
def Plain (names : List Text) : Prop :=
  ∃ name ∈ (names.dropWhile isTrivial).head?, name ≠ parent

theorem Plain.ne_nil (h : Plain rest) : rest ≠ [] := by
  rintro rfl
  obtain ⟨name, hname, _⟩ := h
  cases hname

private theorem Plain.of_cons_trivial {name : Text} (h : Plain (name :: rest))
    (hname : isTrivial name = true) : Plain rest := by
  rw [Plain, List.dropWhile_cons_of_pos hname] at h
  exact h

private theorem Plain.ne_parent {name : Text} (h : Plain (name :: rest))
    (hname : isTrivial name = false) : name ≠ parent := by
  obtain ⟨first, hfirst, hparent⟩ := h
  rw [List.dropWhile_cons_of_neg (ne_true_of_eq_false hname)] at hfirst
  exact Option.some.inj hfirst ▸ hparent

theorem asksDirectory_cons_trivial {name : Text} (h : isTrivial name = true)
    (hne : names ≠ []) :
    asksDirectory (name :: names) = asksDirectory names := by
  rw [asksDirectory, asksDirectory, List.dropWhile_cons_of_pos h,
    bne_iff_ne.mpr hne, bne_iff_ne.mpr (List.cons_ne_nil name names)]

theorem asksDirectory_cons_of_not {name : Text} (h : isTrivial name = false)
    (names : List Text) : asksDirectory (name :: names) = (name == parent) := by
  rw [asksDirectory, List.dropWhile_cons_of_neg
    (by rw [h]; exact Bool.false_ne_true)]
  rfl

theorem Plain.asksDirectory (h : Plain rest) : asksDirectory rest = false := by
  obtain ⟨name, hname, hparent⟩ := h
  rw [Path.asksDirectory, Option.mem_def.mp hname, Option.all_some,
    beq_eq_false_iff_ne.mpr hparent, Bool.and_false]

/-- What follows behind names is asked for only if they are all trivial. -/
theorem Plain.asksDirectory_append (h : Plain rest) (names : List Text) :
    Path.asksDirectory (names ++ rest) = Path.asksDirectory names ∨
      Path.asksDirectory (names ++ rest) = false ∧
        ∀ name ∈ names, isTrivial name = true := by
  induction names with
  | nil => exact .inr ⟨h.asksDirectory, nofun⟩
  | cons name names ih =>
      by_cases hname : isTrivial name = true
      · have hne := List.append_ne_nil_of_right_ne_nil names h.ne_nil
        rw [List.cons_append, asksDirectory_cons_trivial hname hne]
        rcases ih with heq | ⟨hasks, htrivial⟩
        · by_cases hnil : names = []
          · rw [hnil, List.nil_append]
            exact .inr ⟨h.asksDirectory, List.forall_mem_singleton.mpr hname⟩
          · exact .inl (heq.trans (asksDirectory_cons_trivial hname hnil).symm)
        · exact .inr ⟨hasks, List.forall_mem_cons.mpr ⟨hname, htrivial⟩⟩
      · have hnot := (Bool.not_eq_true _).mp hname
        rw [List.cons_append, asksDirectory_cons_of_not hnot,
          asksDirectory_cons_of_not hnot]
        exact .inl rfl

private theorem asksDirectory_insert (hne : rest ≠ []) (names : List Text) :
    asksDirectory (names ++ [] :: rest) = asksDirectory (names ++ rest) := by
  induction names with
  | nil => exact asksDirectory_cons_trivial rfl hne
  | cons name names ih =>
      have happend := List.append_ne_nil_of_right_ne_nil names hne
      rw [List.cons_append, List.cons_append]
      by_cases hname : isTrivial name = true
      · rw [asksDirectory_cons_trivial hname (by simp),
          asksDirectory_cons_trivial hname happend, ih]
      · have hnot := (Bool.not_eq_true _).mp hname
        rw [asksDirectory_cons_of_not hnot, asksDirectory_cons_of_not hnot]

theorem Plain.of_asksDirectory (hne : names ≠ [])
    (h : Path.asksDirectory names = false) : Plain names := by
  rw [Path.asksDirectory, bne_iff_ne.mpr hne, Bool.true_and,
    Option.all_eq_false] at h
  obtain ⟨name, hname, hparent⟩ := h
  exact ⟨name, hname, by simpa using hparent⟩

/-- Nothing is asked for up to a name that is looked up, without a parent. -/
theorem asksDirectory_suffix {last : Text} (hlast : isTrivial last = false)
    (hparent : parent ∉ names ++ [last]) (h : rest <:+ names ++ [last]) :
    asksDirectory rest = false := by
  by_cases hne : rest = []
  · rw [hne]
    rfl
  have hmem : last ∈ rest := by
    rw [← List.getLast_concat (l := names) (a := last), ← h.getLast hne]
    exact List.getLast_mem hne
  have hfound : ∃ name ∈ (rest.dropWhile isTrivial).head?, name ≠ parent := by
    cases hdrop : rest.dropWhile isTrivial with
    | nil =>
        have htrivial := List.dropWhile_eq_nil_iff.mp hdrop last hmem
        exact absurd (hlast.symm.trans htrivial) Bool.false_ne_true
    | cons name others =>
        have hname : name ∈ rest.dropWhile isTrivial :=
          hdrop ▸ List.mem_cons_self
        refine ⟨name, rfl, ?_⟩
        rintro rfl
        exact hparent (h.subset ((List.dropWhile_suffix _).subset hname))
  exact Plain.asksDirectory hfound

def Whole (names : List Text) : Prop :=
  ∀ name ∈ names, separator ∉ name

theorem whole_names (path : Path) : Whole (Path.names path) :=
  fun _ => separator_not_mem_of_mem_names

theorem Whole.names_append (path : Path) (h : Whole rest) :
    Whole (Path.names path ++ rest) :=
  List.forall_mem_append.mpr ⟨whole_names path, h⟩

end Path

namespace FileTree

variable {t t' : FileTree} {links allowed : Nat}
  {place reached directory home : Place} {name : Text} {names rest : List Text}
  {path : Path} {follow : Bool} {found : Target}

theorem origin_path (home place : Place) : origin home place.path = [] := rfl

theorem Solid.origin (h : t.Solid place) (path : Path) :
    t.Solid (origin place path) := by
  rw [FileTree.origin]
  split
  · exact solid_of_isDirectoryAt rfl
  · exact h

/-- A path from the root leads to the same from everywhere. -/
theorem resolve_path (t : FileTree) (home place : Place) (follow : Bool) :
    t.resolve home follow place.path = t.resolve [] follow place.path := by
  rw [resolve, resolve, origin_path, origin_path]

theorem real?_nil : t.real? links place [] = some place := by
  rw [real?]

theorem real?_trivial (h : Path.isTrivial name = true) (rest : List Text) :
    t.real? links place (name :: rest) = t.real? links place rest := by
  rw [real?, if_pos h]

theorem real?_parent (rest : List Text) :
    t.real? links place (Path.parent :: rest) =
      t.real? links place.tail rest := by
  rw [real?, if_neg (by decide), if_pos rfl]

theorem real?_sought (hnontrivial : Path.isTrivial name = false)
    (hparent : name ≠ Path.parent) (rest : List Text) :
    t.real? links place (name :: rest) =
      match t.inspect? (name :: place) with
      | none => none
      | some (.link target) =>
          match links with
          | 0 => none
          | links + 1 =>
              t.real? links (origin place target) (Path.names target ++ rest)
      | some _ =>
          if Path.asksDirectory rest = true ∧
            t.enters (name :: place) = false then
            none
          else t.real? links (name :: place) rest :=
  (real?.eq_2 t links place name rest).trans <|
    (if_neg ((Bool.not_eq_true _).mpr hnontrivial)).trans (if_neg hparent)

theorem real?_onward (hnontrivial : Path.isTrivial name = false)
    (hparent : name ≠ Path.parent) {node : Node}
    (h : t.inspect? (name :: place) = some node) (hmode : node.mode? ≠ none)
    (rest : List Text) :
    t.real? links place (name :: rest) =
      if Path.asksDirectory rest = true ∧ t.enters (name :: place) = false then
        none
      else t.real? links (name :: place) rest := by
  rw [real?_sought hnontrivial hparent, h]
  cases node with
  | file content mode => rfl
  | directory mode => rfl
  | link target => exact absurd rfl hmode

theorem exists_of_real? (hnontrivial : Path.isTrivial name = false)
    (hparent : name ≠ Path.parent)
    (h : t.real? links place (name :: rest) = some reached) :
    ∃ node, t.inspect? (name :: place) = some node ∧
      ((∃ target fewer, node = .link target ∧ links = fewer + 1 ∧
          t.real? fewer (origin place target) (Path.names target ++ rest) =
            some reached) ∨
        node.mode? ≠ none ∧ t.real? links (name :: place) rest =
          some reached) := by
  cases hnode : t.inspect? (name :: place) with
  | none =>
      rw [real?_sought hnontrivial hparent, hnode] at h
      cases h
  | some node =>
      refine ⟨node, rfl, ?_⟩
      rcases node.link_or_mode? with ⟨target, rfl⟩ | hmode
      · rw [real?_sought hnontrivial hparent, hnode] at h
        cases links with
        | zero => cases h
        | succ fewer => exact .inl ⟨target, fewer, rfl, rfl, h⟩
      · rw [real?_onward hnontrivial hparent hnode hmode] at h
        exact .inr ⟨hmode, (Option.ite_none_left_eq_some.mp h).2⟩

private theorem real?_trivials (h : ∀ name ∈ names, Path.isTrivial name = true)
    (rest : List Text) :
    t.real? links place (names ++ rest) = t.real? links place rest := by
  induction names with
  | nil => rfl
  | cons name names ih =>
      obtain ⟨hname, hnames⟩ := List.forall_mem_cons.mp h
      rw [List.cons_append, real?_trivial hname, ih hnames]

private theorem real?_insert (hne : rest ≠ []) (links : Nat) (place : Place)
    (names : List Text) :
    t.real? links place (names ++ [] :: rest) =
      t.real? links place (names ++ rest) := by
  induction links, place, names using walk_induction with
  | nil links place => exact real?_trivial rfl rest
  | cons links place name names ihNames ihLinks =>
      rw [List.cons_append, List.cons_append]
      rcases Path.name_cases name with
        htrivial | rfl | ⟨hnontrivial, hparent⟩
      · rw [real?_trivial htrivial, real?_trivial htrivial, ihNames]
      · rw [real?_parent, real?_parent, ihNames]
      · rw [real?_sought hnontrivial hparent, real?_sought hnontrivial hparent,
          Path.asksDirectory_insert hne, ihNames]
        split
        case h_1 => rfl
        case h_2 target _ =>
          cases links with
          | zero => rfl
          | succ links =>
              simp only [← List.append_assoc]
              exact ihLinks links links.lt_succ_self _ _
        case h_3 => rfl

/-! A name in a directory that is looked up from the root. -/

namespace WellFormed

theorem names_path (hwf : t.WellFormed) (hplace : t.Solid place)
    (hname : Path.IsName name) :
    Path.names (Place.path (name :: place)) =
      ([] :: place.reverse) ++ [name] := by
  rw [Path.names_path (List.cons_ne_nil name place), List.reverse_cons,
    List.cons_append]
  exact List.forall_mem_cons.mpr
    ⟨hname, hwf.isName_of_mem hplace.node?_ne_none⟩

theorem walk_rooted (hwf : t.WellFormed) (h : t.Solid place)
    (hwalk : t.walk true links [] ([] :: place.reverse) = .ok found) :
    found = .present place := by
  have hroot : t.stride [] [] = .onward [] := stride_separator rfl
  rw [walk_onward hroot] at hwalk
  exact hwf.walk_root h hwalk

theorem endsIn_path (hwf : t.WellFormed) (hplace : t.Solid place)
    (hseparator : Path.separator ∉ name)
    (hnontrivial : Path.isTrivial name = false) (hparent : name ≠ Path.parent)
    (h : t.resolve home follow (Place.path (name :: place)) = .ok found) :
    t.EndsIn home (Place.path (name :: place)) place name := by
  obtain ⟨hnul, hne, hshort, hwalk⟩ := exists_walk_of_resolve h
  have hname : Path.IsName name := by
    refine ⟨hnontrivial, hparent, hseparator, fun hmem => hnul ?_⟩
    cases place with
    | nil =>
        rw [Path.path_singleton]
        exact List.mem_cons_of_mem _ hmem
    | cons parent place =>
        rw [Path.path_cons (List.cons_ne_nil parent place)]
        exact List.mem_append_right _ (List.mem_cons_of_mem _ hmem)
  have hnames := hwf.names_path hplace hname
  rw [hnames, origin_path] at hwalk
  have hone := List.cons_ne_nil name []
  obtain ⟨between, hbetween⟩ := exists_of_walk_append hone hwalk
  cases hwf.walk_rooted hplace hbetween
  obtain ⟨left, hleft⟩ := walk_append hbetween
  rw [hleft follow [name] (.inr hone)] at hwalk
  rcases t.stride_cases place name with
    ⟨hopen, hsought⟩ | ⟨e, hrefused⟩ | ⟨_, ⟨htrivial, _⟩ | ⟨heq, _⟩⟩
  · exact ⟨hnul, hne, hshort, ⟨_, hnames, hbetween⟩, hopen, hsought⟩
  · rw [walk_refused hrefused] at hwalk
    cases hwalk
  · rw [hnontrivial] at htrivial
    cases htrivial
  · exact absurd heq hparent

/-- Looked up by its own path, a place shows the node that it has. -/
theorem of_inspect? (hwf : t.WellFormed) (hplace : t.Solid place)
    (hseparator : Path.separator ∉ name)
    (hnontrivial : Path.isTrivial name = false) (hparent : name ≠ Path.parent)
    {node : Node} (h : t.inspect? (name :: place) = some node) :
    t.node? (name :: place) = some node ∧
      t.resolve [] false (Place.path (name :: place)) =
        .ok (.present (name :: place)) := by
  rw [inspect?] at h
  split at h
  case h_1 found hresolve =>
    have hends :=
      hwf.endsIn_path hplace hseparator hnontrivial hparent hresolve
    obtain ⟨rfl, _⟩ := hends.present_of_resolve hresolve
    exact ⟨h, hresolve⟩
  case h_2 => cases h

end WellFormed

/-! Canonical forms. -/

/-- A directory, or what its own path leads to. -/
structure Settled (t : FileTree) (place : Place) : Prop where
  solid : t.Solid place
  resolves : t.isDirectoryAt place = false →
    t.resolve [] false place.path = .ok (.present place)

theorem settled_of_isDirectoryAt (h : t.isDirectoryAt place = true) :
    t.Settled place where
  solid := solid_of_isDirectoryAt h
  resolves hnot := absurd (hnot.symm.trans h) Bool.false_ne_true

private theorem WellFormed.settled_tail (hwf : t.WellFormed)
    (h : t.Settled place) :
    t.Settled place.tail := by
  cases place with
  | nil => exact h
  | cons name place =>
      exact settled_of_isDirectoryAt (hwf.inDirectory h.solid.node?_ne_none)

private theorem settled_origin (h : t.Settled place) (path : Path) :
    t.Settled (origin place path) := by
  rw [origin]
  split
  · exact settled_of_isDirectoryAt rfl
  · exact h

private theorem WellFormed.settled_of_real? (hwf : t.WellFormed)
    (hnames : Path.Whole names) (hplace : t.Settled place)
    (h : t.real? links place names = some reached) : t.Settled reached := by
  induction links, place, names using walk_induction with
  | nil links place =>
      rw [real?_nil] at h
      cases h
      exact hplace
  | cons links place name rest ihNames ihLinks =>
      obtain ⟨hseparator, hrest⟩ := List.forall_mem_cons.mp hnames
      rcases Path.name_cases name with
        htrivial | rfl | ⟨hnontrivial, hparent⟩
      · rw [real?_trivial htrivial] at h
        exact ihNames place hrest hplace h
      · rw [real?_parent] at h
        exact ihNames place.tail hrest (hwf.settled_tail hplace) h
      · obtain ⟨node, hinspect, ⟨target, fewer, _, rfl, hreal⟩
            | ⟨hmode, hreal⟩⟩ :=
          exists_of_real? hnontrivial hparent h
        · exact ihLinks fewer fewer.lt_succ_self _ _
            (Path.Whole.names_append target hrest)
            (settled_origin hplace target) hreal
        · obtain ⟨hnode, hresolve⟩ :=
            hwf.of_inspect? hplace.solid hseparator hnontrivial hparent hinspect
          exact ihNames _ hrest ⟨⟨node, hnode, hmode⟩, fun _ => hresolve⟩ hreal

/-- Where a path leads to a node, its canonical form leads there as well. -/
private theorem WellFormed.real?_eq_of_walk (hwf : t.WellFormed)
    (hnames : Path.Whole names) (hplace : t.Solid place)
    (hwalk : t.walk true links place names = .ok (.present reached))
    {real : Place} (h : t.real? allowed place names = some real) :
    real = reached := by
  induction links, place, names using walk_induction generalizing allowed with
  | nil links place =>
      rw [walk_nil] at hwalk
      rw [real?_nil] at h
      cases h
      cases hwalk
      rfl
  | cons links place name rest ihNames ihLinks =>
      obtain ⟨hseparator, hrest⟩ := List.forall_mem_cons.mp hnames
      -- The walk decides; the canonical form follows the links that it does.
      rcases t.stride_cases place name with
        ⟨hopen, hname⟩ | ⟨e, hrefused⟩ |
          ⟨_, ⟨htrivial, hstride⟩ | ⟨rfl, hstride⟩⟩
      · obtain ⟨node, hinspect, hnext⟩ :=
          exists_of_real? hname.nontrivial hname.ne_parent h
        obtain ⟨hnode, _⟩ := hwf.of_inspect? hplace hseparator
          hname.nontrivial hname.ne_parent hinspect
        have hstride := hopen.stride_sought hname
        rw [hnode] at hstride
        rcases hnext with ⟨target, fewer, rfl, rfl, hreal⟩ | ⟨hmode, hreal⟩
        · rw [walk_link hstride (.inl rfl)] at hwalk
          cases links with
          | zero => cases hwalk
          | succ links =>
              exact ihLinks links links.lt_succ_self _ _
                (Path.Whole.names_append target hrest) (hplace.origin target)
                hwalk hreal
        · have hsolid : t.Solid (name :: place) := ⟨node, hnode, hmode⟩
          rw [walk_onward (hopen.stride_solid hname hsolid)] at hwalk
          exact ihNames _ hrest hsolid hwalk hreal
      · rw [walk_refused hrefused] at hwalk
        cases hwalk
      · rw [walk_onward hstride] at hwalk
        rw [real?_trivial htrivial] at h
        exact ihNames place hrest hplace hwalk h
      · rw [walk_onward hstride] at hwalk
        rw [real?_parent] at h
        exact ihNames place.tail hrest (hwf.solid_tail hplace) hwalk h

theorem exists_real?_of_canonical? {real : Path}
    (h : t.canonical? home path = some real) :
    '\x00' ∉ path ∧ path ≠ [] ∧ t.isDirectoryAt (origin home path) = true ∧
      ∃ place, real = place.path ∧
        t.real? linkLimit (origin home path) (Path.names path) =
          some place := by
  rw [canonical?] at h
  obtain ⟨hnul, h⟩ := Option.ite_none_left_eq_some.mp h
  obtain ⟨hne, h⟩ := Option.ite_none_left_eq_some.mp h
  obtain ⟨hdirectory, h⟩ := Option.ite_none_left_eq_some.mp h
  obtain ⟨place, hreal, rfl⟩ := Option.map_eq_some_iff.mp h
  exact ⟨hnul, hne, (Bool.not_eq_false _).mp hdirectory, place, rfl, hreal⟩

theorem WellFormed.exists_of_canonical? (hwf : t.WellFormed) {real : Path}
    (h : t.canonical? home path = some real) :
    ∃ place, real = place.path ∧ t.Settled place ∧
      ∀ found, t.resolve home true path = .ok (.present found) →
        found = place := by
  obtain ⟨_, _, hdirectory, place, rfl, hreal⟩ := exists_real?_of_canonical? h
  have horigin := settled_of_isDirectoryAt hdirectory
  refine ⟨place, rfl,
    hwf.settled_of_real? (Path.whole_names path) horigin hreal, ?_⟩
  intro found hresolve
  obtain ⟨_, _, _, hwalk⟩ := exists_walk_of_resolve hresolve
  exact (hwf.real?_eq_of_walk (Path.whole_names path) horigin.solid hwalk
    hreal).symm

private theorem WellFormed.enters_of_inspect? (hwf : t.WellFormed)
    (hplace : t.Solid (name :: place)) {next : Text}
    (hseparator : Path.separator ∉ next)
    (hnontrivial : Path.isTrivial next = false) (hparent : next ≠ Path.parent)
    (h : t.inspect? (next :: name :: place) ≠ none) :
    t.enters (name :: place) = true := by
  obtain ⟨node, hnode⟩ := Option.ne_none_iff_exists'.mp h
  obtain ⟨_, hresolve⟩ :=
    hwf.of_inspect? hplace hseparator hnontrivial hparent hnode
  obtain ⟨hnul, _, hshort, ⟨before, hnames, hwalk⟩, hopen, _⟩ :=
    hwf.endsIn_path hplace hseparator hnontrivial hparent hresolve
  have hpath := Path.path_cons (List.cons_ne_nil name place) next
  rw [hpath, List.append_cons] at hnul hshort
  rw [Text.byteSize_append] at hshort
  rw [hpath, Path.names_append_separator, Path.names_eq_singleton hseparator]
    at hnames
  obtain ⟨rfl, _⟩ := List.append_inj' hnames rfl
  rw [origin_path] at hwalk
  obtain ⟨left, hleft⟩ := walk_append hwalk
  have hclosed : t.resolve [] true
      (Place.path (name :: place) ++ [Path.separator]) =
        .ok (.present (name :: place)) := by
    rw [resolve_eq (fun hmem => hnul (List.mem_append_left next hmem)) (by simp)
      (Nat.lt_of_add_right_lt hshort), Path.names_append_separator, origin,
      ite_self, hleft true _ (.inl rfl)]
    exact (walk_onward (stride_separator hopen.directory) []).trans walk_nil
  rw [enters, present, place?_eq_some_iff.mpr hclosed]
  rfl

/-- Nothing is found below what cannot be entered. -/
private theorem WellFormed.real?_closed (hwf : t.WellFormed)
    (hplace : t.Solid (name :: place)) (hrest : Path.Plain rest)
    (hwhole : Path.Whole rest) (h : t.enters (name :: place) = false)
    (links : Nat) :
    t.real? links (name :: place) rest = none := by
  induction rest with
  | nil => exact absurd rfl hrest.ne_nil
  | cons next rest ih =>
      obtain ⟨hseparator, hothers⟩ := List.forall_mem_cons.mp hwhole
      by_cases htrivial : Path.isTrivial next = true
      · rw [real?_trivial htrivial]
        exact ih (hrest.of_cons_trivial htrivial) hothers
      have hnontrivial := (Bool.not_eq_true _).mp htrivial
      have hparent := hrest.ne_parent hnontrivial
      have hnode : t.inspect? (next :: name :: place) = none :=
        Decidable.byContradiction fun hne => Bool.false_ne_true <|
          h.symm.trans
            (hwf.enters_of_inspect? hplace hseparator hnontrivial hparent hne)
      rw [real?_sought hnontrivial hparent, hnode]

private theorem WellFormed.real?_append (hwf : t.WellFormed)
    (hnames : Path.Whole names) (hplace : t.Solid place)
    (hrest : Path.Plain rest) (hwhole : Path.Whole rest) :
    t.real? links place names = none ∧
        t.real? links place (names ++ rest) = none ∨
      ∃ reached left, t.real? links place names = some reached ∧
        t.real? links place (names ++ rest) = t.real? left reached rest := by
  induction links, place, names using walk_induction with
  | nil links place => exact .inr ⟨place, links, real?_nil, rfl⟩
  | cons links place name names ihNames ihLinks =>
      obtain ⟨hseparator, hothers⟩ := List.forall_mem_cons.mp hnames
      rw [List.cons_append]
      rcases Path.name_cases name with
        htrivial | rfl | ⟨hnontrivial, hparent⟩
      · rw [real?_trivial htrivial, real?_trivial htrivial]
        exact ihNames place hothers hplace
      · rw [real?_parent, real?_parent]
        exact ihNames place.tail hothers (hwf.solid_tail hplace)
      · rw [real?_sought hnontrivial hparent, real?_sought hnontrivial hparent]
        split
        case h_1 => exact .inl ⟨rfl, rfl⟩
        case h_2 target _ =>
          cases links with
          | zero => exact .inl ⟨rfl, rfl⟩
          | succ links =>
              simp only [← List.append_assoc]
              exact ihLinks links links.lt_succ_self _ _
                (Path.Whole.names_append target hothers) (hplace.origin target)
        case h_3 node hlink hinspect =>
          obtain ⟨hnode, _⟩ :=
            hwf.of_inspect? hplace hseparator hnontrivial hparent hinspect
          have hsolid := solid_of_node? hnode hlink
          -- Only where trivial names follow does the rest change what is asked
          -- here.
          rcases hrest.asksDirectory_append names with heq | ⟨hasks, htrivial⟩
          · rw [heq]
            split
            case isTrue => exact .inl ⟨rfl, rfl⟩
            case isFalse => exact ihNames _ hothers hsolid
          · rw [if_neg (c := _ ∧ t.enters (name :: place) = false)
              fun hclosed =>
              Bool.false_ne_true (hasks.symm.trans hclosed.1)]
            split
            case isTrue hclosed =>
              rw [real?_trivials htrivial]
              exact .inl ⟨rfl, hwf.real?_closed hsolid hrest hwhole
                hclosed.2 links⟩
            case isFalse => exact ihNames _ hothers hsolid

/-- The canonical form of what is joined to a path is found from the place that
the path leads to, if the path itself has a canonical form. -/
theorem WellFormed.canonical?_join (hwf : t.WellFormed) {base target : Path}
    {root : Place} (hbase : t.resolve home true base = .ok (.present root))
    (hrelative : Path.isAbsolute target = false) (hnul : '\x00' ∉ target)
    (htarget : Path.Plain (Path.names target)) :
    t.canonical? home base = none ∧
        t.canonical? home (Path.join base target) = none ∨
      ∃ left, t.canonical? home base = some root.path ∧
        t.canonical? home (Path.join base target) =
          (t.real? left root (Path.names target)).map Place.path := by
  obtain ⟨hbaseNul, hne, _, hwalk⟩ := exists_walk_of_resolve hbase
  have hjoinNul : '\x00' ∉ Path.join base target := by
    rw [Path.mem_join_iff hrelative (by decide)]
    exact not_or.mpr ⟨hbaseNul, hnul⟩
  have hnames (links : Nat) (place : Place) :
      t.real? links place (Path.names (Path.join base target)) =
        t.real? links place (Path.names base ++ Path.names target) := by
    rcases Path.names_join hrelative hne with heq | ⟨start, hstart, heq⟩
    · rw [heq]
    · rw [heq, hstart, List.append_assoc]
      exact (real?_insert (Path.names_ne_nil target) links place start).symm
  have horigin : origin home (Path.join base target) = origin home base := by
    rw [origin, origin, Path.isAbsolute_join hrelative hne]
  rw [canonical?, canonical?, if_neg hbaseNul, if_neg hne, if_neg hjoinNul,
    if_neg (Path.join_ne_nil hrelative hne), horigin, hnames]
  split
  case isTrue => exact .inl ⟨rfl, rfl⟩
  case isFalse hdirectory =>
  have hsolid := solid_of_isDirectoryAt ((Bool.not_eq_false _).mp hdirectory)
  rcases hwf.real?_append (Path.whole_names base) hsolid htarget
    (Path.whole_names target) with ⟨hnone, hjoin⟩
    | ⟨reached, left, hreal, hjoin⟩
  · rw [hnone, hjoin]
    exact .inl ⟨rfl, rfl⟩
  · cases hwf.real?_eq_of_walk (Path.whole_names base) hsolid hwalk hreal
    rw [hreal, hjoin]
    exact .inr ⟨left, rfl, rfl⟩

/-! What a replacement works on. -/

/-- The canonical form of a path, or the path where it has none. -/
def working (t : FileTree) (home : Place) (path : Path) : Path :=
  (t.canonical? home path).getD path

/-- A path that leads to a node has a canonical form, or no link at its end. -/
def Followable (t : FileTree) (home : Place) (path : Path) : Prop :=
  ∀ place, t.resolve home true path = .ok (.present place) →
    (t.canonical? home path).isSome = true ∨
      t.resolve home false path = .ok (.present place)

theorem followable_of_canonical {real : Path}
    (h : t.canonical? home path = some real) : t.Followable home path :=
  fun _ _ => .inl (Option.isSome_of_eq_some h)

theorem WellFormed.resolve_working (hwf : t.WellFormed)
    (hfollow : t.Followable home path)
    (h : t.resolve home true path = .ok (.present place))
    (hnot : t.isDirectoryAt place = false) :
    t.resolve home false (t.working home path) = .ok (.present place) := by
  rw [working]
  cases hcanonical : t.canonical? home path with
  | none =>
      refine (hfollow place h).resolve_left fun hsome => ?_
      rw [hcanonical] at hsome
      cases hsome
  | some real =>
      obtain ⟨found, rfl, hsettled, hfound⟩ :=
        hwf.exists_of_canonical? hcanonical
      cases hfound place h
      exact (t.resolve_path home place false).trans (hsettled.resolves hnot)

private theorem SameShape.inspect? (h : SameShape t t') (place : Place) :
    (t.inspect? place).map Node.shape = (t'.inspect? place).map Node.shape := by
  rw [FileTree.inspect?, FileTree.inspect?, h.resolve]
  split
  case h_1 found _ => exact h found
  case h_2 => rfl

private theorem SameShape.real? (h : SameShape t t') (links : Nat)
    (place : Place) (names : List Text) :
    t.real? links place names = t'.real? links place names := by
  induction links, place, names using walk_induction with
  | nil links place => rw [real?_nil, real?_nil]
  | cons links place name rest ihNames ihLinks =>
      rcases Path.name_cases name with
        htrivial | rfl | ⟨hnontrivial, hparent⟩
      · rw [real?_trivial htrivial, real?_trivial htrivial, ihNames]
      · rw [real?_parent, real?_parent, ihNames]
      · have hinspect := h.inspect? (name :: place)
        cases hnode : t.inspect? (name :: place) with
        | none =>
            rw [hnode] at hinspect
            rw [real?_sought hnontrivial hparent,
              real?_sought hnontrivial hparent, hnode,
              Option.map_eq_none_iff.mp hinspect.symm]
        | some node =>
            rw [hnode] at hinspect
            obtain ⟨node', hnode', hshape⟩ :=
              Option.map_eq_some_iff.mp hinspect.symm
            rcases node.link_or_mode? with ⟨target, rfl⟩ | hmode
            · rw [real?_sought hnontrivial hparent,
                real?_sought hnontrivial hparent, hnode, hnode']
              cases node' <;> cases hshape
              cases links with
              | zero => rfl
              | succ links => exact ihLinks links links.lt_succ_self _ _
            · have hmode' : node'.mode? ≠ none := by
                rw [← shape_mode?, hshape, shape_mode?]
                exact hmode
              rw [real?_onward hnontrivial hparent hnode hmode,
                real?_onward hnontrivial hparent hnode' hmode', ihNames, enters,
                enters, h.present]

theorem SameShape.canonical? (h : SameShape t t') (home : Place) (path : Path) :
    t.canonical? home path = t'.canonical? home path := by
  rw [FileTree.canonical?, FileTree.canonical?, h.isDirectoryAt, h.real?]

theorem SameShape.working (h : SameShape t t') (home : Place) (path : Path) :
    t.working home path = t'.working home path := by
  rw [FileTree.working, FileTree.working, h.canonical?]

theorem Followable.of_sameShape (hfollow : t.Followable home path)
    (h : SameShape t t') : t'.Followable home path := by
  intro place
  rw [← h.resolve, ← h.resolve, ← h.canonical?]
  exact hfollow place

end FileTree

end TextOverride
