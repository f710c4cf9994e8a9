import TextOverride.FileTree.Replace

namespace TextOverride

/-- The node with the content of a file forgotten. -/
def Node.shape : Node → Node
  | .file _ mode => .file [] mode
  | node => node

/-- Only links have no permission bits. -/
theorem Node.link_or_mode? (node : Node) :
    (∃ target, node = .link target) ∨ node.mode? ≠ none := by
  cases node with
  | file content mode => exact .inr (Option.some_ne_none mode)
  | directory mode => exact .inr (Option.some_ne_none mode)
  | link target => exact .inl ⟨target, rfl⟩

theorem of_ite_error_eq_ok {ε α : Type} {c : Prop} [Decidable c] {e : ε}
    {result : Except ε α} {a : α}
    (h : (if c then .error e else result) = .ok a) : ¬ c ∧ result = .ok a := by
  split at h
  case isTrue => cases h
  case isFalse hnot => exact ⟨hnot, h⟩

namespace FileTree

theorem lookup_ne_none_iff {place : Place} {nodes : List (Place × Node)} :
    lookup place nodes ≠ none ↔ ∃ entry ∈ nodes, entry.1 = place := by
  induction nodes with
  | nil => simp [lookup]
  | cons entry nodes ih =>
      rw [lookup]
      split
      case isTrue heq => simp [heq]
      case isFalse hne => simpa [Ne.symm hne] using ih

theorem lookup_setNode (place other : Place) (node : Node)
    (nodes : List (Place × Node)) :
    lookup other (setNode place node nodes) =
      if other = place then some node else lookup other nodes := by
  induction nodes with
  | nil => rfl
  | cons entry nodes ih =>
      rw [setNode]
      split
      case isTrue heq =>
        rw [lookup, lookup, ← heq]
        split
        · rfl
        · rfl
      case isFalse hne =>
        rw [lookup, lookup, ih]
        split
        case isTrue heq => rw [if_neg fun h => hne (h.symm.trans heq)]
        case isFalse => rfl

theorem setNode_setNode (place : Place) (node other : Node)
    (nodes : List (Place × Node)) :
    setNode place other (setNode place node nodes) =
      setNode place other nodes := by
  induction nodes with
  | nil => exact if_pos rfl
  | cons entry nodes ih =>
      by_cases heq : place = entry.1
      · rw [setNode, if_pos heq, setNode, if_pos rfl, setNode, if_pos heq]
      · rw [setNode, if_neg heq, setNode, if_neg heq, setNode, if_neg heq, ih]

/-- Two places take their nodes in either order, where one of them has had a
node: a new one goes to the end. -/
theorem setNode_comm {place other : Place} (hne : place ≠ other)
    {nodes : List (Place × Node)} (h : lookup place nodes ≠ none)
    (node node' : Node) :
    setNode other node' (setNode place node nodes) =
      setNode place node (setNode other node' nodes) := by
  induction nodes with
  | nil => exact absurd rfl h
  | cons entry nodes ih =>
      by_cases hplace : place = entry.1
      · have hother : other ≠ entry.1 := fun heq => hne (hplace.trans heq.symm)
        rw [setNode, if_pos hplace, setNode, if_neg (Ne.symm hne), setNode,
          if_neg hother, setNode, if_pos hplace]
      · rw [lookup, if_neg hplace] at h
        rw [setNode, if_neg hplace, setNode]
        by_cases hother : other = entry.1
        · rw [if_pos hother, setNode, if_pos hother, setNode, if_neg hne]
        · rw [if_neg hother, setNode, if_neg hother, setNode,
            if_neg hplace, ih h]

theorem setNode_of_absent {place : Place} {nodes : List (Place × Node)}
    (h : lookup place nodes = none) (node : Node) :
    setNode place node nodes = nodes ++ [(place, node)] := by
  induction nodes with
  | nil => rfl
  | cons entry nodes ih =>
      rw [lookup] at h
      split at h
      case isTrue => cases h
      case isFalse hne => rw [setNode, if_neg hne, ih h, List.cons_append]

theorem filter_of_absent {place : Place} {nodes : List (Place × Node)}
    (h : lookup place nodes = none) :
    nodes.filter (fun entry => entry.1 ≠ place) = nodes := by
  rw [List.filter_eq_self]
  intro entry hentry
  induction nodes with
  | nil => cases hentry
  | cons head nodes ih =>
      rw [lookup] at h
      split at h
      case isTrue => cases h
      case isFalse hne =>
        rcases List.mem_cons.mp hentry with rfl | hmem
        · exact decide_eq_true (Ne.symm hne)
        · exact ih h hmem

theorem node?_cons (t : FileTree) (name : Text) (directory : Place) :
    t.node? (name :: directory) = lookup (name :: directory) t.nodes := rfl

theorem node?_ne_none_iff {t : FileTree} {name : Text} {directory : Place} :
    t.node? (name :: directory) ≠ none ↔
      ∃ entry ∈ t.nodes, entry.1 = name :: directory :=
  lookup_ne_none_iff

theorem node?_set (t : FileTree) (name : Text) (directory : Place) (node : Node)
    (place : Place) :
    (t.set (name :: directory) node).node? place =
      if place = name :: directory then some node else t.node? place := by
  cases place with
  | nil => rfl
  | cons other place =>
      exact lookup_setNode (name :: directory) (other :: place) node t.nodes

theorem node?_set_self (t : FileTree) (name : Text) (directory : Place)
    (node : Node) :
    (t.set (name :: directory) node).node? (name :: directory) = some node := by
  rw [node?_set, if_pos rfl]

theorem set_set (t : FileTree) (place : Place) (node other : Node) :
    (t.set place node).set place other = t.set place other := by
  rw [set, set, set, setNode_setNode]

theorem node?_set_file {t : FileTree} {place : Place} {content : Utf8.Bytes}
    {mode : Nat} (h : t.node? place = some (.file content mode)) (node : Node)
    (other : Place) :
    (t.set place node).node? other = if other = place then some node
      else t.node? other := by
  cases place with
  | nil => cases h
  | cons name directory => exact node?_set t name directory node other

theorem set_comm {t : FileTree} {place other : Place} {content : Utf8.Bytes}
    {mode : Nat} (hne : place ≠ other)
    (h : t.node? place = some (.file content mode)) (node node' : Node) :
    (t.set place node).set other node' =
      (t.set other node').set place node := by
  have hlookup : lookup place t.nodes ≠ none := by
    cases place with
    | nil => cases h
    | cons name directory => exact Option.ne_none_iff_exists'.mpr ⟨_, h⟩
  rw [set, set, set, set, setNode_comm hne hlookup]

/-- A node put at a vacant place leaves no trace when it is removed again. -/
theorem erase_set_of_vacant {t : FileTree} {name : Text} {directory : Place}
    (h : t.node? (name :: directory) = none) (node : Node) :
    (t.set (name :: directory) node).erase (name :: directory) = t := by
  rw [node?_cons] at h
  rw [set, setNode_of_absent h, erase, List.filter_append, filter_of_absent h]
  simp

theorem isDirectoryAt_of_node? {t : FileTree} {place : Place} {mode : Nat}
    (h : t.node? place = some (.directory mode)) :
    t.isDirectoryAt place = true := by
  rw [isDirectoryAt, h]

theorem exists_mode_of_isDirectoryAt {t : FileTree} {place : Place}
    (h : t.isDirectoryAt place = true) :
    ∃ mode, t.node? place = some (.directory mode) := by
  rw [isDirectoryAt] at h
  split at h
  case h_1 mode hnode => exact ⟨mode, hnode⟩
  case h_2 => cases h

/-- The same paths with the same kinds, link targets and permission bits. -/
def SameShape (t t' : FileTree) : Prop :=
  ∀ place, (t.node? place).map Node.shape = (t'.node? place).map Node.shape

variable {t t' t'' : FileTree}

theorem SameShape.refl (t : FileTree) : SameShape t t := fun _ => rfl

theorem SameShape.symm (h : SameShape t t') : SameShape t' t :=
  fun place => (h place).symm

theorem SameShape.trans (h : SameShape t t') (h' : SameShape t' t'') :
    SameShape t t'' :=
  fun place => (h place).trans (h' place)

theorem SameShape.node?_eq_none_iff (h : SameShape t t') {place : Place} :
    t.node? place = none ↔ t'.node? place = none := by
  rw [← Option.map_eq_none_iff (f := Node.shape), h place,
    Option.map_eq_none_iff]

theorem SameShape.directory (h : SameShape t t') {place : Place} {mode : Nat}
    (hnode : t.node? place = some (.directory mode)) :
    t'.node? place = some (.directory mode) := by
  have hshape := h place
  rw [hnode] at hshape
  obtain ⟨node, hnode', heq⟩ := Option.map_eq_some_iff.mp hshape.symm
  cases node <;> cases heq
  exact hnode'

theorem SameShape.link (h : SameShape t t') {place : Place} {target : Path}
    (hnode : t.node? place = some (.link target)) :
    t'.node? place = some (.link target) := by
  have hshape := h place
  rw [hnode] at hshape
  obtain ⟨node, hnode', heq⟩ := Option.map_eq_some_iff.mp hshape.symm
  cases node <;> cases heq
  exact hnode'

theorem SameShape.file (h : SameShape t t') {place : Place}
    {content : Utf8.Bytes} {mode : Nat}
    (hnode : t.node? place = some (.file content mode)) :
    ∃ content', t'.node? place = some (.file content' mode) := by
  have hshape := h place
  rw [hnode] at hshape
  obtain ⟨node, hnode', heq⟩ := Option.map_eq_some_iff.mp hshape.symm
  cases node with
  | file content' mode' =>
      cases heq
      exact ⟨content', hnode'⟩
  | directory => cases heq
  | link => cases heq

theorem SameShape.isDirectoryAt (h : SameShape t t') (place : Place) :
    t.isDirectoryAt place = t'.isDirectoryAt place := by
  rw [Bool.eq_iff_iff]
  constructor
  · intro hdirectory
    obtain ⟨mode, hnode⟩ := exists_mode_of_isDirectoryAt hdirectory
    exact isDirectoryAt_of_node? (h.directory hnode)
  · intro hdirectory
    obtain ⟨mode, hnode⟩ := exists_mode_of_isDirectoryAt hdirectory
    exact isDirectoryAt_of_node? (h.symm.directory hnode)

theorem shape_mode? (node : Node) : node.shape.mode? = node.mode? := by
  cases node <;> rfl

theorem SameShape.allowsAt (h : SameShape t t') (allows : Nat → Bool)
    (place : Place) :
    t.allowsAt allows place = t'.allowsAt allows place := by
  have bits (t : FileTree) :
      (t.node? place).bind Node.mode? =
      ((t.node? place).map Node.shape).bind Node.mode? := by
    cases t.node? place with
    | none => rfl
    | some node => exact (shape_mode? node).symm
  rw [FileTree.allowsAt, FileTree.allowsAt, bits t, bits t', h place]

theorem sameShape_set {place : Place} {content : Utf8.Bytes} {mode : Nat}
    (h : t.node? place = some (.file content mode)) (content' : Utf8.Bytes) :
    SameShape t (t.set place (.file content' mode)) := by
  intro other
  rw [node?_set_file h]
  split
  case isTrue heq =>
    rw [heq, h]
    rfl
  case isFalse => rfl

end FileTree

end TextOverride
