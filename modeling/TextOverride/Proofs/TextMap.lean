import TextOverride.TextMap

namespace TextOverride.TextMap

variable {α : Type}

abbrev Distinct (entries : List (Text × α)) : Prop :=
  entries.Pairwise fun a b => a.1 ≠ b.1

theorem distinct_entries (map : TextMap α) : Distinct map.entries := by
  refine map.ascending.imp ?_
  intro a b hlt heq
  rw [heq] at hlt
  exact List.lt_irrefl _ hlt

theorem Distinct.perm {entries others : List (Text × α)} (h : Distinct entries)
    (hperm : others.Perm entries) : Distinct others :=
  hperm.symm.pairwise h fun hne => hne.symm

theorem lookup?_eq_none_iff {key : Text} {entries : List (Text × α)} :
    lookup? key entries = none ↔ ∀ entry ∈ entries, entry.1 ≠ key := by
  induction entries with
  | nil => simp [lookup?]
  | cons head rest ih =>
      rw [lookup?]
      split
      case isTrue heq => simp [heq]
      case isFalse hne =>
        rw [ih, List.forall_mem_cons]
        exact (and_iff_right (Ne.symm hne)).symm

theorem mem_of_lookup? {key : Text} {value : α} {entries : List (Text × α)}
    (h : lookup? key entries = some value) : (key, value) ∈ entries := by
  induction entries with
  | nil => cases h
  | cons head rest ih =>
      rw [lookup?] at h
      split at h
      case isTrue heq =>
        cases h
        exact heq ▸ List.mem_cons_self
      case isFalse => exact List.mem_cons_of_mem _ (ih h)

theorem lookup?_of_mem {key : Text} {value : α} {entries : List (Text × α)}
    (hdistinct : Distinct entries) (h : (key, value) ∈ entries) :
    lookup? key entries = some value := by
  induction entries with
  | nil => cases h
  | cons head rest ih =>
      obtain ⟨hhead, hrest⟩ := List.pairwise_cons.mp hdistinct
      rw [lookup?]
      rcases List.mem_cons.mp h with rfl | hmem
      · exact if_pos rfl
      · rw [if_neg fun heq => hhead _ hmem heq.symm]
        exact ih hrest hmem

theorem lookup?_append (key : Text) (entries others : List (Text × α)) :
    lookup? key (entries ++ others) =
      (lookup? key entries).or (lookup? key others) := by
  induction entries with
  | nil => rfl
  | cons head rest ih =>
      rw [List.cons_append, lookup?, lookup?]
      split
      · rfl
      · exact ih

theorem get?_eq_some_iff {map : TextMap α} {key : Text} {value : α} :
    map.get? key = some value ↔ (key, value) ∈ map.entries :=
  ⟨mem_of_lookup?, lookup?_of_mem map.distinct_entries⟩

theorem entries_eq_of_mem_iff {a b : TextMap α}
    (h : ∀ entry, entry ∈ a.entries ↔ entry ∈ b.entries) : a.entries =
    b.entries := by
  have nodup (map : TextMap α) : map.entries.Nodup :=
    map.distinct_entries.imp fun hne heq => hne (congrArg Prod.fst heq)
  have hperm := (List.perm_ext_iff_of_nodup (nodup a) (nodup b)).mpr h
  refine hperm.eq_of_pairwise ?_ a.ascending b.ascending
  intro x y _ _ hlt hgt
  exact absurd (List.lt_trans hlt hgt) (List.lt_irrefl _)

theorem ext_get? {a b : TextMap α}
    (h : ∀ key, a.get? key = b.get? key) : a = b := by
  have hentries : a.entries = b.entries := by
    apply entries_eq_of_mem_iff
    rintro ⟨key, value⟩
    rw [← get?_eq_some_iff, ← get?_eq_some_iff, h]
  cases a
  cases b
  cases hentries
  rfl

theorem get?_foldl_insert (pairs : List (Text × α)) (map : TextMap α)
    (key : Text) :
    (pairs.foldl (fun map pair => map.insert pair.1 pair.2) map).get? key =
      (lookup? key pairs.reverse).or (map.get? key) := by
  induction pairs generalizing map with
  | nil => rfl
  | cons head rest ih =>
      rw [List.foldl_cons, ih, get?_insert, List.reverse_cons, lookup?_append,
        lookup?]
      cases lookup? key rest.reverse with
      | some value => rfl
      | none => split <;> rfl

theorem get?_ofList (pairs : List (Text × α)) (key : Text) :
    (ofList pairs).get? key = lookup? key pairs.reverse := by
  rw [ofList, get?_foldl_insert, get?_empty, Option.or_none]

theorem ofList_of_perm {map : TextMap α} {pairs : List (Text × α)}
    (h : pairs.Perm map.entries) : ofList pairs = map := by
  have hperm : pairs.reverse.Perm map.entries := pairs.reverse_perm.trans h
  apply ext_get?
  intro key
  rw [get?_ofList]
  cases hget : map.get? key with
  | none =>
      rw [lookup?_eq_none_iff]
      intro entry hentry
      exact lookup?_eq_none_iff.mp hget entry (hperm.mem_iff.mp hentry)
  | some value =>
      apply lookup?_of_mem (map.distinct_entries.perm hperm)
      exact hperm.mem_iff.mpr (get?_eq_some_iff.mp hget)

end TextOverride.TextMap
