import TextOverride.Text

namespace TextOverride

variable {α : Type}

/-- Code point order is also the order of the UTF-8 bytes. -/
structure TextMap (α : Type) where
  entries : List (Text × α)
  ascending : entries.Pairwise fun a b => a.1 < b.1

namespace TextMap

def empty : TextMap α := ⟨[], .nil⟩

def insertEntry (key : Text) (value : α) : List (Text × α) → List (Text × α)
  | [] => [(key, value)]
  | entry :: rest =>
      if key < entry.1 then (key, value) :: entry :: rest
      else if key = entry.1 then (key, value) :: rest
      else entry :: insertEntry key value rest

theorem mem_insertEntry {key : Text} {value : α} {entry : Text × α}
    {entries : List (Text × α)} (h : entry ∈ insertEntry key value entries) :
    entry = (key, value) ∨ entry ∈ entries := by
  induction entries with
  | nil => simpa [insertEntry] using h
  | cons head rest ih =>
      rw [insertEntry] at h
      split at h
      · simpa using h
      · split at h
        · simp only [List.mem_cons] at h ⊢
          exact h.imp_right .inr
        · simp only [List.mem_cons] at h ⊢
          rcases h with h | h
          · exact .inr (.inl h)
          · exact (ih h).imp_right .inr

theorem insertEntry_ascending (key : Text) (value : α)
    {entries : List (Text × α)} (h : entries.Pairwise fun a b => a.1 < b.1) :
    (insertEntry key value entries).Pairwise fun a b => a.1 < b.1 := by
  induction entries with
  | nil => simp [insertEntry]
  | cons head rest ih =>
      have ⟨hhead, hrest⟩ := List.pairwise_cons.mp h
      rw [insertEntry]
      split
      case isTrue hlt =>
        refine List.pairwise_cons.mpr ⟨fun entry hentry => ?_, h⟩
        rcases List.mem_cons.mp hentry with rfl | hentry
        · exact hlt
        · exact List.lt_trans hlt (hhead entry hentry)
      case isFalse hle =>
        split
        case isTrue heq => exact List.pairwise_cons.mpr ⟨heq ▸ hhead, hrest⟩
        case isFalse hne =>
          refine List.pairwise_cons.mpr ⟨fun entry hentry => ?_, ih hrest⟩
          rcases mem_insertEntry hentry with rfl | hentry
          · exact Decidable.byContradiction fun h =>
              hne (List.le_antisymm h hle)
          · exact hhead entry hentry

def insert (map : TextMap α) (key : Text) (value : α) : TextMap α :=
  ⟨insertEntry key value map.entries,
    insertEntry_ascending key value map.ascending⟩

/-- Of two pairs with one key the later one counts. -/
def ofList (pairs : List (Text × α)) : TextMap α :=
  pairs.foldl (fun map pair => map.insert pair.1 pair.2) empty

def lookup? (key : Text) : List (Text × α) → Option α
  | [] => none
  | entry :: rest => if key = entry.1 then some entry.2 else lookup? key rest

def get? (map : TextMap α) (key : Text) : Option α := lookup? key map.entries

def keys (map : TextMap α) : List Text := map.entries.map Prod.fst

def size (map : TextMap α) : Nat := map.entries.length

def isEmpty (map : TextMap α) : Bool := map.entries.isEmpty

theorem lookup?_insertEntry (key other : Text) (value : α)
    (entries : List (Text × α)) :
    lookup? other (insertEntry key value entries) =
      if other = key then some value else lookup? other entries := by
  induction entries with
  | nil => rfl
  | cons head rest ih => grind [insertEntry, lookup?]

@[simp] theorem get?_empty (key : Text) :
    (empty : TextMap α).get? key = none := rfl

theorem get?_insert (map : TextMap α) (key other : Text) (value : α) :
    (map.insert key value).get? other =
      if other = key then some value else map.get? other :=
  lookup?_insertEntry key other value map.entries

end TextMap

end TextOverride
