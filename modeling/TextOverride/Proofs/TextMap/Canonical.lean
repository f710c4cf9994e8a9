import Mathlib.Data.List.Dedup
import TextOverride.Proofs.Text.Order
import TextOverride.Proofs.TextMap

namespace TextOverride.TextMap

variable {α : Type}

theorem mem_keys_iff {map : TextMap α} {key : Text} :
    key ∈ map.keys ↔ ∃ value, map.get? key = some value := by
  rw [keys, List.mem_map]
  constructor
  · rintro ⟨⟨_, value⟩, hmem, rfl⟩
    exact ⟨value, get?_eq_some_iff.mpr hmem⟩
  · rintro ⟨value, hget⟩
    exact ⟨(key, value), get?_eq_some_iff.mp hget, rfl⟩

theorem keys_ascending (map : TextMap α) : map.keys.Pairwise (· < ·) :=
  List.pairwise_map.mpr map.ascending

theorem keys_nodup (map : TextMap α) : map.keys.Nodup :=
  List.pairwise_map.mpr map.distinct_entries

theorem keys_ascending_bytes (map : TextMap α) :
    map.keys.Pairwise fun a b => Utf8.encode a < Utf8.encode b :=
  map.keys_ascending.imp Utf8.encode_lt_encode

theorem entries_eq_keys (map : TextMap α) :
    map.entries.map (fun entry => (entry.1, some entry.2)) =
      map.keys.map fun key => (key, map.get? key) := by
  rw [keys, List.map_map]
  refine List.map_congr_left fun entry hentry => ?_
  exact congrArg (Prod.mk entry.1) (get?_eq_some_iff.mpr hentry).symm

/-- A map has as many entries as a list of its keys has different names. -/
theorem size_eq {map : TextMap α} {names : List Text}
    (h : ∀ key, key ∈ map.keys ↔ key ∈ names) :
    map.size = names.dedup.length := by
  have hperm : map.keys.Perm names.dedup := by
    refine (List.perm_ext_iff_of_nodup map.keys_nodup names.nodup_dedup).mpr
      fun key => ?_
    rw [h, List.mem_dedup]
  rw [← hperm.length_eq, keys, List.length_map, size]

theorem isEmpty_iff {map : TextMap α} : map.isEmpty = true ↔ map.keys = [] := by
  rw [isEmpty, keys, List.isEmpty_iff, List.map_eq_nil_iff]

def LastValue (pairs : List (Text × α)) (key : Text) (value : α) : Prop :=
  ∃ before after, pairs = before ++ (key, value) :: after ∧
    ∀ pair ∈ after, pair.1 ≠ key

theorem lookup?_eq_some_iff {key : Text} {value : α}
    {entries : List (Text × α)} :
    lookup? key entries = some value ↔
      ∃ before after, entries = before ++ (key, value) :: after ∧
        ∀ entry ∈ before, entry.1 ≠ key := by
  constructor
  · intro h
    induction entries with
    | nil => cases h
    | cons head rest ih =>
        rw [lookup?] at h
        split at h
        case isTrue heq =>
          cases h
          exact ⟨[], rest, by rw [heq, List.nil_append], List.forall_mem_nil _⟩
        case isFalse hne =>
          obtain ⟨before, after, rfl, hbefore⟩ := ih h
          exact ⟨head :: before, after, rfl,
            List.forall_mem_cons.mpr ⟨Ne.symm hne, hbefore⟩⟩
  · rintro ⟨before, after, rfl, hbefore⟩
    rw [lookup?_append, lookup?_eq_none_iff.mpr hbefore, Option.none_or]
    exact if_pos rfl

theorem get?_ofList_eq_some_iff {pairs : List (Text × α)} {key : Text}
    {value : α} :
    (ofList pairs).get? key = some value ↔ LastValue pairs key value := by
  rw [get?_ofList, lookup?_eq_some_iff, LastValue]
  constructor
  · rintro ⟨after, before, hpairs, hafter⟩
    refine ⟨before.reverse, after.reverse, ?_, fun pair hpair => ?_⟩
    · rw [← pairs.reverse_reverse, hpairs]
      simp
    · exact hafter pair (List.mem_reverse.mp hpair)
  · rintro ⟨before, after, rfl, hafter⟩
    refine ⟨after.reverse, before.reverse, by simp, fun pair hpair => ?_⟩
    exact hafter pair (List.mem_reverse.mp hpair)

theorem get?_ofList_eq_none_iff {pairs : List (Text × α)} {key : Text} :
    (ofList pairs).get? key = none ↔ ∀ pair ∈ pairs, pair.1 ≠ key := by
  rw [get?_ofList, lookup?_eq_none_iff]
  simp only [List.mem_reverse]

theorem mem_keys_ofList_iff {pairs : List (Text × α)} {key : Text} :
    key ∈ (ofList pairs).keys ↔ key ∈ pairs.map Prod.fst := by
  rw [mem_keys_iff, ← Option.isSome_iff_exists,
    ← Option.ne_none_iff_isSome, ne_eq, get?_ofList_eq_none_iff, List.mem_map]
  simp only [ne_eq, not_forall, not_not, exists_prop]

theorem isEmpty_ofList_iff {pairs : List (Text × α)} :
    (ofList pairs).isEmpty = true ↔ pairs = [] := by
  rw [isEmpty_iff, List.eq_nil_iff_forall_not_mem]
  simp only [mem_keys_ofList_iff]
  rw [← List.eq_nil_iff_forall_not_mem, List.map_eq_nil_iff]

theorem ofList_eq_iff {pairs others : List (Text × α)} :
    ofList pairs = ofList others ↔
      ∀ key value, LastValue pairs key value ↔ LastValue others key value := by
  simp only [← get?_ofList_eq_some_iff]
  constructor
  · intro h key value
    rw [h]
  · intro h
    exact ext_get? fun key => Option.ext fun value => h key value

/-- A map that is built from pairs has the last value of each key, under keys
that ascend by their bytes, and is told by these values alone. -/
theorem ofList_canonical (pairs : List (Text × α)) :
    (∀ key value, (ofList pairs).get? key = some value ↔
      LastValue pairs key value) ∧
      (∀ key, (ofList pairs).get? key = none ↔ ∀ pair ∈ pairs, pair.1 ≠ key) ∧
      ((ofList pairs).keys.Pairwise fun a b => Utf8.encode a < Utf8.encode b) ∧
      (∀ key, key ∈ (ofList pairs).keys ↔ key ∈ pairs.map Prod.fst) ∧
      (ofList pairs).entries.map (fun entry => (entry.1, some entry.2)) =
        (ofList pairs).keys.map (fun key => (key, (ofList pairs).get? key)) ∧
      (ofList pairs).size = (pairs.map Prod.fst).dedup.length ∧
      ((ofList pairs).isEmpty = true ↔ pairs = []) ∧
      ∀ others, ofList pairs = ofList others ↔
        ∀ key value, LastValue pairs key value ↔
          LastValue others key value := by
  exact ⟨fun _ _ => get?_ofList_eq_some_iff, fun _ => get?_ofList_eq_none_iff,
    keys_ascending_bytes _, fun _ => mem_keys_ofList_iff, entries_eq_keys _,
    size_eq fun _ => mem_keys_ofList_iff, isEmpty_ofList_iff, fun _ =>
      ofList_eq_iff⟩

end TextOverride.TextMap
