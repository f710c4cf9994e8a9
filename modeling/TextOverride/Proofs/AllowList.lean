import TextOverride.AllowList
import TextOverride.Proofs.Prompts.Section
import TextOverride.Proofs.TextMap.Canonical

namespace TextOverride

def BeginsIdentifier (c : Char) : Prop :=
  'a' ≤ c ∧ c ≤ 'z' ∨ 'A' ≤ c ∧ c ≤ 'Z' ∨ c = '_' ∨ c = '$'

/-- A letter, an underscore or a dollar sign, then also digits. -/
def Identifier (name : Text) : Prop :=
  ∃ c rest, name = c :: rest ∧ BeginsIdentifier c ∧
    ∀ d ∈ rest, BeginsIdentifier d ∨ '0' ≤ d ∧ d ≤ '9'

namespace AllowList

theorem startsIdentifier_iff {c : Char} :
    startsIdentifier c = true ↔ BeginsIdentifier c := by
  change (Prompts.isKeyChar c || c == '$') = true ↔ _
  simp only [Bool.or_eq_true, Prompts.isKeyChar_iff, beq_iff_eq, or_assoc,
    BeginsIdentifier]

private theorem continuesIdentifier_iff {c : Char} :
    continuesIdentifier c = true ↔ BeginsIdentifier c ∨ '0' ≤ c ∧ c ≤ '9' := by
  have digit : c.isDigit = true ↔ '0' ≤ c ∧ c ≤ '9' :=
    (Bool.and_eq_true_iff).trans
      (and_congr decide_eq_true_iff decide_eq_true_iff)
  rw [continuesIdentifier, Bool.or_eq_true, startsIdentifier_iff, digit]

theorem isIdentifier_iff {name : Text} :
    isIdentifier name = true ↔ Identifier name := by
  cases name with
  | nil => exact iff_of_false Bool.false_ne_true fun ⟨_, _, h, _⟩ => nomatch h
  | cons c rest =>
      simp only [isIdentifier, Bool.and_eq_true, List.all_eq_true,
        startsIdentifier_iff, continuesIdentifier_iff]
      constructor
      · rintro ⟨hbegins, hrest⟩
        exact ⟨c, rest, rfl, hbegins, hrest⟩
      · rintro ⟨_, _, hname, hbegins, hrest⟩
        cases hname
        exact ⟨hbegins, hrest⟩

instance (name : Text) : Decidable (Identifier name) :=
  decidable_of_iff _ isIdentifier_iff

/-- A line feed at the end is not passed over. -/
example : Identifier "$a_1".toList ∧ ¬ Identifier "A\n".toList := by decide

theorem contains_iff {allow : AllowList} {name : Text} :
    allow.contains name = true ↔ name ∈ allow.keys := by
  rw [contains, Option.isSome_iff_exists, TextMap.mem_keys_iff]

theorem mem_keys_ofNames_iff {names : List Text} {name : Text} :
    name ∈ (ofNames names).keys ↔ name ∈ names := by
  rw [ofNames, TextMap.mem_keys_ofList_iff, List.map_map]
  exact iff_of_eq (congrArg (name ∈ ·) (List.map_id names))

private theorem ext_keys {allow other : AllowList}
    (h : ∀ name, name ∈ allow.keys ↔ name ∈ other.keys) :
    allow = other := by
  refine TextMap.ext_get? fun name => Option.ext fun ⟨⟩ => ?_
  have hget (map : AllowList) : map.get? name = some () ↔ name ∈ map.keys := by
    rw [TextMap.mem_keys_iff]
    exact ⟨fun h => ⟨(), h⟩, fun ⟨_, h⟩ => h⟩
  rw [hget, hget, h]

theorem ofNames_congr {names others : List Text}
    (h : ∀ name, name ∈ names ↔ name ∈ others) :
    ofNames names = ofNames others := by
  refine ext_keys fun name => ?_
  rw [mem_keys_ofNames_iff, mem_keys_ofNames_iff, h]

theorem flaw?_eq_none_iff {allow : AllowList} :
    allow.flaw? = none ↔ allow.keys ≠ [] ∧
    ∀ name ∈ allow.keys, isIdentifier name = true := by
  rw [flaw?]
  by_cases h : allow.isEmpty = true
  · rw [if_pos h]
    exact iff_of_false nofun fun hall => hall.1 (TextMap.isEmpty_iff.mp h)
  · rw [if_neg h, Option.map_eq_none_iff, List.find?_eq_none,
      and_iff_right ((not_congr TextMap.isEmpty_iff).mp h)]
    simp only [Bool.not_eq_true', Bool.not_eq_false]

structure LeastFlawed (names : List Text) (name : Text) : Prop where
  mem : name ∈ names
  flawed : ¬ Identifier name
  le : ∀ other ∈ names, ¬ Identifier other →
    Utf8.encode name ≤ Utf8.encode other

private theorem leastFlawed_of_find? {names : List Text} {name : Text}
    (hascending : names.Pairwise (· < ·))
    (h : names.find? (fun name => !isIdentifier name) = some name) : LeastFlawed
    names name := by
  obtain ⟨hflawed, before, after, rfl, hbefore⟩ :=
    List.find?_eq_some_iff_append.mp h
  have hafter :=
    (List.pairwise_cons.mp (List.pairwise_append.mp hascending).2.1).1
  simp only [Bool.not_not, Bool.not_eq_true', ← Bool.not_eq_true,
    isIdentifier_iff]
    at hflawed hbefore
  refine ⟨List.mem_append_right _ List.mem_cons_self, hflawed,
    fun other hother hbad => ?_⟩
  rcases List.mem_append.mp hother with hmem | hmem
  · exact absurd (hbefore other hmem) hbad
  · rcases List.mem_cons.mp hmem with rfl | hmem
    · exact List.le_refl _
    · exact List.le_of_lt (Utf8.encode_lt_encode (hafter other hmem))

private theorem exists_of_flaw? {allow : AllowList} {flaw : AllowListFlaw}
    (h : allow.flaw? = some flaw) :
    allow.keys = [] ∧ flaw = .empty ∨
      ∃ name, flaw = .notIdentifier name ∧ LeastFlawed allow.keys name := by
  rw [flaw?] at h
  split at h
  case isTrue hempty =>
    cases h
    exact .inl ⟨TextMap.isEmpty_iff.mp hempty, rfl⟩
  case isFalse =>
    obtain ⟨name, hfind, rfl⟩ := Option.map_eq_some_iff.mp h
    exact .inr ⟨name, rfl, leastFlawed_of_find? allow.keys_ascending hfind⟩

theorem flaw?_ofNames_eq_none_iff {names : List Text} :
    (ofNames names).flaw? = none ↔
      names ≠ [] ∧ ∀ name ∈ names, Identifier name := by
  rw [flaw?_eq_none_iff]
  simp only [ne_eq, List.eq_nil_iff_forall_not_mem, mem_keys_ofNames_iff,
    isIdentifier_iff]

private theorem leastFlawed_ofNames_iff {names : List Text} {name : Text} :
    LeastFlawed (ofNames names).keys name ↔ LeastFlawed names name := by
  constructor
  · rintro ⟨hmem, hflawed, hle⟩
    exact ⟨mem_keys_ofNames_iff.mp hmem, hflawed,
      fun other hother => hle other (mem_keys_ofNames_iff.mpr hother)⟩
  · rintro ⟨hmem, hflawed, hle⟩
    exact ⟨mem_keys_ofNames_iff.mpr hmem, hflawed,
      fun other hother => hle other (mem_keys_ofNames_iff.mp hother)⟩

theorem report_of_flaw?_ofNames {names : List Text} {flaw : AllowListFlaw}
    (h : (ofNames names).flaw? = some flaw) :
    flaw.report.code = .validationFailed ∧
      (names = [] ∧ flaw.report.detail = "allow_list".toList ∨
        LeastFlawed names flaw.report.detail) := by
  rcases exists_of_flaw? h with ⟨hempty, rfl⟩ | ⟨name, rfl, hleast⟩
  · refine ⟨rfl, .inl ⟨?_, rfl⟩⟩
    simpa only [List.eq_nil_iff_forall_not_mem, mem_keys_ofNames_iff]
      using hempty
  · exact ⟨rfl, .inr (leastFlawed_ofNames_iff.mp hleast)⟩

end AllowList

end TextOverride
