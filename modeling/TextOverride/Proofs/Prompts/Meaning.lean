import Mathlib.Data.List.Forall2
import TextOverride.Proofs.Prompts.Section
import TextOverride.Proofs.TextMap

namespace TextOverride.Prompts

def indent : Text := [' ', ' ']

def Dedented (line short : Text) : Prop :=
  line = indent ++ short ∨ ¬ indent <+: line ∧ short = line

/-- The value made of the lines of a block: each dedented, the blank lines at
both ends dropped, and the others joined by line feeds. -/
def Block (body : List Text) (value : Text) : Prop :=
  ∃ before kept after, List.Forall₂ Dedented body (before ++ kept ++ after) ∧
    (∀ line ∈ before, Text.Blank line) ∧ (∀ line ∈ after, Text.Blank line) ∧
    Trimmed kept ∧ value = ['\n'].intercalate kept

theorem dedent_eq_iff {line short : Text} :
    dedent line = short ↔ Dedented line short := by
  constructor
  · rintro rfl
    fun_cases dedent line with
    | case1 rest => exact .inl rfl
    | case2 line hne =>
        refine .inr ⟨?_, rfl⟩
        rintro ⟨rest, hrest⟩
        exact hne rest hrest.symm
  · rintro (rfl | ⟨hindent, rfl⟩)
    · rfl
    · rw [dedent]
      intro rest hrest
      exact hindent ⟨rest, hrest.symm⟩

theorem forall₂_dedented_iff {body lines : List Text} :
    List.Forall₂ Dedented body lines ↔ body.map dedent = lines := by
  rw [← List.forall₂_eq_eq_eq, List.forall₂_map_left_iff]
  simp only [dedent_eq_iff]

private theorem block_iff {key : Text} {body : List Text} {value : Text} :
    Block body value ↔ Section.value ⟨key, body⟩ = value := by
  rw [Section.value, join]
  constructor
  · rintro ⟨before, kept, after, hbody, hbefore, hafter, hkept, rfl⟩
    rw [forall₂_dedented_iff.mp hbody, trim_frame hkept hbefore hafter]
  · rintro rfl
    obtain ⟨before, after, hsplit, hkept, hbefore, hafter⟩ :=
      exists_trim (body.map dedent)
    exact ⟨before, _, after, forall₂_dedented_iff.mpr hsplit, hbefore, hafter,
      hkept, rfl⟩

/-! The last key line for a key. -/

theorem exists_last {α : Type} {p : α → Prop} {items : List α}
    (h : ∃ item ∈ items, p item) :
    ∃ before item after, items = before ++ item :: after ∧ p item ∧
      ∀ other ∈ after, ¬ p other := by
  induction items with
  | nil =>
      obtain ⟨item, hmem, _⟩ := h
      cases hmem
  | cons head rest ih =>
      by_cases hrest : ∃ item ∈ rest, p item
      · obtain ⟨before, item, after, hsplit, hitem, hafter⟩ := ih hrest
        exact ⟨head :: before, item, after, congrArg (head :: ·) hsplit,
          hitem, hafter⟩
      · obtain ⟨item, hmem, hitem⟩ := h
        rcases List.mem_cons.mp hmem with rfl | hmem
        · exact ⟨[], item, rest, rfl, hitem, fun other hother hp =>
            hrest ⟨other, hother, hp⟩⟩
        · exact absurd ⟨item, hmem, hitem⟩ hrest

theorem lookup?_sections_of_undefined {key : Text} {lines : List Text}
    (h : ∀ line ∈ lines, keyLine? line ≠ some key) :
    TextMap.lookup? key ((sections lines).2.map Section.pair).reverse =
      none := by
  rw [TextMap.lookup?_eq_none_iff]
  intro entry hentry heq
  obtain ⟨s, hs, rfl⟩ := List.mem_map.mp (List.mem_reverse.mp hentry)
  obtain ⟨line, hline, hkey⟩ := exists_keyLine_of_mem_sections hs
  exact h line hline (hkey.trans (congrArg some heq))

theorem lookup?_sections_of_last {key line : Text} {rest : List Text}
    (hline : keyLine? line = some key)
    (hrest : ∀ other ∈ rest, keyLine? other ≠ some key) (before : List Text) :
    TextMap.lookup? key
        ((sections (before ++ line :: rest)).2.map Section.pair).reverse =
      some (Section.value ⟨key, (sections rest).1⟩) := by
  rw [sections_append_key hline, sections_cons_key hline, List.map_append,
    List.map_cons, List.reverse_append, List.reverse_cons,
    TextMap.lookup?_append, TextMap.lookup?_append,
    lookup?_sections_of_undefined hrest]
  exact congrArg (Option.or · _) (if_pos rfl)

theorem get?_parse (text key : Text) :
    (parse text).get? key =
      TextMap.lookup? key
        ((sections (unmark text).lines).2.map Section.pair).reverse :=
  TextMap.get?_ofList _ key

theorem get?_parse_isSome_iff {text key : Text} :
    ((parse text).get? key).isSome ↔
      ∃ line ∈ (unmark text).lines, KeyLine key line := by
  simp only [get?_parse, ← keyLine?_eq_some_iff]
  constructor
  · intro hsome
    by_contra hnone
    rw [lookup?_sections_of_undefined fun line hline hkey =>
      hnone ⟨line, hline, hkey⟩] at hsome
    cases hsome
  · intro hdefined
    obtain ⟨before, line, rest, hsplit, hline, hrest⟩ := exists_last hdefined
    rw [hsplit, lookup?_sections_of_last hline hrest]
    rfl

def Keyless (lines : List Text) : Prop :=
  ∀ line ∈ lines, ∀ key, ¬ KeyLine key line

theorem keyless_iff {lines : List Text} :
    Keyless lines ↔ ∀ line ∈ lines, keyLine? line = none := by
  simp only [Keyless, ← keyLine?_eq_some_iff,
    Option.eq_none_iff_forall_ne_some, ne_eq]

instance (lines : List Text) : Decidable (Keyless lines) :=
  decidable_of_iff _ keyless_iff.symm

private theorem keyless_takeWhile (lines : List Text) :
    Keyless (lines.takeWhile fun line => (keyLine? line).isNone) := by
  intro line hline key hkey
  have hnone := List.mem_takeWhile_imp hline
  rw [keyLine?_eq_some_iff.mpr hkey] at hnone
  cases hnone

/-- The block of a key line runs to the next key line of any key. -/
theorem sections_fst_of_boundary {body after : List Text} (hbody : Keyless body)
    (hafter : ∀ line ∈ after.head?, ∃ key, KeyLine key line) :
    (sections (body ++ after)).1 = body := by
  rw [sections_body_append (keyless_iff.mp hbody)]
  cases after with
  | nil => exact List.append_nil body
  | cons line after =>
      obtain ⟨key, hkey⟩ := hafter line rfl
      rw [sections_cons_key (keyLine?_eq_some_iff.mpr hkey)]
      exact List.append_nil body

private theorem exists_boundary (rest : List Text) :
    ∃ after, rest = (sections rest).1 ++ after ∧ Keyless (sections rest).1 ∧
      ∀ line ∈ after.head?, ∃ key, KeyLine key line := by
  rw [sections_fst]
  refine ⟨_, List.takeWhile_append_dropWhile.symm, keyless_takeWhile rest, ?_⟩
  intro line hline
  have hstop :=
    List.head?_dropWhile_not (fun line => (keyLine? line).isNone) rest
  rw [Option.mem_def.mp hline] at hstop
  obtain ⟨key, hkey⟩ :=
    Option.isSome_iff_exists.mp (Option.isNone_eq_false_iff.mp hstop)
  exact ⟨key, keyLine?_eq_some_iff.mp hkey⟩

/-- `body` are the lines of the block of the last key line for `key`. -/
def LastBlock (lines : List Text) (key : Text) (body : List Text) : Prop :=
  ∃ before line after, lines = before ++ line :: (body ++ after) ∧
    KeyLine key line ∧
    Keyless body ∧ (∀ next ∈ after.head?, ∃ other, KeyLine other next) ∧
    ∀ later ∈ after, ¬ KeyLine key later

private theorem get?_parse_of_lastBlock {text key : Text} {body : List Text}
    (h : LastBlock (unmark text).lines key body) :
    (parse text).get? key = some (Section.value ⟨key, body⟩) := by
  obtain ⟨before, line, after, hsplit, hline, hbody, hnext, hlater⟩ := h
  have hrest : ∀ other ∈ body ++ after, keyLine? other ≠ some key := by
    intro other hother hkey
    rcases List.mem_append.mp hother with hmem | hmem
    · exact hbody other hmem key (keyLine?_eq_some_iff.mp hkey)
    · exact hlater other hmem (keyLine?_eq_some_iff.mp hkey)
  rw [get?_parse, hsplit, lookup?_sections_of_last
    (keyLine?_eq_some_iff.mpr hline) hrest,
    sections_fst_of_boundary hbody hnext]

private theorem exists_lastBlock {lines : List Text} {key : Text}
    (h : ∃ line ∈ lines, KeyLine key line) : ∃ body,
    LastBlock lines key body := by
  obtain ⟨before, line, rest, hsplit, hline, hrest⟩ := exists_last h
  obtain ⟨after, hboundary, hbody, hnext⟩ := exists_boundary rest
  refine ⟨(sections rest).1, before, line, after, ?_, hline, hbody, hnext, ?_⟩
  · rw [hsplit, ← hboundary]
  · intro later hlater
    apply hrest
    rw [hboundary]
    exact List.mem_append_right _ hlater

theorem get?_parse_eq_some_iff {text key value : Text} :
    (parse text).get? key = some value ↔
      ∃ body, LastBlock (unmark text).lines key body ∧ Block body value := by
  constructor
  · intro hget
    have hsome : ((parse text).get? key).isSome :=
      Option.isSome_iff_exists.mpr ⟨value, hget⟩
    obtain ⟨body, hlast⟩ := exists_lastBlock (get?_parse_isSome_iff.mp hsome)
    rw [get?_parse_of_lastBlock hlast] at hget
    exact ⟨body, hlast, block_iff.mpr (Option.some.inj hget)⟩
  · rintro ⟨body, hlast, hblock⟩
    rw [get?_parse_of_lastBlock hlast, block_iff.mp hblock]

private theorem parse_eq_of_keyless {text other : Text}
    {before before' rest : List Text}
    (htext : (unmark text).lines = before ++ rest)
    (hother : (unmark other).lines = before' ++ rest) (hbefore : Keyless before)
    (hbefore' : Keyless before') : parse text = parse other := by
  rw [parse, parse, htext, hother,
    sections_body_append (keyless_iff.mp hbefore),
    sections_body_append (keyless_iff.mp hbefore')]

/-- A key is defined by its last key line: the value is the block after it.
Lines before the first key line have no effect on any key. -/
theorem parse_by_last_key_lines (text : Text) :
    (∀ key, ((parse text).get? key).isSome ↔
      ∃ line ∈ (unmark text).lines, KeyLine key line) ∧
    (∀ key value, (parse text).get? key = some value ↔
      ∃ body, LastBlock (unmark text).lines key body ∧ Block body value) ∧
    ∀ other before before' rest, (unmark text).lines = before ++ rest →
      (unmark other).lines = before' ++ rest → Keyless before →
      Keyless before' →
        parse text = parse other :=
  ⟨fun _ => get?_parse_isSome_iff, fun _ _ => get?_parse_eq_some_iff,
    fun _ _ _ _ => parse_eq_of_keyless⟩

theorem parse_by_last_key_lines_preamble :
    Keyless ["note".toList, "a b:".toList] ∧ Keyless [] ∧
      parse "note\na b:\na:\n  x".toList = parse "a:\n  x".toList := by
  have hnote : Keyless ["note".toList, "a b:".toList] := by decide
  have hnil : Keyless [] := by decide
  exact ⟨hnote, hnil, (parse_by_last_key_lines _).2.2 _ _ []
    ["a:".toList, "  x".toList] rfl rfl
    hnote hnil⟩

end TextOverride.Prompts
