import TextOverride.Injection
import TextOverride.Proofs.Prompts.Meaning

namespace TextOverride.Prompts

/-- The rows of a value, cut at line feeds; there is at least one. -/
def rows (value : Text) : List Text := value.splitOn '\n'

def Canonical (value : Text) : Prop := value = [] ∨ Trimmed (rows value)

instance (value : Text) : Decidable (Canonical value) :=
  inferInstanceAs (Decidable (_ ∨ _))

structure WellFormed (prompts : Prompts) : Prop where
  isKey : ∀ entry ∈ prompts.entries, IsKey entry.1
  canonical : ∀ entry ∈ prompts.entries, Canonical entry.2

def entryLines (entry : Text × Text) : List Text :=
  (entry.1 ++ [':']) :: (rows entry.2).map (indent ++ ·)

def render (ending : LineEnding) (entries : List (Text × Text)) : Text :=
  (entries.flatMap entryLines).flatMap (· ++ ending.text)

private theorem no_feed_of_mem_rows {value row : Text} (h : row ∈ rows value) :
    '\n' ∉ row := by
  rw [rows] at h
  induction value using Text.line_induction with
  | nil =>
      rw [List.splitOn_nil, List.mem_singleton] at h
      exact h ▸ List.not_mem_nil
  | last last hne hfeed =>
      rw [List.splitOn_eq_singleton hfeed, List.mem_singleton] at h
      exact h ▸ hfeed
  | line first rest hfeed ih =>
      rw [List.splitOn_append_cons_self_of_not_mem hfeed] at h
      rcases List.mem_cons.mp h with rfl | hmem
      · exact hfeed
      · exact ih hmem

private theorem join_rows (value : Text) : join (rows value) = value :=
  List.intercalate_splitOn '\n'

private theorem rows_join {lines : List Text}
    (hfeed : ∀ line ∈ lines, '\n' ∉ line) (hne : lines ≠ []) :
    rows (join lines) = lines :=
  List.splitOn_intercalate '\n' hfeed hne

theorem dedent_sublist (line : Text) : (dedent line).Sublist line := by
  rcases dedent_eq_iff.mp (Eq.refl (dedent line)) with hindent | ⟨_, hsame⟩
  · nth_rewrite 2 [hindent]
    exact List.sublist_append_right indent _
  · rw [hsame]

private theorem Block.canonical {body : List Text} {value : Text}
    (h : Block body value) (hfeed : ∀ line ∈ body, '\n' ∉ line) : Canonical
    value := by
  obtain ⟨before, kept, after, hbody, _, _, hkept, rfl⟩ := h
  by_cases hne : kept = []
  · exact .inl (hne ▸ rfl)
  · have hrows : rows (join kept) = kept := by
      apply rows_join _ hne
      intro line hline
      have hmem : line ∈ before ++ kept ++ after :=
        List.mem_append_left _ (List.mem_append_right _ hline)
      rw [← forall₂_dedented_iff.mp hbody] at hmem
      obtain ⟨source, hsource, rfl⟩ := List.mem_map.mp hmem
      exact fun hshort =>
        hfeed source hsource ((dedent_sublist source).mem hshort)
    exact .inr (hrows.symm ▸ hkept)

private theorem parse_wellFormed (text : Text) : WellFormed (parse text) := by
  have meaning {entry : Text × Text} (h : entry ∈ (parse text).entries) :
      ∃ body, LastBlock (unmark text).lines entry.1 body ∧ Block body entry.2 :=
    get?_parse_eq_some_iff.mp (TextMap.get?_eq_some_iff.mpr h)
  constructor
  · intro entry hentry
    obtain ⟨body, ⟨_, _, _, _, hline, _⟩, _⟩ := meaning hentry
    exact hline.1
  · intro entry hentry
    obtain ⟨body, ⟨before, line, after, hsplit, _⟩, hblock⟩ := meaning hentry
    apply hblock.canonical
    intro other hother
    apply Text.no_feed_of_mem_lines (t := unmark text)
    rw [hsplit]
    exact List.mem_append_right _
      (List.mem_cons_of_mem _ (List.mem_append_left _ hother))

/-! Reading what was written. -/

/-- A line that keeps its last character when an ending is put behind it. -/
def Survives (ending : LineEnding) (line : Text) : Prop :=
  '\n' ∉ line ∧ (ending = .crlf ∨ line.getLast? ≠ some '\r')

private theorem lines_ending {ending : LineEnding} {line : Text}
    (h : Survives ending line) (rest : Text) :
    Text.lines (line ++ ending.text ++ rest) = line :: Text.lines rest := by
  obtain ⟨hfeed, hcr⟩ := h
  rw [List.append_assoc]
  cases ending with
  | crlf => exact Text.lines_crlf hfeed rest
  | lf => exact Text.lines_lf hfeed (hcr.resolve_left (by decide)) rest

private theorem lines_flatMap_ending {ending : LineEnding} {lines : List Text}
    (h : ∀ line ∈ lines, Survives ending line) :
    Text.lines (lines.flatMap (· ++ ending.text)) = lines := by
  induction lines with
  | nil => rfl
  | cons line lines ih =>
      rw [List.flatMap_cons, lines_ending (h line List.mem_cons_self),
        ih fun other hother => h other (List.mem_cons_of_mem _ hother)]

private theorem keyLine?_keyLine {key : Text} (h : IsKey key) :
    keyLine? (key ++ [':']) = some key :=
  keyLine?_eq_some_iff.mpr ⟨h, [], by simp [Text.Blank], rfl⟩

private theorem keyLine?_indent (row : Text) :
    keyLine? (indent ++ row) = none := rfl

private theorem sections_entryLines {entries : List (Text × Text)}
    (h : ∀ entry ∈ entries, IsKey entry.1) :
    sections (entries.flatMap entryLines) =
      ([], entries.map fun entry =>
        ⟨entry.1, (rows entry.2).map (indent ++ ·)⟩) := by
  induction entries with
  | nil => rfl
  | cons entry entries ih =>
      have hkey := keyLine?_keyLine (h entry List.mem_cons_self)
      have hrows : ∀ line ∈ (rows entry.2).map (indent ++ ·),
          keyLine? line = none := by
        intro line hline
        obtain ⟨row, _, rfl⟩ := List.mem_map.mp hline
        exact keyLine?_indent row
      rw [List.flatMap_cons, entryLines, List.cons_append,
        sections_cons_key hkey, sections_body_append hrows,
        ih fun other hother => h other (List.mem_cons_of_mem _ hother),
        List.append_nil, List.map_cons]

private theorem value_indented (key : Text) {value : Text}
    (h : Canonical value) :
    Section.value ⟨key, (rows value).map (indent ++ ·)⟩ = value := by
  have hdedent : ((rows value).map (indent ++ ·)).map dedent = rows value := by
    rw [List.map_map]
    exact List.map_id _
  rw [Section.value, hdedent]
  rcases h with rfl | htrimmed
  · rfl
  · have htrim : trim (rows value) = rows value := by
      have hframe :=
        trim_frame htrimmed (List.forall_mem_nil _) (List.forall_mem_nil _)
      rwa [List.nil_append, List.append_nil] at hframe
    rw [htrim, join_rows]

theorem IsKey.not_mark {key : Text} (h : IsKey key) : '\uFEFF' ∉ key := by
  intro hmark
  exact absurd (h.isKeyChar hmark) (by decide)

theorem unmark_of_head {t : Text} (h : t.head? ≠ some '\uFEFF') :
    unmark t = t := by
  rw [unmark]
  intro rest hrest
  exact h (congrArg List.head? hrest)

private theorem unmark_render {ending : LineEnding}
    {entries : List (Text × Text)} (h : ∀ entry ∈ entries, IsKey entry.1) :
    unmark (render ending entries) = render ending entries := by
  cases entries with
  | nil => rfl
  | cons entry entries =>
      have hkey := h entry List.mem_cons_self
      obtain ⟨c, rest, hcons⟩ := List.exists_cons_of_ne_nil hkey.1
      apply unmark_of_head
      rw [render, List.flatMap_cons, entryLines, hcons]
      intro hmark
      apply hkey.not_mark
      rw [hcons, Option.some.inj hmark]
      exact List.mem_cons_self

private theorem survives_of_mem_entryLines {ending : LineEnding}
    {entry : Text × Text} {line : Text} (hkey : IsKey entry.1)
    (hrows : ending = .crlf ∨ ∀ row ∈ rows entry.2, row.getLast? ≠ some '\r')
    (h : line ∈ entryLines entry) : Survives ending line := by
  rcases List.mem_cons.mp h with rfl | hrow
  · have hfeed : '\n' ∉ entry.1 :=
      fun hmem => absurd (hkey.isKeyChar hmem) (by decide)
    refine ⟨List.not_mem_append hfeed (by decide), .inr ?_⟩
    rw [List.getLast?_concat]
    decide
  · obtain ⟨row, hmem, rfl⟩ := List.mem_map.mp hrow
    refine ⟨List.not_mem_append (by decide) (no_feed_of_mem_rows hmem), ?_⟩
    refine hrows.imp_right fun hlast => ?_
    rw [List.getLast?_append]
    cases hrow : row.getLast? with
    | none => decide
    | some c =>
        have hc := hlast row hmem
        rw [hrow] at hc
        exact hc

private theorem pair_section {entry : Text × Text} (h : Canonical entry.2) :
    Section.pair ⟨entry.1, (rows entry.2).map (indent ++ ·)⟩ = entry :=
  Prod.ext rfl (value_indented entry.1 h)

private theorem parse_render {ending : LineEnding} {prompts : Prompts}
    (h : WellFormed prompts)
    (hrows : ending = .crlf ∨
      ∀ entry ∈ prompts.entries, ∀ row ∈ rows entry.2, row.getLast? ≠ some '\r')
    {entries : List (Text × Text)} (hperm : entries.Perm prompts.entries) :
    parse (render ending entries) = prompts := by
  have hkeys : ∀ entry ∈ entries, IsKey entry.1 :=
    fun entry hentry => h.isKey entry (hperm.mem_iff.mp hentry)
  have hsurvives : ∀ line ∈ entries.flatMap entryLines,
      Survives ending line := by
    intro line hline
    obtain ⟨entry, hentry, hmem⟩ := List.mem_flatMap.mp hline
    refine survives_of_mem_entryLines (hkeys entry hentry) ?_ hmem
    exact hrows.imp_right fun hall => hall entry (hperm.mem_iff.mp hentry)
  have hpairs : (entries.map fun entry =>
      Section.mk entry.1 ((rows entry.2).map (indent ++ ·))).map Section.pair =
        entries := by
    rw [List.map_map]
    calc entries.map _ = entries.map id :=
          List.map_congr_left fun entry hentry =>
            pair_section (h.canonical entry (hperm.mem_iff.mp hentry))
      _ = entries := List.map_id entries
  rw [parse, unmark_render hkeys, render, lines_flatMap_ending hsurvives,
    sections_entryLines hkeys, hpairs, TextMap.ofList_of_perm hperm]

/-- Reading gives keys and values that can be written, and what is written in
any order with either ending is read back. -/
theorem parse_render_image :
    (∀ text, WellFormed (parse text)) ∧
    (∀ prompts : Prompts, WellFormed prompts →
      ∀ entries, entries.Perm prompts.entries →
      parse (render .crlf entries) = prompts ∧
      ((∀ entry ∈ prompts.entries, ∀ row ∈ rows entry.2,
        row.getLast? ≠ some '\r') →
        parse (render .lf entries) = prompts)) ∧
    ∀ text, parse (render .crlf (parse text).entries) = parse text := by
  refine ⟨parse_wellFormed, ?_, ?_⟩
  · intro prompts h entries hperm
    exact ⟨parse_render h (.inl rfl) hperm, fun hrows =>
      parse_render h (.inr hrows) hperm⟩
  · intro text
    exact parse_render (parse_wellFormed text) (.inl rfl) (List.Perm.refl _)

/-- Entries against the order of their keys. The last value has a row that looks
like a key line, an empty row and a deeper one. -/
def unorderedEntries : List (Text × Text) :=
  [("b".toList, []), ("a".toList, "a:\n\n    x".toList)]

theorem parse_render_image_unordered :
    WellFormed (.ofList unorderedEntries) ∧
      unorderedEntries.Perm (TextMap.ofList unorderedEntries).entries ∧
      parse (render .crlf unorderedEntries) = .ofList unorderedEntries ∧
      parse (render .lf unorderedEntries) = .ofList unorderedEntries := by
  have hwf : WellFormed (.ofList unorderedEntries) := ⟨by decide, by decide⟩
  have hperm : unorderedEntries.Perm
      (TextMap.ofList unorderedEntries).entries := by decide
  obtain ⟨hcrlf, hlf⟩ := parse_render_image.2.1 _ hwf unorderedEntries hperm
  exact ⟨hwf, hperm, hcrlf, hlf (by decide)⟩

end TextOverride.Prompts
