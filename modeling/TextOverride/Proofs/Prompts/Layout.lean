import TextOverride.Proofs.Prompts.Union
import TextOverride.Proofs.Text.Endings

namespace TextOverride

namespace Text

variable {t : Text}

abbrev Blanks (ls : List Text) : Prop := ∀ line ∈ ls, line.Blank

theorem blank_unlines {blanks : List Text} (h : Blanks blanks) :
    (unlines blanks).Blank := by
  intro c hc
  obtain ⟨line, hline, hmem⟩ := List.mem_flatMap.mp hc
  rcases List.mem_append.mp hmem with hmem | hfeed
  · exact h line hline c hmem
  · rw [List.mem_singleton.mp hfeed]
    rfl

private theorem terminated_unlines (ls : List Text) :
    (unlines ls).Terminated := by
  induction ls with
  | nil => exact .inl rfl
  | cons line ls ih =>
      rw [unlines, List.flatMap_cons, ← unlines]
      exact (terminated_feed line).append ih

private theorem lines_unlines_append (ls : List Text) (t : Text) :
    lines (unlines ls ++ t) = lines (unlines ls) ++ lines t :=
  lines_append (terminated_unlines ls) t

private theorem mem_of_mem_lines {line : Text} (h : line ∈ lines t) {c : Char}
    (hc : c ∈ line) :
    c ∈ t := by
  obtain ⟨piece, hpiece, rfl⟩ := List.mem_map.mp h
  rw [← flatten_pieces t]
  exact List.mem_flatten.mpr ⟨piece, hpiece, (chomp_begins piece).subset hc⟩

theorem blanks_lines_unlines {blanks : List Text} (h : Blanks blanks) :
    Blanks (lines (unlines blanks)) :=
  fun _ hline c hc => blank_unlines h c (mem_of_mem_lines hline hc)

theorem Blank.head?_ne_mark {blanks : Text} (h : blanks.Blank)
    (ht : t.head? ≠ some '\uFEFF') :
    (blanks ++ t).head? ≠ some '\uFEFF' := by
  cases blanks with
  | nil => exact ht
  | cons c blanks =>
      intro hmark
      have hc := h c List.mem_cons_self
      rw [Option.some.inj hmark] at hc
      cases hc

end Text

namespace Prompts

open Text (Blanks)

variable {t t' : Text} {key line : Text} {lines lines' before after : List Text}

private theorem keyLine?_blank (h : line.Blank) : keyLine? line = none := by
  refine Option.eq_none_iff_forall_ne_some.mpr fun key hkey => ?_
  obtain ⟨_, blanks, _, rfl⟩ := keyLine?_eq_some_iff.mp hkey
  have hcolon := h ':' (List.mem_append_right key List.mem_cons_self)
  cases hcolon

private theorem blanks_dedent (h : Blanks lines) :
    Blanks (lines.map dedent) := by
  intro short hshort
  obtain ⟨line, hline, rfl⟩ := List.mem_map.mp hshort
  exact fun c hc => h line hline c ((dedent_sublist line).mem hc)

private theorem trim_blanks (hbefore : Blanks before) (hafter : Blanks after)
    (lines : List Text) :
    trim (before ++ lines ++ after) = trim lines := by
  obtain ⟨before', after', hsplit, htrimmed, hbefore', hafter'⟩ :=
    exists_trim lines
  calc trim (before ++ lines ++ after)
      = trim ((before ++ before') ++ trim lines ++ (after' ++ after)) := by
        nth_rewrite 1 [hsplit]
        simp only [List.append_assoc]
    _ = trim lines :=
      trim_frame htrimmed (List.forall_mem_append.mpr ⟨hbefore, hbefore'⟩)
        (List.forall_mem_append.mpr ⟨hafter', hafter⟩)

private theorem pair_blanks (hbefore : Blanks before) (hafter : Blanks after)
    (key : Text) (body : List Text) :
    Section.pair ⟨key, before ++ body ++ after⟩ = Section.pair ⟨key, body⟩ := by
  simp only [Section.pair, Section.value, List.map_append,
    trim_blanks (blanks_dedent hbefore) (blanks_dedent hafter)]

private theorem sections_blanks_append (h : Blanks before) (lines : List Text) :
    sections (before ++ lines) =
      (before ++ (sections lines).1, (sections lines).2) :=
  sections_body_append (fun line hline => keyLine?_blank (h line hline)) lines

/-! Lines with more blank lines among them. -/

/-- Blank lines come around key lines, and behind all lines. -/
inductive Padded : List Text → List Text → Prop
  | done {blanks : List Text} (hblanks : Blanks blanks) : Padded [] blanks
  | same (line : Text) {rest rest' : List Text} (h : Padded rest rest') :
      Padded (line :: rest) (line :: rest')
  | around {key line line' : Text} {before after rest rest' : List Text}
      (hkey : KeyLine key line) (hkey' : KeyLine key line')
      (hbefore : Blanks before) (hafter : Blanks after)
      (h : Padded rest rest') : Padded (line :: rest)
      (before ++ line' :: (after ++ rest'))

theorem Padded.append_blanks (h : Blanks after) (lines : List Text) :
    Padded lines (lines ++ after) := by
  induction lines with
  | nil => exact .done h
  | cons line lines ih => exact .same line ih

private theorem Padded.refl (lines : List Text) : Padded lines lines := by
  have h := append_blanks (List.forall_mem_nil _) lines
  rwa [List.append_nil] at h

/-- The lines before the first key line grow at their end alone. So does the
block that they become under a key line, but for the blank lines that come
behind the key line. -/
theorem sections_padded (h : Padded lines lines') :
    (sections lines').2.map Section.pair = (sections lines).2.map Section.pair ∧
      ∃ blanks, Blanks blanks ∧ (sections lines').1 =
        (sections lines).1 ++ blanks := by
  induction h with
  | @done blanks hblanks =>
      have hsections := sections_blanks_append hblanks []
      rw [List.append_nil] at hsections
      rw [hsections]
      exact ⟨rfl, blanks, hblanks, List.append_nil blanks⟩
  | @same line rest rest' _ ih =>
      obtain ⟨hpairs, blanks, hblanks, hbody⟩ := ih
      cases hkey : keyLine? line with
      | none =>
          rw [sections_cons_body hkey, sections_cons_body hkey, hbody]
          exact ⟨hpairs, blanks, hblanks, rfl⟩
      | some key =>
          have hpair :=
            pair_blanks (List.forall_mem_nil _) hblanks key (sections rest).1
          rw [sections_cons_key hkey, sections_cons_key hkey, hbody,
            List.map_cons, List.map_cons, hpairs]
          exact ⟨congrArg (· :: _) hpair, [], List.forall_mem_nil _, rfl⟩
  | @around key line line' before after rest rest' hkey hkey' hbefore
      hafter _ ih =>
      obtain ⟨hpairs, blanks, hblanks, hbody⟩ := ih
      have hpair := pair_blanks hafter hblanks key (sections rest).1
      rw [List.append_assoc] at hpair
      rw [sections_blanks_append hbefore,
        sections_cons_key (keyLine?_eq_some_iff.mpr hkey'),
        sections_cons_key (keyLine?_eq_some_iff.mpr hkey),
        sections_blanks_append hafter, hbody,
        List.map_cons, List.map_cons, hpairs]
      exact ⟨congrArg (· :: _) hpair, before, hbefore, List.append_nil before⟩

private theorem parse_of_padded
    (h : Padded (unmark t).lines (unmark t').lines) :
    parse t' = parse t := by
  rw [parse, parse, (sections_padded h).1]

/-! Texts with more blank lines in them. -/

/-- The second text is the first one with lines of White_Space put directly
before and directly after some of its key lines. A key line that ends the text
without a line feed gets one when lines come after it. -/
inductive Spaced : Text → Text → Prop
  | last {line : Text} (hfeed : '\n' ∉ line) : Spaced line line
  | lastKey {key line : Text} {before : List Text} (hfeed : '\n' ∉ line)
      (hkey : KeyLine key line) (hbefore : Blanks before) :
      Spaced line (Text.unlines before ++ line)
  | endedKey {key line : Text} {before after : List Text} (hfeed : '\n' ∉ line)
      (hkey : KeyLine key line) (hbefore : Blanks before)
      (hafter : Blanks after) :
      Spaced line (Text.unlines before ++ (line ++ '\n' :: Text.unlines after))
  | line {line rest rest' : Text} (hfeed : '\n' ∉ line)
      (h : Spaced rest rest') :
      Spaced (line ++ '\n' :: rest) (line ++ '\n' :: rest')
  | key {key line rest rest' : Text} {before after : List Text}
      (hfeed : '\n' ∉ line)
      (hkey : KeyLine key (Text.chomp (line ++ ['\n'])))
      (hbefore : Blanks before) (hafter : Blanks after)
      (h : Spaced rest rest') :
      Spaced (line ++ '\n' :: rest)
        (Text.unlines before ++ (line ++ '\n' :: (Text.unlines after ++ rest')))

theorem KeyLine.ne_nil (h : KeyLine key line) : line ≠ [] := by
  obtain ⟨_, blanks, _, rfl⟩ := h
  exact List.append_ne_nil_of_right_ne_nil key (List.cons_ne_nil _ _)

/-- A carriage return before a line feed is one of the blanks of a key line. -/
theorem KeyLine.chomp (h : KeyLine key line) :
    KeyLine key (Text.chomp (line ++ ['\n'])) := by
  obtain ⟨hkey, blanks, hblanks, rfl⟩ := h
  rcases List.eq_nil_or_concat blanks with rfl | ⟨start, c, rfl⟩
  · refine ⟨hkey, [], hblanks, Text.chomp_lf ?_⟩
    rw [List.getLast?_concat]
    decide
  · rw [List.concat_eq_append] at hblanks ⊢
    obtain ⟨hstart, _⟩ := List.forall_mem_append.mp hblanks
    rw [← List.cons_append, ← List.append_assoc]
    by_cases hcr : c = '\r'
    · refine ⟨hkey, start, hstart, ?_⟩
      rw [hcr, List.append_assoc]
      exact Text.chomp_crlf (key ++ ':' :: start)
    · refine ⟨hkey, start ++ [c], hblanks, ?_⟩
      rw [Text.chomp_lf, List.append_assoc, List.cons_append]
      rw [List.getLast?_concat]
      exact fun heq => hcr (Option.some.inj heq)

private theorem Spaced.padded (h : Spaced t t') : Padded t.lines t'.lines := by
  induction h with
  | @last line hfeed => exact .refl line.lines
  | @lastKey key line before hfeed hkey hbefore =>
      rw [Text.lines_unlines_append, Text.lines_last hkey.ne_nil hfeed]
      exact .around hkey hkey (Text.blanks_lines_unlines hbefore)
        (List.forall_mem_nil _)
        (.refl [])
  | @endedKey key line before after hfeed hkey hbefore hafter =>
      rw [Text.lines_unlines_append, Text.lines_last hkey.ne_nil hfeed,
        Text.lines_line hfeed]
      have h : Padded [line] _ :=
        .around hkey hkey.chomp (Text.blanks_lines_unlines hbefore)
        (Text.blanks_lines_unlines hafter) (.refl [])
      rwa [List.append_nil] at h
  | @line line rest rest' hfeed _ ih =>
      rw [Text.lines_line hfeed, Text.lines_line hfeed]
      exact .same _ ih
  | @key key line rest rest' before after hfeed hkey hbefore hafter _ ih =>
      rw [Text.lines_unlines_append, Text.lines_line hfeed,
        Text.lines_line hfeed, Text.lines_unlines_append]
      exact .around hkey hkey (Text.blanks_lines_unlines hbefore)
        (Text.blanks_lines_unlines hafter) ih

private theorem Spaced.head?_ne_mark (h : Spaced t t')
    (ht : t.head? ≠ some '\uFEFF') :
    t'.head? ≠ some '\uFEFF' := by
  have hline {line rest : Text} (rest' : Text) :
      (line ++ '\n' :: rest).head? = (line ++ '\n' :: rest').head? := by
    cases line <;> rfl
  cases h with
  | last => exact ht
  | lastKey _ _ hbefore => exact (Text.blank_unlines hbefore).head?_ne_mark ht
  | endedKey _ hkey hbefore =>
      refine (Text.blank_unlines hbefore).head?_ne_mark ?_
      rwa [List.head?_append_of_ne_nil _ hkey.ne_nil]
  | @line line rest rest' => rwa [hline rest]
  | @key _ line rest _ _ _ _ _ hbefore =>
      refine (Text.blank_unlines hbefore).head?_ne_mark ?_
      rwa [hline rest]

private theorem unmark_toCrlf (t : Text) :
    unmark (Text.toCrlf t) = Text.toCrlf (unmark t) := by
  cases t with
  | nil => rfl
  | cons c t =>
      by_cases hmark : c = '\uFEFF'
      · rw [hmark]
        rfl
      · have hhead : (c :: t).head? ≠ some '\uFEFF' :=
          fun heq => hmark (Option.some.inj heq)
        have hcrlf : (Text.toCrlf (c :: t)).head? ≠ some '\uFEFF' := by
          rw [Text.toCrlf, List.flatMap_cons]
          split
          · exact fun heq => absurd (Option.some.inj heq) (by decide)
          · exact hhead
        rw [unmark_of_head hhead, unmark_of_head hcrlf]

private theorem unmark_suffix (t : Text) : unmark t <:+ t := by
  fun_cases unmark t with
  | case1 rest => exact List.suffix_cons '\uFEFF' rest
  | case2 => exact List.suffix_rfl

/-- What a text means does not depend on its line endings, nor on lines of
White_Space around its key lines and at its end. -/
theorem parse_layout (t : Text) :
    (¬ ['\r', '\n'] <:+: t → parse (Text.toCrlf t) = parse t) ∧
    (t.head? ≠ some '\uFEFF' → ∀ t', Spaced t t' → parse t' = parse t) ∧
    (t.Terminated → ∀ blanks : List Text, (∀ line ∈ blanks, line.Blank) →
      parse (t ++ Text.unlines blanks) = parse t) := by
  refine ⟨fun hcrlf => ?_, fun hmark t' h => ?_, fun ht blanks hblanks => ?_⟩
  · have hunmarked : ¬ ['\r', '\n'] <:+: unmark t := fun h =>
      hcrlf (h.trans (unmark_suffix t).isInfix)
    rw [parse, unmark_toCrlf, Text.lines_toCrlf hunmarked, ← parse]
  · apply parse_of_padded
    rw [unmark_of_head hmark, unmark_of_head (h.head?_ne_mark hmark)]
    exact h.padded
  · have hhead : (Text.unlines blanks).head? ≠ some '\uFEFF' := by
      rw [← List.append_nil (Text.unlines blanks)]
      exact (Text.blank_unlines hblanks).head?_ne_mark (by decide)
    apply parse_of_padded
    rw [lines_unmark_append ht hhead, unmark_of_head hhead]
    exact .append_blanks (Text.blanks_lines_unlines hblanks) _

/-- The blank lines hold a wide space and a carriage return, an indent, a tab,
or nothing. The last key line of the text has no line feed at first. -/
theorem parse_layout_spaced :
    ¬ ['\r', '\n'] <:+: "a:\n  x\nb:".toList ∧
      parse (Text.toCrlf "a:\n  x\nb:".toList) = parse "a:\n  x\nb:".toList ∧
      "a:\n  x\nb:".toList.head? ≠ some '\uFEFF' ∧
      Spaced "a:\n  x\nb:".toList "\u2003\r\na:\n  \n  x\n\nb:\n\t\n".toList ∧
      parse "\u2003\r\na:\n  \n  x\n\nb:\n\t\n".toList =
        parse "a:\n  x\nb:".toList ∧
      Text.Terminated "\uFEFFa:\n  x\n".toList ∧ Blanks ["  ".toList, []] ∧
      parse ("\uFEFFa:\n  x\n".toList ++ Text.unlines ["  ".toList, []]) =
        parse "\uFEFFa:\n  x\n".toList := by
  have hcrlf : ¬ ['\r', '\n'] <:+: "a:\n  x\nb:".toList := fun h =>
    absurd (h.subset List.mem_cons_self) (by decide)
  have hmark : "a:\n  x\nb:".toList.head? ≠ some '\uFEFF' := by decide
  have hb : Spaced "b:".toList "\nb:\n\t\n".toList :=
    @Spaced.endedKey "b".toList "b:".toList [[]] ["\t".toList] (by decide)
      (keyLine?_eq_some_iff.mp rfl) (by decide) (by decide)
  have hx : Spaced "  x\nb:".toList "  x\n\nb:\n\t\n".toList :=
    @Spaced.line "  x".toList "b:".toList "\nb:\n\t\n".toList (by decide) hb
  have ha :
      Spaced "a:\n  x\nb:".toList "\u2003\r\na:\n  \n  x\n\nb:\n\t\n".toList :=
    @Spaced.key "a".toList "a:".toList "  x\nb:".toList "  x\n\nb:\n\t\n".toList
      ["\u2003\r".toList] ["  ".toList] (by decide)
      (keyLine?_eq_some_iff.mp rfl) (by decide)
      (by decide) hx
  have hterminated : Text.Terminated "\uFEFFa:\n  x\n".toList :=
    .inr (by decide)
  have hblanks : Blanks ["  ".toList, []] := by decide
  obtain ⟨hlayout, hspaced, _⟩ := parse_layout "a:\n  x\nb:".toList
  exact ⟨hcrlf, hlayout hcrlf, hmark, ha, hspaced hmark _ ha, hterminated,
    hblanks, (parse_layout _).2.2 hterminated _ hblanks⟩

end Prompts

end TextOverride
