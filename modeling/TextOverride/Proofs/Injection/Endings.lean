import TextOverride.Proofs.Injection.Placement

namespace TextOverride

namespace LineEnding

def Ends : LineEnding → Text → Prop
  | .crlf, line => ['\r', '\n'] <:+ line
  | .lf, line => ['\n'] <:+ line ∧ ¬ ['\r', '\n'] <:+ line

instance (ending : LineEnding) (line : Text) : Decidable (ending.Ends line) :=
  match ending with
  | .crlf => inferInstanceAs (Decidable (['\r', '\n'] <:+ line))
  | .lf =>
      inferInstanceAs (Decidable (['\n'] <:+ line ∧ ¬ ['\r', '\n'] <:+ line))

/-- Every line feed of the text comes behind a carriage return, or none does. -/
def Uniform (ending : LineEnding) (t : Text) : Prop :=
  ∀ before after, t = before ++ '\n' :: after →
    (before.getLast? = some '\r' ↔ ending = .crlf)

variable {ending : LineEnding} {line : Text}

theorem of?_eq_some_iff : of? line = some ending ↔ ending.Ends line := by
  rw [of?]
  cases ending with
  | crlf =>
      split
      case isTrue h => exact iff_of_true rfl h
      case isFalse h =>
        refine iff_of_false ?_ h
        split <;> decide
  | lf =>
      split
      case isTrue h => exact iff_of_false (by decide) fun hends => hends.2 h
      case isFalse h =>
        split
        case isTrue hfeed => exact iff_of_true rfl ⟨hfeed, h⟩
        case isFalse hfeed =>
          exact iff_of_false (by decide) fun hends => hfeed hends.1

theorem of?_eq_none_iff : of? line = none ↔ ¬ ['\n'] <:+ line := by
  rw [← of?_isSome_iff, Option.not_isSome_iff_eq_none]

theorem Ends.unique {other : LineEnding} (h : ending.Ends line)
    (hother : other.Ends line) : ending = other :=
  Option.some.inj
    ((of?_eq_some_iff.mpr h).symm.trans (of?_eq_some_iff.mpr hother))

private theorem feed_suffix_iff {t : Text} :
    ['\n'] <:+ t ↔ t.getLast? = some '\n' := by
  rw [List.getLast?_eq_some_iff]
  exact exists_congr fun _ => eq_comm

theorem ends_feed_iff :
    ending.Ends (line ++ ['\n']) ↔
      (line.getLast? = some '\r' ↔ ending = .crlf) := by
  have hcrlf : ['\r', '\n'] <:+ line ++ ['\n'] ↔ line.getLast? = some '\r' := by
    rw [List.getLast?_eq_some_iff]
    constructor
    · rintro ⟨start, hstart⟩
      rw [List.append_cons start] at hstart
      exact ⟨start, (List.append_cancel_right hstart).symm⟩
    · rintro ⟨start, rfl⟩
      exact ⟨start, List.append_cons start '\r' ['\n']⟩
  cases ending with
  | crlf => simpa [Ends] using hcrlf
  | lf => simpa [Ends] using not_congr hcrlf

private theorem ends_append_text (h : line.getLast? ≠ some '\r')
    (ending : LineEnding) :
    ending.Ends (line ++ ending.text) := by
  cases ending with
  | crlf => exact List.suffix_append line _
  | lf => exact ends_feed_iff.mpr (iff_of_false h nofun)

private theorem getLast?_text (ending : LineEnding) :
    ending.text.getLast? = some '\n' := by
  cases ending <;> rfl

/-! The ending that most lines have. -/

theorem dominant_eq_crlf_iff {lines : List Text} :
    dominant lines = .crlf ↔ lines.countP (lf.Ends ·) <
      lines.countP (crlf.Ends ·) := by
  have hcount (ending : LineEnding) :
      lines.countP (of? · == some ending) = lines.countP (ending.Ends ·) :=
    List.countP_congr fun line _ => by
      rw [beq_iff_eq, decide_eq_true_eq, of?_eq_some_iff]
  rw [dominant, hcount, hcount]
  split
  case isTrue h => exact iff_of_true rfl h
  case isFalse h => exact iff_of_false nofun h

/-- The lines that end in a line feed are those that end in one alone and those
that have a carriage return before it. -/
theorem countP_feed (lines : List Text) :
    lines.countP (['\n'] <:+ ·) =
      lines.countP (lf.Ends ·) + lines.countP (crlf.Ends ·) := by
  induction lines with
  | nil => rfl
  | cons line lines ih =>
      have hfeed : ['\r', '\n'] <:+ line → ['\n'] <:+ line :=
        (List.suffix_cons '\r' ['\n']).trans
      simp only [List.countP_cons, ih, Ends, decide_eq_true_eq]
      by_cases hcrlf : ['\r', '\n'] <:+ line
      · simp [hcrlf, hfeed hcrlf]
        omega
      · by_cases hlf : ['\n'] <:+ line
        · simp [hcrlf, hlf]
          omega
        · simp [hcrlf, hlf]

private theorem dominant_of_ends {lines : List Text}
    (h : ∀ line ∈ lines, ['\n'] <:+ line → ending.Ends line)
    (hfeed : ∃ line ∈ lines, ['\n'] <:+ line) : dominant lines = ending := by
  have hnone {other : LineEnding} (hne : other ≠ ending) :
      lines.countP (other.Ends ·) = 0 := by
    refine List.countP_eq_zero.mpr fun line hline hends => ?_
    have hother : other.Ends line := of_decide_eq_true hends
    have hsuffix := feed_suffix_of_of? (of?_eq_some_iff.mpr hother)
    exact hne (hother.unique (h line hline hsuffix))
  cases ending with
  | crlf =>
      obtain ⟨line, hline, hsuffix⟩ := hfeed
      have hlf : lines.countP (lf.Ends ·) = 0 := hnone nofun
      have hends : crlf.Ends line := h line hline hsuffix
      rw [dominant_eq_crlf_iff, hlf]
      exact List.countP_pos_iff.mpr ⟨line, hline, decide_eq_true hends⟩
  | lf =>
      have hcrlf : lines.countP (crlf.Ends ·) = 0 := hnone nofun
      cases hdominant : dominant lines with
      | lf => rfl
      | crlf =>
          rw [dominant_eq_crlf_iff, hcrlf] at hdominant
          exact absurd hdominant (Nat.not_lt_zero _)

/-! Texts with one line ending. -/

private theorem uniform_of_no_feed (h : '\n' ∉ line) : Uniform ending line := by
  rintro before after rfl
  exact absurd (List.mem_append_right before List.mem_cons_self) h

private theorem uniform_line_iff (hfeed : '\n' ∉ line) (rest : Text) :
    Uniform ending (line ++ '\n' :: rest) ↔
      ending.Ends (line ++ ['\n']) ∧ Uniform ending rest := by
  have hbehind (before : Text) :
      (line ++ '\n' :: before).getLast? = some '\r' ↔
      before.getLast? = some '\r' := by
    cases before with
    | nil => simp
    | cons c before => simp
  constructor
  · intro h
    refine ⟨ends_feed_iff.mpr (h line rest rfl), ?_⟩
    rintro before after rfl
    rw [← hbehind before]
    exact h _ after (by rw [List.append_assoc, List.cons_append])
  · rintro ⟨hends, hrest⟩ before after heq
    rcases Text.feed_cases hfeed heq with ⟨rfl, rfl⟩ | ⟨between, rfl, rfl⟩
    · exact ends_feed_iff.mp hends
    · rw [hbehind]
      exact hrest between after rfl

theorem uniform_iff {t : Text} :
    Uniform ending t ↔ ∀ piece ∈ t.pieces, ['\n'] <:+ piece →
      ending.Ends piece := by
  induction t using Text.line_induction with
  | nil => exact iff_of_true (uniform_of_no_feed nofun) nofun
  | last line hne hfeed =>
      refine iff_of_true (uniform_of_no_feed hfeed)
        fun piece hpiece hsuffix => ?_
      rw [Text.pieces_last hne hfeed, List.mem_singleton] at hpiece
      exact absurd (hsuffix.subset List.mem_cons_self) (hpiece ▸ hfeed)
  | line line rest hfeed ih =>
      rw [uniform_line_iff hfeed, Text.pieces_line hfeed,
        List.forall_mem_cons, ih]
      exact and_congr_left' ⟨fun h _ => h, fun h =>
        h (List.suffix_append line _)⟩

end LineEnding

namespace Injection

open LineEnding (Uniform)

variable {content : Text} {anchor : Fin content.pieces.length}
    {name value : Text}

private theorem length_insert (anchor : Fin content.pieces.length)
    (name value : Text) :
    (insert content.pieces anchor name value).length =
      content.pieces.length + 1 := by
  have hlt := anchor.isLt
  cases h : LineEnding.of? (content.pieces.get anchor) with
  | some ending =>
      rw [insert_of_terminated h]
      simp only [List.length_append, List.length_cons, List.length_take,
        List.length_drop]
      omega
  | none =>
      rw [insert_of_unterminated h]
      simp only [List.length_append, List.length_cons, List.length_take,
        List.length_drop]
      omega

private theorem last_of_unterminated
    (h : LineEnding.of? (content.pieces.get anchor) = none) :
    anchor.val + 1 = content.pieces.length := by
  refine Nat.le_antisymm anchor.isLt (Nat.le_of_not_lt fun hlt => ?_)
  obtain ⟨line, _, hline⟩ := Text.pieces_terminated hlt
  rw [List.get_eq_getElem, hline] at h
  exact LineEnding.of?_feed_ne_none line h

private theorem content_of_unterminated
    (h : LineEnding.of? (content.pieces.get anchor) = none) :
    content = (content.pieces.take anchor).flatten ++
      content.pieces.get anchor := by
  rw [← upTo_eq, ← List.append_nil (upTo content.pieces anchor),
    ← beyond_of_unterminated h, upTo_append_beyond, Text.flatten_pieces]

theorem getLast?_of_unterminated
    (h : LineEnding.of? (content.pieces.get anchor) = none) :
    (content.pieces.get anchor).getLast? = content.getLast? := by
  have hne := Text.ne_nil_of_mem_pieces (List.get_mem _ anchor)
  have hcontent := congrArg List.getLast? (content_of_unterminated h)
  rw [List.getLast?_append, List.getLast?_eq_some_getLast hne, Option.some_or]
    at hcontent
  rw [hcontent, List.getLast?_eq_some_getLast hne]

theorem getLast?_assignment (name value : Text) :
    (assignment name value).getLast? = some 'y' := by
  rw [assignment_eq, List.getLast?_append, List.getLast?_append]
  rfl

private theorem no_feed_assignment (hname : '\n' ∉ name)
    (hvalue : '\n' ∉ value) :
    '\n' ∉ assignment name value := by
  rw [← List.count_eq_zero, assignment_eq, List.count_append, List.count_append,
    List.count_append, count_feed_escape, List.count_eq_zero.mpr hname,
    List.count_eq_zero.mpr hvalue]
  rfl

private theorem getLast?_insert_eq_feed_iff (anchor : Fin content.pieces.length)
    (name value : Text) :
    (insert content.pieces anchor name value).flatten.getLast? = some '\n' ↔
      content.getLast? = some '\n' := by
  cases h : LineEnding.of? (content.pieces.get anchor) with
  | some ending =>
      have hupTo : (upTo content.pieces anchor).getLast? = some '\n' := by
        rw [← LineEnding.feed_suffix_iff, upTo_eq]
        exact List.suffix_append_of_suffix (LineEnding.feed_suffix_of_of? h)
      have hcontent : content.getLast? =
          (beyond content.pieces anchor).getLast?.or (some '\n') := by
        rw [← hupTo, ← List.getLast?_append, upTo_append_beyond,
          Text.flatten_pieces]
      rw [flatten_insert_of_terminated h, List.getLast?_append,
        List.getLast?_append, List.getLast?_append, ending.getLast?_text,
        Option.some_or, Option.some_or, hcontent]
  | none =>
      rw [flatten_insert_of_unterminated h, beyond_of_unterminated h,
        List.append_nil, ← List.append_assoc, List.getLast?_append,
        getLast?_assignment]
      refine iff_of_false nofun fun hfeed => ?_
      rw [← getLast?_of_unterminated h, ← LineEnding.feed_suffix_iff] at hfeed
      exact LineEnding.of?_eq_none_iff.mp h hfeed

/-- Behind the lines of a text with one line ending there comes one more with
that ending, or the unterminated last line gets it. -/
theorem uniform_insert {ending : LineEnding} (h : Uniform ending content)
    (hcontent : '\n' ∈ content) (hlast : content.getLast? ≠ some '\r')
    (hname : '\n' ∉ name) (hvalue : '\n' ∉ value)
    (anchor : Fin content.pieces.length) :
    Uniform ending (insert content.pieces anchor name value).flatten := by
  rw [LineEnding.uniform_iff] at h ⊢
  -- Without a line feed in it the assignment is one line, and its last
  -- character is no carriage return.
  have hassignment := no_feed_assignment hname hvalue
  cases hanchor : LineEnding.of? (content.pieces.get anchor) with
  | some own =>
      have hown : own = ending :=
        (LineEnding.of?_eq_some_iff.mp hanchor).unique
          (h _ (List.get_mem _ anchor) (LineEnding.feed_suffix_of_of? hanchor))
      rw [pieces_insert_of_terminated hanchor,
        Text.pieces_ending hassignment, hown]
      intro piece hpiece hsuffix
      simp only [List.mem_append, List.mem_singleton] at hpiece
      rcases hpiece with hmem | rfl | hmem
      · exact h piece (List.mem_of_mem_take hmem) hsuffix
      · exact LineEnding.ends_append_text (by simp [getLast?_assignment]) ending
      · exact h piece (List.mem_of_mem_drop hmem) hsuffix
  | none =>
      have hdominant : LineEnding.dominant content.pieces = ending := by
        refine LineEnding.dominant_of_ends h ?_
        rw [← Text.flatten_pieces content] at hcontent
        obtain ⟨piece, hpiece, hfeed⟩ := List.mem_flatten.mp hcontent
        exact ⟨piece, hpiece, Text.feed_suffix_of_mem hpiece hfeed⟩
      rw [pieces_insert_of_unterminated hanchor, hdominant]
      intro piece hpiece hsuffix
      rcases List.mem_append.mp hpiece with hmem | hmem
      · exact h piece (List.mem_of_mem_take hmem) hsuffix
      · rcases List.mem_cons.mp hmem with rfl | hmem
        · exact LineEnding.ends_append_text
            (by rwa [getLast?_of_unterminated hanchor]) ending
        · refine absurd ?_ hassignment
          rw [← Text.flatten_pieces (assignment name value)]
          exact List.mem_flatten.mpr ⟨piece, hmem,
            hsuffix.subset List.mem_cons_self⟩

/-- An insertion adds one element to the lines and leaves their text alone: the
assignment goes behind the anchor line, with the ending of that line behind it,
or with an ending before it where the anchor is the unterminated last line. The
text ends in a line feed if it did before, and a text with one line ending keeps
to it. -/
theorem insert_keeps_shape (content : Text) (anchor : Fin content.pieces.length)
    (name value : Text) :
    (insert content.pieces anchor name value).length =
      content.pieces.length + 1 ∧
    (∃ before inserted after, content = before ++ after ∧
      (insert content.pieces anchor name value).flatten =
        before ++ inserted ++ after ∧
      before = (content.pieces.take (anchor + 1)).flatten ∧
      ((∃ ending : LineEnding, ending.Ends (content.pieces.get anchor) ∧
          inserted = assignment name value ++ ending.text) ∨
        ¬ ['\n'] <:+ content.pieces.get anchor ∧
        anchor.val + 1 = content.pieces.length ∧
          ∃ ending : LineEnding, inserted =
            ending.text ++ assignment name value ∧
            (ending = .crlf ↔ content.pieces.countP (LineEnding.lf.Ends ·) <
              content.pieces.countP (LineEnding.crlf.Ends ·)))) ∧
    content.pieces.countP (['\n'] <:+ ·) =
      content.pieces.countP (LineEnding.lf.Ends ·) +
      content.pieces.countP (LineEnding.crlf.Ends ·) ∧
    ((insert content.pieces anchor name value).flatten.getLast? = some '\n' ↔
      content.getLast? = some '\n') ∧
    ('\n' ∈ content → content.getLast? ≠ some '\r' → '\n' ∉ name →
      '\n' ∉ value →
      ∀ ending, Uniform ending content →
        Uniform ending (insert content.pieces anchor name value).flatten) := by
  have hcontent :
      content = upTo content.pieces anchor ++ beyond content.pieces anchor := by
    rw [upTo_append_beyond, Text.flatten_pieces]
  refine ⟨length_insert anchor name value, ?_, LineEnding.countP_feed _,
    getLast?_insert_eq_feed_iff anchor name value, ?_⟩
  · cases h : LineEnding.of? (content.pieces.get anchor) with
    | some ending =>
        exact ⟨_, _, _, hcontent, flatten_insert_of_terminated h name
          value, rfl,
          .inl ⟨ending, LineEnding.of?_eq_some_iff.mp h, rfl⟩⟩
    | none =>
        exact ⟨_, _, _, hcontent, flatten_insert_of_unterminated h name
          value, rfl,
          .inr ⟨LineEnding.of?_eq_none_iff.mp h, last_of_unterminated h, _, rfl,
            LineEnding.dominant_eq_crlf_iff⟩⟩
  · intro hfeed hlast hname hvalue ending huniform
    exact uniform_insert huniform hfeed hlast hname hvalue anchor

/-- The last line has no ending, and the only other line ends in a carriage
return and a line feed. -/
theorem insert_keeps_shape_unterminated :
    '\n' ∈ "a;\r\nlet A;".toList ∧ "a;\r\nlet A;".toList.getLast? ≠ some '\r' ∧
      '\n' ∉ "A".toList ∧ '\n' ∉ "\r".toList ∧
      Uniform .crlf "a;\r\nlet A;".toList ∧
      Uniform .crlf (insert (Text.pieces "a;\r\nlet A;".toList) ⟨1, by decide⟩
        "A".toList "\r".toList).flatten := by
  have hfeed : '\n' ∈ "a;\r\nlet A;".toList := by decide
  have hlast : "a;\r\nlet A;".toList.getLast? ≠ some '\r' := by decide
  have hname : '\n' ∉ "A".toList := by decide
  have hvalue : '\n' ∉ "\r".toList := by decide
  have huniform : Uniform .crlf "a;\r\nlet A;".toList :=
    LineEnding.uniform_iff.mpr (by decide)
  obtain ⟨_, _, _, _, hkeeps⟩ :=
    insert_keeps_shape "a;\r\nlet A;".toList ⟨1, by decide⟩ "A".toList
      "\r".toList
  exact ⟨hfeed, hlast, hname, hvalue, huniform,
    hkeeps hfeed hlast hname hvalue .crlf huniform⟩

end Injection

end TextOverride
