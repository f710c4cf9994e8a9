import TextOverride.Proofs.Injection.Insertion
import TextOverride.Proofs.Text.Pieces

namespace TextOverride

namespace LineEnding

theorem exists_text_eq (ending : LineEnding) :
    ∃ start, ending.text = start ++ ['\n'] ∧ '\n' ∉ start := by
  cases ending with
  | lf => exact ⟨[], rfl, nofun⟩
  | crlf => exact ⟨['\r'], rfl, by decide⟩

theorem not_mem_text {c : Char} (hcr : c ≠ '\r') (hlf : c ≠ '\n')
    (ending : LineEnding) :
    c ∉ ending.text := by
  cases ending with
  | lf => simpa [text] using hlf
  | crlf => simpa [text] using ⟨hcr, hlf⟩

theorem feed_suffix_text (ending : LineEnding) (t : Text) :
    ['\n'] <:+ t ++ ending.text := by
  obtain ⟨start, htext, _⟩ := ending.exists_text_eq
  rw [htext, ← List.append_assoc]
  exact List.suffix_append _ _

theorem of?_isSome_iff {line : Text} :
    (of? line).isSome = true ↔ ['\n'] <:+ line := by
  rw [of?]
  split
  case isTrue h =>
    exact iff_of_true rfl ((List.suffix_cons '\r' ['\n']).trans h)
  case isFalse =>
    split
    case isTrue h => exact iff_of_true rfl h
    case isFalse h => exact iff_of_false Bool.false_ne_true h

theorem feed_suffix_of_of? {line : Text} {ending : LineEnding}
    (h : of? line = some ending) :
    ['\n'] <:+ line :=
  of?_isSome_iff.mp (by rw [h]; rfl)

theorem exists_of?_eq {line : Text} (h : ['\n'] <:+ line) :
    ∃ ending, of? line = some ending :=
  Option.isSome_iff_exists.mp (of?_isSome_iff.mpr h)

end LineEnding

namespace Text

theorem pieces_ending {line : Text} (hfeed : '\n' ∉ line)
    (ending : LineEnding) :
    pieces (line ++ ending.text) = [line ++ ending.text] := by
  obtain ⟨start, htext, hstart⟩ := ending.exists_text_eq
  rw [htext, ← List.append_assoc]
  exact pieces_line (List.not_mem_append hfeed hstart) []

/-- A line ending comes to the last piece, or is a piece of its own. -/
theorem mem_pieces_append_ending {t piece : Text} {ending : LineEnding}
    (h : piece ∈ pieces (t ++ ending.text)) :
    piece ∈ pieces t ∨ (∃ last ∈ pieces t, piece = last ++ ending.text) ∨
      piece = ending.text := by
  induction t using line_induction with
  | nil =>
      rw [pieces_ending List.not_mem_nil, List.mem_singleton] at h
      exact .inr (.inr h)
  | last line hne hfeed =>
      rw [pieces_ending hfeed, List.mem_singleton] at h
      rw [pieces_last hne hfeed]
      exact .inr (.inl ⟨line, List.mem_singleton_self line, h⟩)
  | line line rest hfeed ih =>
      rw [List.append_assoc, List.cons_append, pieces_line hfeed] at h
      rw [pieces_line hfeed]
      rcases List.mem_cons.mp h with hpiece | hmem
      · exact .inl (hpiece ▸ List.mem_cons_self)
      · refine (ih hmem).imp (List.mem_cons_of_mem _) (Or.imp_left ?_)
        rintro ⟨last, hlast, hpiece⟩
        exact ⟨last, List.mem_cons_of_mem _ hlast, hpiece⟩

end Text

namespace Injection

variable {content : Text} {anchor : Fin content.pieces.length}

private theorem pieces_upTo (content : Text) (n : Nat) :
    (upTo content.pieces n).pieces = content.pieces.take (n + 1) :=
  Text.pieces_flatten_take content (n + 1)

theorem pieces_beyond (content : Text) (n : Nat) :
    (beyond content.pieces n).pieces = content.pieces.drop (n + 1) :=
  Text.pieces_flatten_drop content (n + 1)

theorem upTo_eq (anchor : Fin content.pieces.length) :
    upTo content.pieces anchor =
      (content.pieces.take anchor).flatten ++ content.pieces.get anchor := by
  rw [upTo, List.take_succ_eq_append_getElem anchor.isLt, List.flatten_append,
    List.flatten_singleton, List.get_eq_getElem]

private theorem no_feed_of_unterminated
    (h : LineEnding.of? (content.pieces.get anchor) = none) :
    '\n' ∉ content.pieces.get anchor := by
  obtain ⟨line, hfeed, hline | ⟨hline, _⟩⟩ :=
    Text.exists_of_mem_pieces (List.get_mem _ anchor)
  · rw [hline] at h
    exact absurd h (LineEnding.of?_feed_ne_none line)
  · rwa [hline]

theorem pieces_insert_of_terminated {ending : LineEnding}
    (h : LineEnding.of? (content.pieces.get anchor) = some ending)
    (name value : Text) :
    Text.pieces (insert content.pieces anchor name value).flatten =
      content.pieces.take (anchor + 1) ++
        ((assignment name value ++ ending.text).pieces ++
          content.pieces.drop (anchor + 1)) := by
  have hupTo : (upTo content.pieces anchor).Terminated := by
    rw [upTo_eq]
    exact .inr (List.suffix_append_of_suffix (LineEnding.feed_suffix_of_of? h))
  have hassignment : (assignment name value ++ ending.text).Terminated :=
    .inr (ending.feed_suffix_text _)
  rw [flatten_insert_of_terminated h, List.append_assoc,
    Text.pieces_append hupTo, Text.pieces_append hassignment, pieces_upTo,
    pieces_beyond]

theorem pieces_insert_of_unterminated
    (h : LineEnding.of? (content.pieces.get anchor) = none)
    (name value : Text) :
    Text.pieces (insert content.pieces anchor name value).flatten =
      content.pieces.take anchor ++
        (content.pieces.get anchor ++
          (LineEnding.dominant content.pieces).text) ::
          (assignment name value).pieces := by
  have hline : (content.pieces.get anchor ++
      (LineEnding.dominant content.pieces).text).Terminated :=
    .inr (LineEnding.feed_suffix_text _ _)
  rw [flatten_insert_of_unterminated h, beyond_of_unterminated h, upTo_eq,
    List.append_nil, List.append_assoc,
    ← List.append_assoc (content.pieces.get anchor),
    Text.pieces_append (Text.terminated_flatten_take anchor.isLt),
    Text.pieces_append hline,
    Text.pieces_flatten_take, Text.pieces_ending (no_feed_of_unterminated h)]
  rfl

theorem count_feed_escape (value : Text) :
    (escape value).count '\n' = value.count '\n' := by
  induction value with
  | nil => rfl
  | cons c value ih =>
      rw [escape, List.flatMap_cons, List.count_append, ← escape, ih,
        List.count_cons, escapeChar]
      split
      case isTrue h =>
        have hc : c ≠ '\n' := by rcases h with rfl | rfl <;> decide
        rw [List.count_eq_zero.mpr (by simp [hc.symm]), beq_false_of_ne hc]
        simp
      case isFalse => rw [List.count_singleton, Nat.add_comm]

theorem assignment_eq (name value : Text) :
    assignment name value =
      (name ++ " = `".toList) ++
        (escape value ++ ("`; ".toList ++ marker)) := by
  simp only [assignment, List.append_assoc]
  rfl

def Tail (tail : Text) : Prop :=
  tail = [] ∨ ∃ ending : LineEnding, tail = ending.text

private theorem length_pieces_assignment {name tail : Text}
    (hname : '\n' ∉ name) (htail : Tail tail) (value : Text) :
    (assignment name value ++ tail).pieces.length = value.count '\n' + 1 := by
  have hfeed : '\n' ∉ "`; ".toList ++ marker := by decide
  have hpiece : Text.pieces ("`; ".toList ++ marker ++ tail) =
      ["`; ".toList ++ marker ++ tail] := by
    rcases htail with rfl | ⟨ending, rfl⟩
    · rw [List.append_nil]
      exact Text.pieces_last (by decide) hfeed
    · exact Text.pieces_ending hfeed ending
  have hlength :=
    Text.length_pieces_append hpiece ((name ++ " = `".toList) ++ escape value)
  rw [List.count_append, count_feed_escape, List.count_append,
    List.count_eq_zero.mpr hname, List.count_eq_zero.mpr (by decide),
    Nat.zero_add] at hlength
  rw [← hlength, assignment_eq]
  simp only [List.append_assoc]

private theorem exists_pieces_assignment {name : Text} (hname : '\n' ∉ name)
    (value tail : Text) :
    ∃ line rest, (assignment name value ++ tail).pieces = line :: rest ∧
      name ++ " = `".toList <+: line := by
  have hne : (escape value ++ ("`; ".toList ++ marker)) ++ tail ≠ [] :=
    List.append_ne_nil_of_left_ne_nil
      (List.append_ne_nil_of_right_ne_nil
        _ (List.append_ne_nil_of_left_ne_nil (by decide) _)) _
  obtain ⟨line, rest, hpieces⟩ := Text.exists_pieces_of_ne_nil hne
  have hfeed : '\n' ∉ name ++ " = `".toList :=
    List.not_mem_append hname (by decide)
  refine ⟨_, rest, ?_, List.prefix_append _ line⟩
  rw [assignment_eq, List.append_assoc]
  exact Text.pieces_append_of_no_feed hfeed hpieces

/-- An insertion adds as many lines as the assignment has, and the assignment
begins on the line behind the anchor. -/
theorem pieces_insert_grows (anchor : Fin content.pieces.length) {name : Text}
    (hname : '\n' ∉ name) (value : Text) :
    (Text.pieces (insert content.pieces anchor name value).flatten).length =
        content.pieces.length + (1 + value.count '\n') ∧
      ∃ line,
        (Text.pieces (insert content.pieces anchor name value).flatten)[
          anchor.val + 1]? = some line ∧
        name ++ " = `".toList <+: line := by
  have hlt := anchor.isLt
  cases h : LineEnding.of? (content.pieces.get anchor) with
  | some ending =>
      obtain ⟨line, rest, hpieces, hline⟩ :=
        exists_pieces_assignment hname value ending.text
      rw [pieces_insert_of_terminated h]
      constructor
      · simp only [List.length_append, List.length_take, List.length_drop,
          length_pieces_assignment hname (.inr ⟨ending, rfl⟩)]
        omega
      · refine ⟨line, ?_, hline⟩
        rw [hpieces, List.getElem?_append_right (List.length_take_le _ _),
          List.length_take_of_le hlt, Nat.sub_self]
        rfl
  | none =>
      obtain ⟨line, rest, hpieces, hline⟩ :=
        exists_pieces_assignment hname value []
      have hlast : content.pieces.drop (anchor + 1) = [] := by
        rw [← pieces_beyond, beyond_of_unterminated h]
        rfl
      have hlength := List.drop_eq_nil_iff.mp hlast
      have hassignment := length_pieces_assignment hname (.inl rfl) value
      rw [List.append_nil] at hpieces hassignment
      rw [pieces_insert_of_unterminated h]
      constructor
      · rw [List.length_append, List.length_cons,
          List.length_take_of_le (Nat.le_of_lt hlt), hassignment]
        omega
      · refine ⟨line, ?_, hline⟩
        rw [hpieces, List.getElem?_append_right
          (Nat.le_trans (List.length_take_le _ _) (Nat.le_succ _)),
          List.length_take_of_le (Nat.le_of_lt hlt),
          Nat.succ_sub (Nat.le_refl _), Nat.sub_self]
        rfl

end Injection

end TextOverride
