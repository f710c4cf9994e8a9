import TextOverride.Proofs.Text.Lines

namespace TextOverride.Text

def Terminated (t : Text) : Prop := t = [] ∨ ['\n'] <:+ t

theorem terminated_feed (t : Text) : Terminated (t ++ ['\n']) :=
  .inr (List.suffix_append t _)

theorem Terminated.append {t u : Text} (ht : Terminated t) (hu : Terminated u) :
    Terminated (t ++ u) := by
  rcases hu with rfl | hu
  · rwa [List.append_nil]
  · exact .inr (List.suffix_append_of_suffix hu)

theorem Terminated.tail {line rest : Text}
    (h : Terminated (line ++ '\n' :: rest)) :
    Terminated rest := by
  cases rest with
  | nil => exact .inl rfl
  | cons c rest =>
      rcases h with hnil | hsuffix
      · simp at hnil
      · have hrest : c :: rest <:+ line ++ '\n' :: c :: rest :=
          (List.suffix_cons '\n' (c :: rest)).trans (List.suffix_append line _)
        exact .inr
          (List.suffix_of_suffix_length_le hsuffix hrest (Nat.le_add_left 1 _))

theorem pieces_append {t : Text} (h : Terminated t) (u : Text) :
    pieces (t ++ u) = pieces t ++ pieces u := by
  induction t using line_induction with
  | nil => rfl
  | last line hne hfeed =>
      rcases h with hnil | hsuffix
      · exact absurd hnil hne
      · exact absurd (hsuffix.subset List.mem_cons_self) hfeed
  | line line rest hfeed ih =>
      rw [List.append_assoc, List.cons_append, pieces_line hfeed,
        pieces_line hfeed, ih h.tail, List.cons_append]

theorem lines_append {t : Text} (h : Terminated t) (u : Text) :
    lines (t ++ u) = lines t ++ lines u := by
  rw [lines, pieces_append h, List.map_append, ← lines, ← lines]

/-- Text without a line feed comes into the first line of what follows it. -/
theorem pieces_append_of_no_feed {start : Text} (hfeed : '\n' ∉ start)
    {t piece : Text} {rest : List Text} (h : pieces t = piece :: rest) :
    pieces (start ++ t) = (start ++ piece) :: rest := by
  induction start with
  | nil => exact h
  | cons c start ih =>
      obtain ⟨hc, hstart⟩ := List.ne_and_not_mem_of_not_mem_cons hfeed
      rw [List.cons_append, pieces_cons hc.symm, ih hstart, prepend,
        List.cons_append]

theorem exists_pieces_of_ne_nil {t : Text} (h : t ≠ []) :
    ∃ piece rest, pieces t = piece :: rest := by
  cases hpieces : pieces t with
  | nil =>
      have hflatten := flatten_pieces t
      rw [hpieces] at hflatten
      exact absurd hflatten.symm h
  | cons piece rest => exact ⟨piece, rest, rfl⟩

/-- A piece is a line with its line feed, or the end of the text. -/
theorem exists_of_mem_pieces {t piece : Text} (h : piece ∈ pieces t) :
    ∃ line, '\n' ∉ line ∧
      (piece = line ++ ['\n'] ∨ piece = line ∧ line ≠ []) := by
  induction t using line_induction with
  | nil => cases h
  | last line hne hfeed =>
      rw [pieces_last hne hfeed, List.mem_singleton] at h
      exact ⟨line, hfeed, .inr ⟨h, hne⟩⟩
  | line line rest hfeed ih =>
      rw [pieces_line hfeed] at h
      rcases List.mem_cons.mp h with hpiece | hmem
      · exact ⟨line, hfeed, .inl hpiece⟩
      · exact ih hmem

theorem ne_nil_of_mem_pieces {t piece : Text} (h : piece ∈ pieces t) :
    piece ≠ [] := by
  obtain ⟨line, _, rfl | ⟨rfl, hne⟩⟩ := exists_of_mem_pieces h
  · exact List.append_ne_nil_of_right_ne_nil line (List.cons_ne_nil _ _)
  · exact hne

theorem feed_suffix_of_mem {t piece : Text} (h : piece ∈ pieces t)
    (hfeed : '\n' ∈ piece) :
    ['\n'] <:+ piece := by
  obtain ⟨line, hline, rfl | ⟨rfl, _⟩⟩ := exists_of_mem_pieces h
  · exact List.suffix_append line _
  · exact absurd hfeed hline

/-! Parts of a text, cut between two pieces. -/

theorem terminated_flatten_take {t : Text} {n : Nat}
    (h : n < (pieces t).length) :
    Terminated ((pieces t).take n).flatten := by
  induction t using line_induction generalizing n with
  | nil => cases h
  | last line hne hfeed =>
      rw [pieces_last hne hfeed, List.length_singleton, Nat.lt_one_iff] at h
      rw [h]
      exact .inl rfl
  | line line rest hfeed ih =>
      rw [pieces_line hfeed] at h ⊢
      cases n with
      | zero => exact .inl rfl
      | succ n =>
          rw [List.take_succ_cons, List.flatten_cons]
          exact (terminated_feed line).append (ih (Nat.lt_of_succ_lt_succ h))

theorem pieces_flatten_drop (t : Text) (n : Nat) :
    pieces ((pieces t).drop n).flatten = (pieces t).drop n := by
  induction t using line_induction generalizing n with
  | nil => rw [pieces_nil, List.drop_nil, List.flatten_nil, pieces_nil]
  | last line hne hfeed =>
      rw [pieces_last hne hfeed]
      cases n with
      | zero =>
          rw [List.drop_zero, List.flatten_singleton, pieces_last hne hfeed]
      | succ n =>
          rw [List.drop_succ_cons, List.drop_nil, List.flatten_nil, pieces_nil]
  | line line rest hfeed ih =>
      rw [pieces_line hfeed]
      cases n with
      | zero =>
          rw [List.drop_zero, List.flatten_cons, flatten_pieces,
            List.append_assoc, List.singleton_append, pieces_line hfeed]
      | succ n => rw [List.drop_succ_cons, ih]

theorem pieces_flatten_take (t : Text) (n : Nat) :
    pieces ((pieces t).take n).flatten = (pieces t).take n := by
  by_cases h : n < (pieces t).length
  · have hparts :=
      pieces_append (terminated_flatten_take h) ((pieces t).drop n).flatten
    rw [← List.flatten_append, List.take_append_drop, flatten_pieces,
      pieces_flatten_drop]
      at hparts
    exact (List.append_cancel_right
      ((List.take_append_drop n _).trans hparts)).symm
  · rw [List.take_of_length_le (Nat.le_of_not_lt h), flatten_pieces]

/-- There is a piece for each line feed, and the one that ends the text. -/
theorem length_pieces_append {piece : Text} (h : pieces piece = [piece])
    (t : Text) :
    (pieces (t ++ piece)).length = t.count '\n' + 1 := by
  induction t using line_induction with
  | nil => rw [List.nil_append, h, List.length_singleton, List.count_nil]
  | last line hne hfeed =>
      rw [pieces_append_of_no_feed hfeed h, List.length_singleton,
        List.count_eq_zero.mpr hfeed]
  | line line rest hfeed ih =>
      rw [List.append_assoc, List.cons_append, pieces_line hfeed,
        List.length_cons, ih, List.count_append, List.count_eq_zero.mpr hfeed,
        List.count_cons_self]
      omega

end TextOverride.Text
