import TextOverride.Text

namespace TextOverride.Text

theorem line_induction {motive : Text → Prop} (nil : motive [])
    (last : ∀ line, line ≠ [] → '\n' ∉ line → motive line)
    (line : ∀ line rest, '\n' ∉ line → motive rest →
      motive (line ++ '\n' :: rest))
    (t : Text) : motive t := by
  by_cases hfeed : '\n' ∈ t
  · obtain ⟨before, rest, ht, hbefore⟩ := List.eq_append_cons_of_mem hfeed
    have hlt : rest.length < t.length := by
      rw [ht, List.length_append, List.length_cons]
      omega
    rw [ht]
    exact line before rest hbefore (line_induction nil last line rest)
  · by_cases hnil : t = []
    · exact hnil ▸ nil
    · exact last t hnil hfeed
  termination_by t.length

/-- A line feed ends the first line, or stands in what follows that line. -/
theorem feed_cases {line rest before after : Text} (hfeed : '\n' ∉ line)
    (h : line ++ '\n' :: rest = before ++ '\n' :: after) :
    before = line ∧ after = rest ∨
      ∃ between, before = line ++ '\n' :: between ∧
        rest = between ++ '\n' :: after := by
  rcases List.append_eq_append_iff.mp h with
    ⟨between, hbefore, hcut⟩ | ⟨between, hline, hcut⟩
  · cases between with
    | nil =>
        exact .inl ⟨by rw [hbefore, List.append_nil],
          (List.cons.inj hcut).2.symm⟩
    | cons c between =>
        obtain ⟨rfl, hrest⟩ := List.cons.inj hcut
        exact .inr ⟨between, hbefore, hrest⟩
  · cases between with
    | nil => exact .inl ⟨by rw [hline, List.append_nil], (List.cons.inj hcut).2⟩
    | cons c between =>
        obtain ⟨rfl, _⟩ := List.cons.inj hcut
        exact absurd (hline ▸ List.mem_append_right before List.mem_cons_self)
          hfeed

theorem pieces_last {line : Text} (hne : line ≠ []) (hfeed : '\n' ∉ line) :
    pieces line = [line] := by
  induction line with
  | nil => exact absurd rfl hne
  | cons c rest ih =>
      obtain ⟨hc, hrest⟩ := List.ne_and_not_mem_of_not_mem_cons hfeed
      rw [pieces_cons hc.symm]
      cases rest with
      | nil => rfl
      | cons d rest =>
          rw [ih (List.cons_ne_nil d rest) hrest]
          rfl

theorem pieces_line {line : Text} (hfeed : '\n' ∉ line) (rest : Text) :
    pieces (line ++ '\n' :: rest) = (line ++ ['\n']) :: pieces rest := by
  induction line with
  | nil => rfl
  | cons c line ih =>
      obtain ⟨hc, hline⟩ := List.ne_and_not_mem_of_not_mem_cons hfeed
      rw [List.cons_append, pieces_cons hc.symm, ih hline]
      rfl

/-- Only the last piece can be without a line feed. -/
theorem pieces_terminated {t : Text} {n : Nat} (h : n + 1 < (pieces t).length) :
    ∃ line, '\n' ∉ line ∧ (pieces t)[n] = line ++ ['\n'] := by
  induction t using line_induction generalizing n with
  | nil => cases h
  | last line hne hfeed =>
      rw [pieces_last hne hfeed, List.length_singleton] at h
      omega
  | line line rest hfeed ih =>
      simp only [pieces_line hfeed, List.length_cons] at h ⊢
      cases n with
      | zero => exact ⟨line, hfeed, rfl⟩
      | succ n => exact ih (Nat.lt_of_succ_lt_succ h)

theorem chomp_cons {c : Char} {rest : Text} (hfeed : c :: rest ≠ ['\n'])
    (hcrlf : c :: rest ≠ ['\r', '\n']) :
    chomp (c :: rest) = c :: chomp rest := by
  rw [chomp]
  · intro hc hrest
    exact hfeed (hc ▸ hrest ▸ rfl)
  · intro hc hrest
    exact hcrlf (hc ▸ hrest ▸ rfl)

theorem chomp_of_no_feed {line : Text} (hfeed : '\n' ∉ line) :
    chomp line = line := by
  induction line with
  | nil => rfl
  | cons c line ih =>
      rw [chomp_cons, ih (List.not_mem_of_not_mem_cons hfeed)]
      · intro h
        exact hfeed (h ▸ List.mem_cons_self)
      · intro h
        exact hfeed (h ▸ List.mem_cons_of_mem _ List.mem_cons_self)

theorem chomp_crlf (line : Text) : chomp (line ++ ['\r', '\n']) = line := by
  induction line with
  | nil => rfl
  | cons c line ih =>
      rw [List.cons_append, chomp_cons, ih]
      · simp
      · intro h
        simpa using congrArg List.length h

theorem chomp_lf {line : Text} (h : line.getLast? ≠ some '\r') :
    chomp (line ++ ['\n']) = line := by
  induction line with
  | nil => rfl
  | cons c line ih =>
      cases line with
      | nil =>
          rw [List.cons_append, chomp_cons]
          · rfl
          · simp
          · intro hc
            exact h (congrArg List.head? hc)
      | cons d line =>
          rw [List.cons_append, chomp_cons, ih h]
          · simp
          · simp

theorem chomp_begins (t : Text) : chomp t <+: t := by
  fun_induction chomp t with
  | case1 => exact List.prefix_rfl
  | case2 => exact List.nil_prefix
  | case3 => exact List.nil_prefix
  | case4 c rest _ _ ih => exact (List.prefix_cons_inj c).mpr ih

theorem lines_last {line : Text} (hne : line ≠ []) (hfeed : '\n' ∉ line) :
    lines line = [line] := by
  rw [lines, pieces_last hne hfeed, List.map_singleton, chomp_of_no_feed hfeed]

theorem lines_line {line : Text} (hfeed : '\n' ∉ line) (rest : Text) :
    lines (line ++ '\n' :: rest) = chomp (line ++ ['\n']) :: lines rest := by
  rw [lines, pieces_line hfeed, List.map_cons, lines]

theorem lines_crlf {line : Text} (hfeed : '\n' ∉ line) (rest : Text) :
    lines (line ++ '\r' :: '\n' :: rest) = line :: lines rest := by
  have hcr : '\n' ∉ line ++ ['\r'] := List.not_mem_append hfeed (by decide)
  have h := lines_line hcr rest
  simp only [List.append_assoc, List.singleton_append] at h
  rw [h, chomp_crlf]

theorem lines_lf {line : Text} (hfeed : '\n' ∉ line)
    (hcr : line.getLast? ≠ some '\r') (rest : Text) :
    lines (line ++ '\n' :: rest) = line :: lines rest := by
  rw [lines_line hfeed, chomp_lf hcr]

theorem first_line_begins {t line : Text} {rest : List Text}
    (h : lines t = line :: rest) :
    line <+: t := by
  rw [lines] at h
  obtain ⟨piece, pieces', hpieces, rfl, _⟩ := List.map_eq_cons_iff.mp h
  have ht : piece ++ pieces'.flatten = t := by
    rw [← List.flatten_cons, ← hpieces, flatten_pieces]
  exact (chomp_begins piece).trans ⟨_, ht⟩

theorem no_feed_of_mem_lines {t line : Text} (h : line ∈ lines t) :
    '\n' ∉ line := by
  induction t using line_induction with
  | nil => cases h
  | last last hne hfeed =>
      rw [lines_last hne hfeed, List.mem_singleton] at h
      exact h ▸ hfeed
  | line first rest hfeed ih =>
      by_cases hcr : first.getLast? = some '\r'
      · obtain ⟨start, rfl⟩ := List.getLast?_eq_some_iff.mp hcr
        have hstart : '\n' ∉ start :=
          fun hmem => hfeed (List.mem_append_left _ hmem)
        rw [List.append_assoc, List.singleton_append, lines_crlf hstart] at h
        rcases List.mem_cons.mp h with rfl | hmem
        · exact hstart
        · exact ih hmem
      · rw [lines_lf hfeed hcr] at h
        rcases List.mem_cons.mp h with rfl | hmem
        · exact hfeed
        · exact ih hmem

end TextOverride.Text
