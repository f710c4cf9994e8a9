import Mathlib.Data.List.Forall2
import TextOverride.Proofs.Text.Pieces

namespace TextOverride.Text

variable {t line : Text}

def toCrlf (t : Text) : Text :=
  t.flatMap fun c => if c = '\n' then ['\r', '\n'] else [c]

theorem toCrlf_of_no_feed (h : '\n' ∉ line) : toCrlf line = line := by
  induction line with
  | nil => rfl
  | cons c line ih =>
      obtain ⟨hc, hline⟩ := List.ne_and_not_mem_of_not_mem_cons h
      rw [toCrlf, List.flatMap_cons, if_neg hc.symm, ← toCrlf, ih hline,
        List.singleton_append]

theorem toCrlf_line (h : '\n' ∉ line) (rest : Text) :
    toCrlf (line ++ '\n' :: rest) = line ++ '\r' :: '\n' :: toCrlf rest := by
  rw [toCrlf, List.flatMap_append, ← toCrlf, toCrlf_of_no_feed h,
    List.flatMap_cons, ← toCrlf]
  rfl

theorem lines_toCrlf (h : ¬ ['\r', '\n'] <:+: t) :
    lines (toCrlf t) = lines t := by
  induction t using line_induction with
  | nil => rfl
  | last line hne hfeed => rw [toCrlf_of_no_feed hfeed]
  | line line rest hfeed ih =>
      have hcr : line.getLast? ≠ some '\r' := by
        intro hlast
        obtain ⟨start, rfl⟩ := List.getLast?_eq_some_iff.mp hlast
        exact h ⟨start, rest, by simp⟩
      have hrest : ¬ ['\r', '\n'] <:+: rest := fun hrest =>
        h (hrest.trans ((List.suffix_cons '\n' rest).trans
          (List.suffix_append line _)).isInfix)
      rw [toCrlf_line hfeed, lines_crlf hfeed, lines_lf hfeed hcr, ih hrest]

def Ending (t : Text) : Prop := ∀ c ∈ t, c = '\r' ∨ c = '\n'

instance (t : Text) : Decidable t.Ending := List.decidableBAll _ t

theorem ending_nil : Ending [] := List.forall_mem_nil _

/-- The lines have one body, each with an ending of its own. -/
def SameBody (line other : Text) : Prop :=
  ∃ body ending ending' : Text, ending.Ending ∧ ending'.Ending ∧
    line = body ++ ending ∧ other = body ++ ending'

theorem SameBody.refl (line : Text) : SameBody line line :=
  ⟨line, [], [], ending_nil, ending_nil, (List.append_nil line).symm,
    (List.append_nil line).symm⟩

theorem exists_chomp (line : Text) :
    ∃ ending : Text, ending.Ending ∧ line = chomp line ++ ending := by
  fun_induction chomp line with
  | case1 => exact ⟨[], ending_nil, rfl⟩
  | case2 => exact ⟨['\n'], by decide, rfl⟩
  | case3 => exact ⟨['\r', '\n'], by decide, rfl⟩
  | case4 c rest _ _ ih =>
      obtain ⟨ending, hending, hrest⟩ := ih
      exact ⟨ending, hending, by rw [List.cons_append, ← hrest]⟩

theorem forall₂_lines (t : Text) :
    List.Forall₂ SameBody (lines t) (pieces t) := by
  rw [lines, List.forall₂_map_left_iff, List.forall₂_same]
  intro piece _
  obtain ⟨ending, hending, hpiece⟩ := exists_chomp piece
  exact ⟨chomp piece, [], ending, ending_nil, hending,
    (List.append_nil _).symm, hpiece⟩

theorem forall₂_pieces_toCrlf (t : Text) :
    List.Forall₂ SameBody (pieces (toCrlf t)) (pieces t) := by
  induction t using line_induction with
  | nil => exact .nil
  | last line hne hfeed =>
      rw [toCrlf_of_no_feed hfeed]
      exact List.forall₂_same.mpr fun piece _ => .refl piece
  | line line rest hfeed ih =>
      have hcr : '\n' ∉ line ++ ['\r'] := List.not_mem_append hfeed (by decide)
      have hpieces := pieces_line hcr (toCrlf rest)
      simp only [List.append_assoc, List.singleton_append] at hpieces
      rw [toCrlf_line hfeed, hpieces, pieces_line hfeed]
      exact .cons ⟨line, ['\r', '\n'], ['\n'], by decide, by decide, rfl, rfl⟩
        ih

end TextOverride.Text
