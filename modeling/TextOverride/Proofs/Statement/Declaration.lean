import TextOverride.Statement
import TextOverride.Proofs.Text.Pieces

namespace TextOverride.LineScan

variable {name line t : Text}

/-- A part of the line is a keyword, White_Space, the name, possibly
White_Space, and an equals sign. -/
def Declares (name line : Text) : Prop :=
  ∃ before keyword gap gap' after : Text, keyword ∈ keywords ∧
    gap ≠ [] ∧ gap.Blank ∧ gap'.Blank ∧
    line = before ++ (keyword ++ (gap ++ (name ++ (gap' ++ '=' :: after))))

theorem any_after?_iff {start : Text} {p : Text → Bool} :
    (Text.after? start t).any p = true ↔
      ∃ rest, t = start ++ rest ∧ p rest = true := by
  rw [Option.any_eq_true]
  exact exists_congr fun rest => and_congr_left' Text.after?_eq_some_iff

private theorem assigns_iff :
    assigns t = true ↔ ∃ gap after : Text, gap.Blank ∧
      t = gap ++ '=' :: after := by
  rw [assigns, beq_iff_eq]
  constructor
  · intro h
    obtain ⟨after, hafter⟩ := List.head?_eq_some_iff.mp h
    refine ⟨t.takeWhile isBlank, after,
      Text.blank_eq_true_iff.mp List.all_takeWhile, ?_⟩
    rw [← hafter, List.takeWhile_append_dropWhile]
  · rintro ⟨gap, after, hgap, rfl⟩
    rw [List.dropWhile_append_of_pos hgap,
      List.dropWhile_cons_of_neg (by decide)]
    rfl

private theorem namesAfterBlanks_iff :
    namesAfterBlanks name t = true ↔
      ∃ gap rest : Text, gap.Blank ∧ t = gap ++ (name ++ rest) ∧
        assigns rest = true := by
  induction t with
  | nil =>
      rw [namesAfterBlanks, any_after?_iff]
      constructor
      · rintro ⟨rest, hname, hrest⟩
        exact ⟨[], rest, nofun, hname, hrest⟩
      · rintro ⟨gap, rest, _, hname, hrest⟩
        exact ⟨rest, (List.append_eq_nil_iff.mp hname.symm).2.symm, hrest⟩
  | cons c t ih =>
      rw [namesAfterBlanks, Bool.or_eq_true, Bool.and_eq_true,
        any_after?_iff, ih]
      constructor
      · rintro (⟨rest, hname, hrest⟩ | ⟨hc, gap, rest, hgap, rfl, hrest⟩)
        · exact ⟨[], rest, nofun, hname, hrest⟩
        · exact ⟨c :: gap, rest, List.forall_mem_cons.mpr ⟨hc, hgap⟩,
            rfl, hrest⟩
      · rintro ⟨gap, rest, hgap, hname, hrest⟩
        cases gap with
        | nil => exact .inl ⟨rest, hname, hrest⟩
        | cons d gap =>
            obtain ⟨hd, hgap⟩ := List.forall_mem_cons.mp hgap
            rw [List.cons_append, List.cons.injEq] at hname
            exact .inr ⟨hname.1 ▸ hd, gap, rest, hgap, hname.2, hrest⟩

private theorem binds_iff :
    binds name t = true ↔ ∃ gap gap' after : Text, gap ≠ [] ∧ gap.Blank ∧
      gap'.Blank ∧
      t = gap ++ (name ++ (gap' ++ '=' :: after)) := by
  cases t with
  | nil =>
      rw [binds]
      refine iff_of_false Bool.false_ne_true ?_
      rintro ⟨gap, gap', after, hne, _, _, ht⟩
      exact hne (List.append_eq_nil_iff.mp ht.symm).1
  | cons c t =>
      simp only [binds, Bool.and_eq_true, namesAfterBlanks_iff, assigns_iff]
      constructor
      · rintro ⟨hc, gap, _, hgap, rfl, gap', after, hgap', rfl⟩
        exact ⟨c :: gap, gap', after, List.cons_ne_nil c gap,
          List.forall_mem_cons.mpr ⟨hc, hgap⟩, hgap', rfl⟩
      · rintro ⟨gap, gap', after, hne, hgap, hgap', ht⟩
        cases gap with
        | nil => exact absurd rfl hne
        | cons d gap =>
            obtain ⟨hd, hgap⟩ := List.forall_mem_cons.mp hgap
            rw [List.cons_append, List.cons.injEq] at ht
            exact ⟨ht.1 ▸ hd, gap, _, hgap, ht.2, gap', after, hgap', rfl⟩

private theorem opens_iff :
    opens name t = true ↔ ∃ keyword ∈ keywords, ∃ rest, t = keyword ++ rest ∧
      binds name rest = true := by
  rw [opens, List.any_eq_true]
  exact exists_congr fun keyword => and_congr_right fun _ => any_after?_iff

private theorem declares_iff_opens :
    declares name t = true ↔ ∃ before rest, t = before ++ rest ∧
      opens name rest = true := by
  induction t with
  | nil =>
      refine iff_of_false Bool.false_ne_true ?_
      rintro ⟨before, rest, hnil, hopens⟩
      rw [(List.append_eq_nil_iff.mp hnil.symm).2] at hopens
      cases hopens
  | cons c t ih =>
      rw [declares, Bool.or_eq_true, ih]
      constructor
      · rintro (hopens | ⟨before, rest, rfl, hopens⟩)
        · exact ⟨[], c :: t, rfl, hopens⟩
        · exact ⟨c :: before, rest, rfl, hopens⟩
      · rintro ⟨before, rest, ht, hopens⟩
        cases before with
        | nil => exact .inl (ht ▸ hopens)
        | cons d before =>
            rw [List.cons_append, List.cons.injEq] at ht
            exact .inr ⟨before, rest, ht.2, hopens⟩

theorem declares_iff : declares name line = true ↔ Declares name line := by
  simp only [declares_iff_opens, opens_iff, binds_iff]
  constructor
  · rintro ⟨before, _, rfl, keyword, hkeyword, _, rfl, gap, gap', after, hne,
      hgap, hgap', rfl⟩
    exact ⟨before, keyword, gap, gap', after, hkeyword, hne, hgap, hgap', rfl⟩
  · rintro ⟨before, keyword, gap, gap', after, hkeyword, hne, hgap, hgap', rfl⟩
    exact ⟨before, _, rfl, keyword, hkeyword, _, rfl, gap, gap', after, hne,
      hgap, hgap', rfl⟩

private theorem Declares.append (h : Declares name line) (ending : Text) :
    Declares name (line ++ ending) := by
  obtain ⟨before, keyword, gap, gap', after, hkeyword, hne, hgap, hgap',
    rfl⟩ := h
  exact ⟨before, keyword, gap, gap', after ++ ending, hkeyword, hne, hgap,
    hgap', by simp⟩

/-- The part of a line that declares a name ends with an equals sign. -/
theorem Declares.of_append {ending : Text} (hending : '=' ∉ ending)
    (h : Declares name (line ++ ending)) : Declares name line := by
  obtain ⟨before, keyword, gap, gap', after, hkeyword, hne, hgap, hgap',
      hline⟩ := h
  have hsplit : line ++ ending =
      (before ++ (keyword ++ (gap ++ (name ++ gap')))) ++ '=' :: after := by
    rw [hline]
    simp only [List.append_assoc]
  rcases List.append_eq_append_iff.mp hsplit with
    ⟨between, _, hbetween⟩ | ⟨rest, hrest, hafter⟩
  · exact absurd (hbetween ▸ List.mem_append_right between List.mem_cons_self)
      hending
  · cases rest with
    | nil =>
        have heq : ending = '=' :: after := hafter.symm
        exact absurd (heq ▸ List.mem_cons_self) hending
    | cons c rest =>
        rw [List.cons_append, List.cons.injEq] at hafter
        refine ⟨before, keyword, gap, gap', rest, hkeyword, hne, hgap,
          hgap', ?_⟩
        rw [hrest, ← hafter.1]
        simp only [List.append_assoc]

theorem declares_append {ending : Text} (hending : '=' ∉ ending)
    (name line : Text) :
    declares name (line ++ ending) = declares name line := by
  rw [Bool.eq_iff_iff, declares_iff, declares_iff]
  exact ⟨Declares.of_append hending, fun h => h.append ending⟩

/-- There is an equals sign behind the name, and nothing behind a line feed. -/
theorem no_feed_of_declares {content : Text} (hline : line ∈ content.pieces)
    (h : declares name line = true) : '\n' ∉ name := by
  obtain ⟨start, hfeed, rfl | ⟨rfl, _⟩⟩ := Text.exists_of_mem_pieces hline
  · rw [declares_append (by decide)] at h
    obtain ⟨before, keyword, gap, gap', after, _, _, _, _, rfl⟩ :=
      declares_iff.mp h
    exact fun hname => hfeed (by simp [hname])
  · obtain ⟨before, keyword, gap, gap', after, _, _, _, _, rfl⟩ :=
      declares_iff.mp h
    exact fun hname => hfeed (by simp [hname])

end TextOverride.LineScan
