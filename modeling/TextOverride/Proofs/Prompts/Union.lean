import TextOverride.Proofs.Prompts.Rendering
import TextOverride.Proofs.Text.Pieces

namespace TextOverride.Prompts

variable {a b : Text}

private theorem unmark_append (h : a ≠ []) (b : Text) :
    unmark (a ++ b) = unmark a ++ b := by
  cases a with
  | nil => exact absurd rfl h
  | cons c a =>
      by_cases hmark : c = '\uFEFF'
      · rw [hmark]
        rfl
      · have hhead {rest : Text} : (c :: rest).head? ≠ some '\uFEFF' :=
          fun heq => hmark (Option.some.inj heq)
        rw [List.cons_append, unmark_of_head hhead, unmark_of_head hhead,
          List.cons_append]

private theorem unmark_append_of_head (h : b.head? ≠ some '\uFEFF') (a : Text) :
    unmark (a ++ b) = unmark a ++ b := by
  by_cases hnil : a = []
  · rw [hnil, List.nil_append, unmark_of_head h]
    rfl
  · exact unmark_append hnil b

private theorem terminated_unmark (h : a.Terminated) :
    (unmark a).Terminated := by
  by_cases hhead : a.head? = some '\uFEFF'
  · obtain ⟨rest, rfl⟩ := List.head?_eq_some_iff.mp hhead
    rcases h with hnil | hfeed
    · cases hnil
    · rcases List.suffix_cons_iff.mp hfeed with heq | hrest
      · cases heq
      · exact .inr hrest
  · rwa [unmark_of_head hhead]

private theorem KeyLine.head?_ne_mark {key line : Text} (h : KeyLine key line)
    {rest : List Text} (hlines : b.lines = line :: rest) :
    b.head? ≠ some '\uFEFF' := by
  obtain ⟨hkey, blanks, _, rfl⟩ := h
  obtain ⟨c, key, rfl⟩ := List.exists_cons_of_ne_nil hkey.1
  obtain ⟨behind, rfl⟩ := Text.first_line_begins hlines
  intro hmark
  exact hkey.not_mark (Option.some.inj hmark ▸ List.mem_cons_self)

theorem lines_unmark_append (ha : a.Terminated) (hb : b.head? ≠ some '\uFEFF') :
    (unmark (a ++ b)).lines = (unmark a).lines ++ (unmark b).lines := by
  rw [unmark_append_of_head hb, Text.lines_append (terminated_unmark ha),
    unmark_of_head hb]

/-- A text that begins with a key line comes behind another one like a later
section: its keys override those of the first text and leave the others
alone. -/
theorem parse_append_keyLine (ha : a.Terminated) {key line : Text}
    {rest : List Text} (hlines : b.lines = line :: rest)
    (hkey : KeyLine key line) (other : Text) :
    (parse (a ++ b)).get? other =
      ((parse b).get? other).or ((parse a).get? other) := by
  have hmark := hkey.head?_ne_mark hlines
  have hsections : (sections (unmark (a ++ b)).lines).2 =
      (sections (unmark a).lines).2 ++ (sections (unmark b).lines).2 := by
    rw [lines_unmark_append ha hmark, unmark_of_head hmark, hlines,
      sections_append_key (keyLine?_eq_some_iff.mpr hkey)]
  rw [get?_parse, get?_parse, get?_parse, hsections, List.map_append,
    List.reverse_append, TextMap.lookup?_append]

/-- The first text has a mark and a section that the second one overrides. -/
theorem parse_append_keyLine_override :
    Text.Terminated "\uFEFFa:\n  x\nb:\n  y\r\n".toList ∧
      Text.lines "b: \n\n  z".toList = ["b: ".toList, [], "  z".toList] ∧
      KeyLine "b".toList "b: ".toList ∧
      (parse ("\uFEFFa:\n  x\nb:\n  y\r\n".toList ++ "b: \n\n  z".toList)).get?
        "b".toList =
        some "z".toList ∧
      (parse ("\uFEFFa:\n  x\nb:\n  y\r\n".toList ++ "b: \n\n  z".toList)).get?
        "a".toList =
        some "x".toList := by
  have hterminated : Text.Terminated "\uFEFFa:\n  x\nb:\n  y\r\n".toList :=
    .inr (by decide)
  have hlines :
      Text.lines "b: \n\n  z".toList = ["b: ".toList, [], "  z".toList] := rfl
  have hkey : KeyLine "b".toList "b: ".toList := keyLine?_eq_some_iff.mp rfl
  exact ⟨hterminated, hlines, hkey,
    parse_append_keyLine hterminated hlines hkey "b".toList,
    parse_append_keyLine hterminated hlines hkey "a".toList⟩

end TextOverride.Prompts
