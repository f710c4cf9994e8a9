import TextOverride.Injection
import TextOverride.Proofs.Text.Lines

namespace TextOverride

namespace LineEnding

theorem of?_feed_ne_none (line : Text) : of? (line ++ ['\n']) ≠ none := by
  rw [of?]
  split
  · exact nofun
  · rw [if_pos (List.suffix_append line ['\n'])]
    exact nofun

end LineEnding

namespace Injection

variable {lines : List Text} {anchor : Fin lines.length}

theorem insert_of_terminated {ending : LineEnding}
    (h : LineEnding.of? (lines.get anchor) = some ending) (name value : Text) :
    insert lines anchor name value =
      lines.take (anchor + 1) ++
        (assignment name value ++ ending.text) :: lines.drop (anchor + 1) := by
  change LineEnding.of? lines[anchor] = some ending at h
  rw [insert, h]
  simp only [Fin.getElem_fin, List.append_assoc, List.cons_append,
    List.nil_append]
  rw [List.take_succ_eq_append_getElem anchor.isLt, List.append_assoc,
    List.singleton_append]

theorem insert_of_unterminated (h : LineEnding.of? (lines.get anchor) = none)
    (name value : Text) :
    insert lines anchor name value =
      lines.take anchor ++
        (lines.get anchor ++ (LineEnding.dominant lines).text) ::
          assignment name value ::
          lines.drop (anchor + 1) := by
  change LineEnding.of? lines[anchor] = none at h
  rw [insert, h]
  simp only [List.append_assoc, List.cons_append, List.nil_append]
  rfl

def upTo (lines : List Text) (anchor : Nat) : Text :=
  (lines.take (anchor + 1)).flatten

def beyond (lines : List Text) (anchor : Nat) : Text :=
  (lines.drop (anchor + 1)).flatten

theorem upTo_append_beyond (lines : List Text) (anchor : Nat) :
    upTo lines anchor ++ beyond lines anchor = lines.flatten := by
  rw [upTo, beyond, ← List.flatten_append, List.take_append_drop]

theorem flatten_insert_of_terminated {ending : LineEnding}
    (h : LineEnding.of? (lines.get anchor) = some ending) (name value : Text) :
    (insert lines anchor name value).flatten =
      upTo lines anchor ++ (assignment name value ++ ending.text) ++
        beyond lines anchor := by
  rw [insert_of_terminated h, List.flatten_append, List.flatten_cons,
    upTo, beyond]
  simp only [List.append_assoc]

theorem flatten_insert_of_unterminated
    (h : LineEnding.of? (lines.get anchor) = none) (name value : Text) :
    (insert lines anchor name value).flatten =
      upTo lines anchor ++
        ((LineEnding.dominant lines).text ++ assignment name value) ++
        beyond lines anchor := by
  rw [insert_of_unterminated h, upTo, beyond,
    List.take_succ_eq_append_getElem anchor.isLt]
  simp only [List.flatten_append, List.flatten_cons, List.flatten_nil,
    List.append_assoc, List.append_nil, List.get_eq_getElem]

/-- An unterminated piece of a text is its last one. -/
theorem beyond_of_unterminated {content : Text}
    {anchor : Fin content.pieces.length}
    (h : LineEnding.of? (content.pieces.get anchor) = none) :
    beyond content.pieces anchor = [] := by
  rw [beyond, List.drop_eq_nil_of_le, List.flatten_nil]
  apply Nat.le_of_not_lt
  intro hlt
  obtain ⟨line, _, hline⟩ := Text.pieces_terminated hlt
  rw [List.get_eq_getElem, hline] at h
  exact LineEnding.of?_feed_ne_none line h

end Injection

end TextOverride
